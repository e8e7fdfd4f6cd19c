/-
# The texts of entries

A client gets the text of an entry in two ways, as a field of a read and as a
field of a notification. Both decode the entry by itself. Joined, they are the
text of the stream as long as no entry begins or ends within a character.
-/

import Commmon.Lib.Utf8Chunks
import Commmon.PushOrder
import Commmon.ReadLog
import Commmon.Replies

set_option autoImplicit false

namespace Commmon

open Utf8Lossy (Whole encode)

/-- The `data` fields of what a response carries. -/
def Response.dataTexts (resp : Response) : List String :=
  match resp.data.map Payload.toValue with
  | some (.array xs) => xs.filterMap (·.strArg "data")
  | _ => []

/-- The `data` fields of all reads of a port. -/
def readTexts (p : String) (returns : List (Request × Response)) : List String :=
  (returns.filter fun r => r.1.cmd = "read_port" ∧ r.1.args.strArg "port" = some p).flatMap
    (·.2.dataTexts)

/-- The entries that the reads of a port have returned. -/
def readEntries (p : String) (returns : List (Request × Response)) : List RxEntry :=
  (returns.filterMap (readOf p)).flatten.map (·.entry)

/-- The `ascii` field of a notification of an entry of a port. -/
def Outgoing.asciiOf (p : String) : Outgoing → Option String
  | .response _ _ => none
  | .push line =>
      if line.notification.notify = "rx_data" ∧ line.notification.data.strArg "port" = some p then
        line.notification.data.strArg "ascii"
      else none

/-- The entries of a port that the client has been notified of. -/
def pushedEntries (p : String) (written : List Outgoing) : List RxEntry :=
  (rxPushes p written).map (·.entry)

private theorem dataTexts_of_entries {resp : Response} {b : List Arrival}
    (h : resp.data = some (.entries b)) :
    resp.dataTexts = b.map fun a => Utf8Lossy.decode a.entry.data := by
  rw [Response.dataTexts, h]
  simp only [Option.map_some, Payload.toValue, List.filterMap_map]
  rw [← List.filterMap_eq_map]
  rfl

/-- A response to `read_port` that carries anything carries entries. -/
theorem dataTexts_eq {p : String} {req : Request} {resp : Response}
    (hanswers : resp.Answers req.cmd) (hcmd : req.cmd = "read_port")
    (hport : req.args.strArg "port" = some p) :
    resp.dataTexts = (readEntries p [(req, resp)]).map fun e => Utf8Lossy.decode e.data := by
  have hread : readOf p (req, resp) = resp.entries? := if_pos ⟨hcmd, hport⟩
  rw [readEntries, List.filterMap_cons, hread]
  cases hanswers with
  | refused hok hdata => simp [Response.dataTexts, Response.entries?, hdata]
  | message msg hmem => exact absurd (hcmd ▸ hmem) (by decide)
  | read b => simp [dataTexts_of_entries, Response.entries?]
  | managed hmanaged hread => exact absurd hcmd hread

private theorem readTexts_eq {p : String} {returns : List (Request × Response)}
    (hanswers : ∀ r ∈ returns, r.2.Answers r.1.cmd) :
    readTexts p returns = (readEntries p returns).map fun e => Utf8Lossy.decode e.data := by
  induction returns with
  | nil => rfl
  | cons r returns ih =>
      obtain ⟨hr, hreturns⟩ := List.forall_mem_cons.mp hanswers
      have hcons : readEntries p (r :: returns) = readEntries p [r] ++ readEntries p returns := by
        rw [readEntries, readEntries, readEntries, ← List.map_append, ← List.flatten_append,
          ← List.filterMap_append]
        rfl
      rw [hcons, List.map_append, ← ih hreturns, readTexts, readTexts]
      by_cases hread : r.1.cmd = "read_port" ∧ r.1.args.strArg "port" = some p
      · rw [List.filter_cons_of_pos (by simpa using hread), List.flatMap_cons,
          dataTexts_eq hr hread.1 hread.2]
      · have hnone : readOf p r = none := if_neg hread
        rw [List.filter_cons_of_neg (by simpa using hread)]
        simp [readEntries, hnone]

private theorem asciiOf_eq (p : String) (out : Outgoing) :
    out.asciiOf p = (out.rxOf p).map fun a => Utf8Lossy.decode a.entry.data := by
  cases out with
  | response req resp => rfl
  | push line =>
      cases line with
      | filterHit port hit => rfl
      | rxData port a =>
          have hport : (Push.rxData port a).notification.data.strArg "port" = some port := rfl
          by_cases hp : port = p
          · rw [Outgoing.asciiOf, if_pos ⟨rfl, hp ▸ hport⟩, Outgoing.rxOf, Push.rxOf, if_pos hp]
            rfl
          · simp [Outgoing.asciiOf, Outgoing.rxOf, Push.rxOf, hport, hp]

private theorem filterMap_asciiOf (p : String) (written : List Outgoing) :
    written.filterMap (Outgoing.asciiOf p) =
      (pushedEntries p written).map fun e => Utf8Lossy.decode e.data := by
  rw [pushedEntries, rxPushes, List.map_map, List.map_filterMap]
  exact List.filterMap_congr fun out _ => asciiOf_eq p out

/-- Texts that are decoded entry by entry, joined. -/
theorem join_decode_eq_iff {entries : List RxEntry} {cs : List Char}
    (hstream : entries.flatMap (·.data) = encode cs) :
    String.join (entries.map fun e => Utf8Lossy.decode e.data) = String.ofList cs ↔
      ∀ e ∈ entries, Whole e.data := by
  have hchars : (String.join (entries.map fun e => Utf8Lossy.decode e.data)).toList =
      (entries.map (·.data)).flatMap Utf8Lossy.chars := by
    rw [String.toList_join, List.flatMap_map, List.flatMap_map]
    simp only [Utf8Lossy.toList_decode]
  rw [← String.toList_inj, hchars, String.toList_ofList,
    Utf8Lossy.flatMap_chars_eq_iff (by rw [← List.flatMap_def]; exact hstream),
    List.forall_mem_map]

/-- When the texts of a stream's entries are its text. In every run, if what a
client has read of a port are the entries of a stream, their `data` fields joined
are its text exactly if every entry is whole characters. The same holds of the
`ascii` fields of the notifications. -/
theorem texts_joined_iff {es : List Event} {w : World} (hrun : daemon.run es = some w)
    {c : ClientId} {cl : Client} (hclient : w.clients c = some cl) (p : String)
    {entries : List RxEntry} {cs : List Char} (hstream : entries.flatMap (·.data) = encode cs) :
    (readEntries p cl.returns = entries →
      (String.join (readTexts p cl.returns) = String.ofList cs ↔
        ∀ e ∈ entries, Whole e.data)) ∧
    (pushedEntries p cl.written = entries →
      (String.join (cl.written.filterMap (Outgoing.asciiOf p)) = String.ofList cs ↔
        ∀ e ∈ entries, Whole e.data)) := by
  rw [readTexts_eq (answered_of_run hrun hclient).returns, filterMap_asciiOf]
  constructor
  · rintro rfl
    exact join_decode_eq_iff hstream
  · rintro rfl
    exact join_decode_eq_iff hstream

/-- A subscribed client is pushed two entries, and then reads them. -/
def pushedAndRead (e e' : RxEntry) : List Event :=
  subscribedOnce ++ [.deliver 0 e, .deliver 0 e'] ++ List.replicate 6 (stream 0 []) ++
    issue 0 (readRequest "P" true) 5

/-- A Korean character in one entry, and another one cut into two. -/
def wholeEntries : List RxEntry := [⟨"t", [0xED, 0x95, 0x9C]⟩, ⟨"t", [0xEA, 0xB8, 0x80]⟩]

def cutEntries : List RxEntry := [⟨"t", [0xED]⟩, ⟨"t", [0x95, 0x9C]⟩]

/-- The client has got exactly these entries, in both ways. -/
def gotBoth (entries : List RxEntry) (cl : Client) : Bool :=
  readEntries "P" cl.returns == entries && pushedEntries "P" cl.written == entries

private theorem wholeEntries_got : (daemon.run (pushedAndRead ⟨"t", [0xED, 0x95, 0x9C]⟩
    ⟨"t", [0xEA, 0xB8, 0x80]⟩)).any (fun w => (w.clients 0).any (gotBoth wholeEntries)) = true := by
  decide +kernel

private theorem cutEntries_got : (daemon.run (pushedAndRead ⟨"t", [0xED]⟩ ⟨"t", [0x95, 0x9C]⟩)).any
    (fun w => (w.clients 0).any fun cl => gotBoth cutEntries cl &&
      !(String.join (readTexts "P" cl.returns) == "한") &&
      !(String.join (cl.written.filterMap (Outgoing.asciiOf "P")) == "한")) = true := by
  decide +kernel

/-- The theorem for entries that are whole characters. -/
theorem texts_joined_iff_whole : ∃ w cl,
    daemon.run (pushedAndRead ⟨"t", [0xED, 0x95, 0x9C]⟩ ⟨"t", [0xEA, 0xB8, 0x80]⟩) = some w ∧
    w.clients 0 = some cl ∧ wholeEntries.flatMap (·.data) = encode ['한', '글'] ∧
    readEntries "P" cl.returns = wholeEntries ∧ pushedEntries "P" cl.written = wholeEntries ∧
    (readEntries "P" cl.returns = wholeEntries →
      (String.join (readTexts "P" cl.returns) = String.ofList ['한', '글'] ↔
        ∀ e ∈ wholeEntries, Whole e.data)) ∧
    (pushedEntries "P" cl.written = wholeEntries →
      (String.join (cl.written.filterMap (Outgoing.asciiOf "P")) = String.ofList ['한', '글'] ↔
        ∀ e ∈ wholeEntries, Whole e.data)) := by
  have hstream : wholeEntries.flatMap (·.data) = encode ['한', '글'] := by decide
  obtain ⟨w, hw, hany⟩ := (Option.any_eq_true _ _).mp wholeEntries_got
  obtain ⟨cl, hcl, hgot⟩ := (Option.any_eq_true _ _).mp hany
  simp only [gotBoth, Bool.and_eq_true, beq_iff_eq] at hgot
  exact ⟨w, cl, hw, hcl, hstream, hgot.1, hgot.2, texts_joined_iff hw hcl "P" hstream⟩

/-- A character that is cut is lost, in both ways. -/
theorem texts_not_always_joined :
    ¬ ∀ (es : List Event) (w : World) (c : ClientId) (cl : Client) (p : String)
      (entries : List RxEntry) (cs : List Char), daemon.run es = some w → w.clients c = some cl →
      (∀ e ∈ entries, e.data.length ≤ 1024) → entries.flatMap (·.data) = encode cs →
      (readEntries p cl.returns = entries →
        String.join (readTexts p cl.returns) = String.ofList cs) ∧
      (pushedEntries p cl.written = entries →
        String.join (cl.written.filterMap (Outgoing.asciiOf p)) = String.ofList cs) := by
  intro hjoined
  obtain ⟨w, hw, hany⟩ := (Option.any_eq_true _ _).mp cutEntries_got
  obtain ⟨cl, hcl, htest⟩ := (Option.any_eq_true _ _).mp hany
  simp only [gotBoth, Bool.and_eq_true, beq_iff_eq, Bool.not_eq_true', beq_eq_false_iff_ne]
    at htest
  obtain ⟨⟨⟨hread, -⟩, hlost⟩, -⟩ := htest
  exact hlost ((hjoined _ w 0 cl "P" cutEntries ['한'] hw hcl (by decide) (by decide)).1 hread)

end Commmon

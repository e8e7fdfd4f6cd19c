/-
# Lines that are cut

The server turns every data event into text by itself, so that a character that is cut
by the network is lost. What a message says in other places is not: the garbled line is
read as a message of the same shape, with the same words of ASCII in it. And a line that no
data event ends within, or only between two of its characters, is read as it was
written, whatever has become of the others.
-/

import Commmon.Chunking
import Commmon.Lib.JsonBlurred
import Commmon.Lib.Utf8Decoder

set_option autoImplicit false

namespace Commmon

open Json (Blurred)
open Utf8Lossy (CutAt Garbled Whole encode)

private theorem messagesOf_prints {msgs : List Json}
    (hobj : ∀ msg ∈ msgs, ∃ fields, msg = .obj fields) :
    messagesOf (msgs.map Json.print) = msgs := by
  rw [messagesOf, List.filterMap_map]
  refine (List.filterMap_congr fun msg hmsg => ?_).trans List.filterMap_some
  obtain ⟨fields, rfl⟩ := hobj msg hmsg
  have hopen : isJsSpace '{' = false := by decide
  have hclose : isJsSpace '\x7d' = false := by decide
  rw [Function.comp_apply, trim_print_obj hopen hclose, Json.parse_print]

/-- Garbled lines are the lines of blurred messages. -/
theorem blurred_lines {msgs : List Json} (hobj : ∀ msg ∈ msgs, ∃ fields, msg = .obj fields) :
    ∀ {ds : List Char}, Garbled (msgs.flatMap lineOf) ds → ∃ msgs' : List Json,
      ds = LineBuffer.frame '\n' (msgs'.map Json.print) ∧ List.Forall₂ Blurred msgs msgs' := by
  induction msgs with
  | nil =>
      intro ds h
      exact ⟨[], h.eq_of_ascii (by simp), .nil⟩
  | cons msg msgs ih =>
      intro ds h
      obtain ⟨line, rest, rfl, hline, hrest⟩ := h.append_inv
      obtain ⟨text, rfl, htext⟩ := Json.garbled_concat (c := '\n') (by decide) hline
      obtain ⟨msg', rfl, hmsg⟩ := Json.blurred_print msg htext
      obtain ⟨msgs', rfl, hmsgs⟩ := ih (List.forall_mem_cons.mp hobj).2 hrest
      exact ⟨msg' :: msgs', rfl, .cons hmsg hmsgs⟩

theorem objects_of_blurred {msgs msgs' : List Json} (h : List.Forall₂ Blurred msgs msgs')
    (hobj : ∀ msg ∈ msgs, ∃ fields, msg = .obj fields) :
    ∀ msg ∈ msgs', ∃ fields, msg = .obj fields := by
  induction h with
  | nil => simp
  | cons hmsg h ih =>
      obtain ⟨⟨fields, rfl⟩, hmsgs⟩ := List.forall_mem_cons.mp hobj
      exact List.forall_mem_cons.mpr ⟨hmsg.exists_obj, ih hmsgs⟩

/-- Where no character is cut, the data events have the text. -/
theorem encode_flatMap_chars {pieces : List (List UInt8)} (h : ∀ piece ∈ pieces, Whole piece) :
    encode (pieces.flatMap Utf8Lossy.chars) = pieces.flatten := by
  induction pieces with
  | nil => rfl
  | cons piece pieces ih =>
      obtain ⟨⟨cs, rfl⟩, hpieces⟩ := List.forall_mem_cons.mp h
      rw [List.flatMap_cons, Utf8Lossy.encode_append, ih hpieces, Utf8Lossy.chars_encode,
        List.flatten_cons]

/-- A data event ends within a character of the line with this number. -/
def CutsLine (pieces : List (List UInt8)) (i : ℕ) : Prop :=
  ∃ bytes, CutAt pieces bytes ∧ bytes.count 10 = i ∧ ¬ Whole bytes

/-- The end of the whole stream cuts no character. -/
theorem CutsLine.of_concat {pieces : List (List UInt8)} {later : List UInt8} {i : ℕ}
    (h : CutsLine (pieces ++ [later]) i) (hwhole : Whole (pieces ++ [later]).flatten) :
    CutsLine pieces i := by
  obtain ⟨bytes, ⟨pre, hpre, rfl⟩, hcount, hcut⟩ := h
  obtain rfl | hpre := List.prefix_concat_iff.mp hpre
  · exact absurd hwhole hcut
  · exact ⟨_, ⟨pre, hpre, rfl⟩, hcount, hcut⟩

/-- Whole chunks cut no line. -/
theorem not_cutsLine {pieces : List (List UInt8)} (h : ∀ piece ∈ pieces, Whole piece) (i : ℕ) :
    ¬ CutsLine pieces i := by
  rintro ⟨bytes, ⟨pre, hpre, rfl⟩, -, hcut⟩
  refine hcut ⟨pre.flatMap Utf8Lossy.chars, ?_⟩
  exact (encode_flatMap_chars fun piece hpiece => h piece (hpre.subset hpiece)).symm

private theorem newline_not_mem_prints (msgs : List Json) :
    ∀ line ∈ msgs.map Json.print, '\n' ∉ line := by
  intro line hline
  obtain ⟨msg, -, rfl⟩ := List.mem_map.mp hline
  exact newline_not_mem_print msg

private theorem lines_eq_frame (msgs : List Json) :
    msgs.flatMap lineOf = LineBuffer.frame '\n' (msgs.map Json.print) := by
  rw [LineBuffer.frame, List.flatMap_map]
  rfl

/-- Before a line there are as many line feeds as lines. -/
theorem count_lines (msgs : List Json) :
    (encode (msgs.flatMap lineOf)).count 10 = msgs.length := by
  have hcount := Utf8Lossy.count_encode (c := '\n') (by decide) (msgs.flatMap lineOf)
  have hlines : (msgs.flatMap lineOf).count '\n' = msgs.length := by
    rw [lines_eq_frame, ← LineBuffer.length_split,
      LineBuffer.split_frame (newline_not_mem_prints msgs), List.length_map]
  exact hcount.trans hlines

/-- A line that is not cut is kept, among the lines that the others have become. -/
theorem exists_intact {front after : List Json} {msg : Json}
    (hobj : ∀ m ∈ front ++ msg :: after, ∃ fields, m = .obj fields) {chunks : List (List UInt8)}
    (h : chunks.flatten = encode ((front ++ msg :: after).flatMap lineOf))
    (hcut : ¬ CutsLine chunks front.length) : ∃ front' after' : List Json,
      chunks.flatMap Utf8Lossy.chars =
          LineBuffer.frame '\n' ((front' ++ msg :: after').map Json.print) ∧
        front'.length = front.length := by
  obtain ⟨hfront, hmsg⟩ := List.forall_mem_append.mp hobj
  obtain ⟨-, hafter⟩ := List.forall_mem_cons.mp hmsg
  rw [List.flatMap_append, List.flatMap_cons] at h
  have hwhole : ∀ bytes, bytes <+: encode (lineOf msg) →
      CutAt chunks (encode (front.flatMap lineOf) ++ bytes) → Whole bytes := by
    intro bytes hprefix hat
    have hline : encode (lineOf msg) = encode msg.print ++ [10] := by
      rw [lineOf, Utf8Lossy.encode_append]
      rfl
    obtain hall | hpart := List.prefix_concat_iff.mp (hline ▸ hprefix)
    · exact ⟨lineOf msg, by rw [hall, hline]⟩
    · -- the line's own line feed is not among the bytes
      have hnone : bytes.count 10 = 0 := by
        refine List.count_eq_zero.mpr fun hmem => ?_
        have hcount := Utf8Lossy.count_encode (c := '\n') (by decide) msg.print
        rw [List.count_eq_zero.mpr (newline_not_mem_print msg)] at hcount
        exact List.count_eq_zero.mp hcount (hpart.subset hmem)
      have hcount : (encode (front.flatMap lineOf) ++ bytes).count 10 = front.length := by
        rw [List.count_append, hnone, count_lines, Nat.add_zero]
      exact (not_not.mp fun hnot => hcut ⟨_, hat, hcount, hnot⟩).of_append
  obtain ⟨ds, ds', hchars, hds, hds'⟩ := Utf8Lossy.exists_kept h hwhole
  obtain ⟨front', rfl, hlength⟩ := blurred_lines hfront hds
  obtain ⟨after', rfl, -⟩ := blurred_lines hafter hds'
  refine ⟨front', after', ?_, hlength.length_eq.symm⟩
  rw [hchars]
  simp [LineBuffer.frame, lineOf]

/-- A line that is not cut is the line that was written. -/
theorem getElem?_of_intact {msgs msgs' : List Json}
    (hobj : ∀ msg ∈ msgs, ∃ fields, msg = .obj fields) {chunks : List (List UInt8)}
    (h : chunks.flatten = encode (msgs.flatMap lineOf))
    (htext : chunks.flatMap Utf8Lossy.chars = LineBuffer.frame '\n' (msgs'.map Json.print)) {i : ℕ}
    (hlt : i < msgs.length) (hcut : ¬ CutsLine chunks i) : msgs'[i]? = msgs[i]? := by
  have hsplit : msgs = msgs.take i ++ msgs[i] :: msgs.drop (i + 1) := by
    rw [← List.drop_eq_getElem_cons, List.take_append_drop]
  have hfirst : (msgs.take i).length = i := by rw [List.length_take, Nat.min_eq_left hlt.le]
  rw [hsplit] at h
  obtain ⟨front', after', htext', hlength⟩ := exists_intact (hsplit ▸ hobj) h (by rwa [hfirst])
  have hlines : msgs'.map Json.print = (front' ++ msgs[i] :: after').map Json.print := by
    have hframes := congrArg (LineBuffer.split '\n') (htext.symm.trans htext')
    rw [LineBuffer.split_frame (newline_not_mem_prints _),
      LineBuffer.split_frame (newline_not_mem_prints _)] at hframes
    exact (Prod.mk.inj hframes).1
  have hprint : (msgs'[i]?).map Json.print = some msgs[i].print := by
    rw [← List.getElem?_map, hlines, List.getElem?_map, List.getElem?_append_right (by omega),
      hlength, hfirst, Nat.sub_self, List.getElem?_cons_zero, Option.map_some]
  obtain ⟨msg, hmsg, hsame⟩ := Option.map_eq_some_iff.mp hprint
  have hparse := congrArg Json.parse hsame
  rw [Json.parse_print, Json.parse_print, Option.some.injEq] at hparse
  rw [hmsg, hparse, List.getElem?_eq_getElem hlt]

/-- The messages that have been handed on when the first bytes of a stream have come. -/
structure HandedOn (showFloat : Rat → NumLit) (msgs : List Message) (pieces : List (List UInt8))
    (n : ℕ) : Prop where
  le : n ≤ msgs.length
  blurred : List.Forall₂ Blurred ((msgs.take n).map (Message.toJson showFloat)) (handed [] pieces)
  exact : (∀ piece ∈ pieces, Whole piece) →
    handed [] pieces = (msgs.take n).map (Message.toJson showFloat)
  intact : ∀ i < n, ¬ CutsLine pieces i →
    (handed [] pieces)[i]? = msgs[i]?.map (Message.toJson showFloat)

theorem HandedOn.length {showFloat : Rat → NumLit} {msgs : List Message}
    {pieces : List (List UInt8)} {n : ℕ} (h : HandedOn showFloat msgs pieces n) :
    (handed [] pieces).length = n := by
  rw [← h.blurred.length_eq, List.length_map, List.length_take, Nat.min_eq_left h.le]

theorem exists_of_forall₂ {α β : Type} {R : α → β → Prop} {l : List α} {l' : List β}
    (h : List.Forall₂ R l l') : ∀ {k : ℕ} {b : β}, l'[k]? = some b →
      ∃ a, l[k]? = some a ∧ R a b := by
  induction h with
  | nil => simp
  | cons hR h ih =>
      intro k b hb
      cases k with
      | zero =>
          obtain rfl := Option.some.inj hb
          exact ⟨_, rfl, hR⟩
      | succ k => exact ih hb

/-- A message that has been handed on is one that was written, blurred. -/
theorem HandedOn.exists_written {showFloat : Rat → NumLit} {msgs : List Message}
    {pieces : List (List UInt8)} {n : ℕ} (h : HandedOn showFloat msgs pieces n) {i : ℕ} {msg : Json}
    (hmsg : (handed [] pieces)[i]? = some msg) :
    i < n ∧ ∃ m, msgs[i]? = some m ∧ Blurred (m.toJson showFloat) msg := by
  obtain ⟨a, ha, hblurred⟩ := exists_of_forall₂ h.blurred hmsg
  obtain ⟨m, hm, rfl⟩ := Option.map_eq_some_iff.mp ((List.getElem?_map ..).symm.trans ha)
  have hlt : i < n := h.length ▸ (List.getElem?_eq_some_iff.mp hmsg).1
  rw [List.getElem?_take_of_lt hlt] at hm
  exact ⟨hlt, m, hm, hblurred⟩

/-- However a stream is cut, what is handed on are its first messages, blurred. -/
theorem exists_handedOn {showFloat : Rat → NumLit} {msgs : List Message}
    {pieces : List (List UInt8)} {later : List UInt8}
    (hstream : pieces.flatten ++ later = writtenBytes showFloat msgs) :
    ∃ n, HandedOn showFloat msgs pieces n ∧ (later = [] → n = msgs.length) := by
  have hobj : ∀ msg ∈ msgs.map (Message.toJson showFloat), ∃ fields, msg = .obj fields := by
    intro msg hmsg
    obtain ⟨m, -, rfl⟩ := List.mem_map.mp hmsg
    exact m.toJson_obj showFloat
  have hfree := newline_not_mem_prints
  have hall : (pieces ++ [later]).flatten = writtenBytes showFloat msgs := by
    rw [List.flatten_append, List.flatten_singleton, hstream]
  obtain ⟨msgs', htext, hblurred⟩ := blurred_lines hobj (Utf8Lossy.garbled_of_chunks hall)
  have htext' := htext
  rw [List.flatMap_append, List.flatMap_singleton] at htext
  -- the lines that have come are the first of the blurred ones
  have hcome := LineBuffer.split_eq_take (hfree msgs') htext
  generalize hn : (LineBuffer.split '\n' (pieces.flatMap Utf8Lossy.chars)).1.length = n at hcome
  have hobj' := objects_of_blurred hblurred hobj
  have htake : ∀ msgs : List Json, (∀ msg ∈ msgs, ∃ fields, msg = .obj fields) →
      messagesOf ((msgs.map Json.print).take n) = msgs.take n := by
    intro msgs hmsgs
    rw [← List.map_take, messagesOf_prints fun msg hmsg => hmsgs msg (List.mem_of_mem_take hmsg)]
  have hhanded : handed [] pieces = messagesOf
      (LineBuffer.split '\n' (pieces.flatMap Utf8Lossy.chars)).1 :=
    handed_eq pieces [] List.not_mem_nil
  have hle : n ≤ msgs.length := by
    have hlength := congrArg List.length hcome
    rw [hn, List.length_take, List.length_map, ← hblurred.length_eq, List.length_map] at hlength
    omega
  refine ⟨n, ⟨hle, ?_, fun hwhole => ?_, fun i hi hcut => ?_⟩, ?_⟩
  · rw [hhanded, hcome, htake msgs' hobj', List.map_take]
    exact List.forall₂_take n hblurred
  · -- without a cut the text that has come is a beginning of the text that was written
    have hwritten : pieces.flatMap Utf8Lossy.chars ++ Utf8Lossy.chars later =
        LineBuffer.frame '\n' ((msgs.map (Message.toJson showFloat)).map Json.print) := by
      have hchars : Utf8Lossy.chars (encode (pieces.flatMap Utf8Lossy.chars) ++ later) =
          pieces.flatMap Utf8Lossy.chars ++ Utf8Lossy.chars later :=
        Utf8Lossy.chars_encode_append _ _
      rw [← hchars, encode_flatMap_chars hwhole, hstream, writtenBytes, Utf8Lossy.chars_encode,
        LineBuffer.frame]
      simp only [List.flatMap_map, lineOf]
    rw [hhanded, LineBuffer.split_eq_take (hfree _) hwritten, hn, htake _ hobj, List.map_take]
  · have hlt : i < msgs.length := Nat.lt_of_lt_of_le hi hle
    have hcut' : ¬ CutsLine (pieces ++ [later]) i := fun h => hcut (h.of_concat ⟨_, hall⟩)
    have hsame := getElem?_of_intact hobj hall htext' (by rwa [List.length_map]) hcut'
    rw [hhanded, hcome, htake msgs' hobj', List.getElem?_take_of_lt hi, hsame, List.getElem?_map]
  · rintro rfl
    have hnil : Utf8Lossy.chars [] = [] := rfl
    rw [hnil, List.append_nil] at htext
    rw [← hn, htext, LineBuffer.split_frame (hfree msgs'), List.length_map,
      ← hblurred.length_eq, List.length_map]

private theorem portOf_blurred {port : String} (hport : Json.Ascii port.toList) {data data' : Json}
    (h : Blurred data data') : portOf data' = some port ↔ portOf data = some port := by
  have hget : Option.Rel Blurred (data.get "port") (data'.get "port") := h.get (by decide)
  rw [portOf_eq_some, portOf_eq_some]
  generalize data.get "port" = v at hget
  generalize data'.get "port" = v' at hget
  cases hget with
  | none => exact Iff.rfl
  | some hv =>
      cases hv with
      | str hs => simpa using Json.eq_iff_of_garbled hs hport
      | null | bool | num | arr | obj => simp

/-- The push that a message is, for a port with a name of ASCII characters. -/
theorem pushFor_blurred {kind : BufferKind} {port : String} (hport : Json.Ascii port.toList)
    {msg msg' : Json} (h : Blurred msg msg') :
    Option.Rel Blurred (pushFor kind port msg) (pushFor kind port msg') := by
  have hnotify : Option.Rel Blurred (msg.get "notify") (msg'.get "notify") := h.get (by decide)
  have hdata : Option.Rel Blurred (msg.get "data") (msg'.get "data") := h.get (by decide)
  unfold pushFor
  generalize msg.get "notify" = notify at hnotify
  generalize msg'.get "notify" = notify' at hnotify
  generalize msg.get "data" = data at hdata
  generalize msg'.get "data" = data' at hdata
  cases hnotify with
  | none => exact .none
  | some hname =>
      cases hname with
      | str hname =>
          rename_i name name'
          have hkind : name' = kind.notify ↔ name = kind.notify :=
            Json.eq_iff_of_garbled hname (by cases kind <;> decide)
          cases hdata with
          | none => exact .none
          | some hdata =>
              have hsame := portOf_blurred hport hdata
              simp only [hkind, hsame]
              split_ifs
              · exact .some hdata
              · exact .none
      | null | bool | num | arr | obj => exact .none

/-- The message is a push of the kind that goes to the buffer of the port, or one that a cut
can turn into such a push. -/
def Concerns (kind : BufferKind) (port : String) (msg : Json) : Prop :=
  ∃ q, (pushFor kind q msg).isSome ∧ (q = port ∨ Utf8Lossy.replacement ∈ port.toList)

/-- A push that has been handed on was a push of the same kind. -/
theorem concerns_of_blurred {kind : BufferKind} {port : String} {msg msg' : Json}
    (h : Blurred msg msg') (hpush : (pushFor kind port msg').isSome) : Concerns kind port msg := by
  have hnotify : Option.Rel Blurred (msg.get "notify") (msg'.get "notify") := h.get (by decide)
  have hdata : Option.Rel Blurred (msg.get "data") (msg'.get "data") := h.get (by decide)
  obtain ⟨data', hdata'⟩ := Option.isSome_iff_exists.mp hpush
  unfold pushFor at hdata'
  split at hdata'
  · rename_i name' data'' hname' hget'
    rw [hname'] at hnotify
    rw [hget'] at hdata
    split_ifs at hdata' with hfor
    obtain ⟨rfl, hport⟩ := hfor
    generalize hname : msg.get "notify" = name at hnotify
    generalize hget : msg.get "data" = data at hdata
    cases hnotify with
    | some hname'' =>
      cases hname'' with
      | str hgarbled =>
          cases hdata with
          | some hblurred =>
              rename_i name data
              have hsame : name = kind.notify :=
                (Json.eq_iff_of_garbled hgarbled (by cases kind <;> decide)).mp rfl
              have hports : Option.Rel Blurred (data.get "port") (data''.get "port") :=
                hblurred.get (by decide)
              rw [portOf_eq_some.mp hport] at hports
              generalize hq : data.get "port" = v at hports
              cases hports with
              | some hv =>
                  cases hv with
                  | str hq' =>
                      rename_i q
                      refine ⟨q, ?_, ?_⟩
                      · simp [pushFor, hname, hget, hsame, portOf_eq_some.mpr hq]
                      · by_cases hclean : Utf8Lossy.replacement ∈ port.toList
                        · exact Or.inr hclean
                        · exact Or.inl (String.toList_injective (hq'.eq_of_clean hclean))
  · cases hdata'

/-- If no message that concerns the buffer has been cut, then the pushes for it are those that
were written. -/
theorem pushFor_of_intact {kind : BufferKind} {port : String} {msg msg' : Json}
    (h : Blurred msg msg') (hintact : Concerns kind port msg → msg' = msg) :
    pushFor kind port msg' = pushFor kind port msg := by
  by_cases hconcerns : Concerns kind port msg
  · rw [hintact hconcerns]
  · have hnone : pushFor kind port msg = none := by
      by_contra hsome
      exact hconcerns ⟨port, Option.isSome_iff_ne_none.mpr hsome, Or.inl rfl⟩
    have hnone' : pushFor kind port msg' = none := by
      by_contra hsome
      exact hconcerns (concerns_of_blurred h (Option.isSome_iff_ne_none.mpr hsome))
    rw [hnone, hnone']

end Commmon

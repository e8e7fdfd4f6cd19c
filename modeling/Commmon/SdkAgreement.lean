/-
# The three clients on one stream

The clients of the SDKs were written apart, over three JSON readers and three ways to
find the end of a line. On one stream of the daemon the Rust client and the C# client
hand on the same entries. The C++ client does so too unless a line misleads it: a
notification of another kind with the name in one of its texts, or an entry with a
control character that the client's loop does not know.
-/

import Commmon.CsharpClient
import Commmon.PushOrder
import Commmon.RustClient

set_option autoImplicit false

namespace Commmon

open RecvLoop (newline)
open RxClient (Known KnownByte bytes cStr)
open Utf8Lossy (encode)

/-- An entry as C strings. -/
def RxData.toC (d : RxData) : RxClient.RxData :=
  ⟨bytes d.port, bytes d.timestamp, bytes d.ascii, bytes d.hex⟩

/-- The C++ client knows all characters of the entry. -/
def RxData.Known (d : RxData) : Prop :=
  ∀ s ∈ [d.port, d.timestamp, d.ascii, d.hex], ∀ c ∈ s.toList, RxClient.Known c

/-- Nothing in the message misleads the C++ client. -/
def Message.Unambiguous (m : Message) : Prop :=
  ¬ m.LooksLikeEntry ∧ ∀ d ∈ m.rxEntry, d.Known

/-- A callback is given a text as it is exactly when all its characters are known. -/
theorem cStr_seen_iff {seen : List UInt8} {value : String}
    (hseen : (∀ b ∈ seen, KnownByte b) ∧ ((∀ c ∈ value.toList, Known c) → seen = bytes value)) :
    cStr seen = bytes value ↔ ∀ c ∈ value.toList, Known c := by
  rw [cStr_of_known hseen.1]
  refine ⟨fun heq => RxClient.known_of_bytes ?_, hseen.2⟩
  have hbytes := hseen.1
  rwa [heq] at hbytes

section

variable (showFloat : Rat → NumLit)

/-- The C++ client calls back for every entry. -/
theorem isSome_parseNotification_rxData (port : String) (a : Arrival) :
    (RxClient.parseNotification ((Push.rxData port a).lineBytes showFloat)).isSome = true := by
  refine (RxClient.parseNotification_isSome_iff _).mpr
    ((mentions_notification_iff showFloat (ofTexts_push _)).mpr (Or.inl ?_))
  simp [Push.notification, Json.Shows]

/-- An entry reaches the C++ callback as it is exactly when all its characters are
known. -/
theorem parseNotification_rxData_iff (port : String) (a : Arrival) :
    RxClient.parseNotification ((Push.rxData port a).lineBytes showFloat) =
      some (a.rxData port).toC ↔ (a.rxData port).Known := by
  have hline : (Push.rxData port a).lineBytes showFloat = encode (Json.obj [("notify",
      .str "rx_data"), ("data", .obj ((rxDataFields port a).insertionSort
        fun f g => f.1 ≤ g.1))]).print := rfl
  have hperm := List.perm_insertionSort (fun f g : String × Json => f.1 ≤ g.1)
    (rxDataFields port a)
  have hfield : ∀ key value, (key, Json.str value) ∈ rxDataFields port a →
      (cStr (RxClient.extractJsonString ((Push.rxData port a).lineBytes showFloat) key) =
        bytes value ↔ ∀ c ∈ value.toList, Known c) := by
    intro key value hmem
    exact cStr_seen_iff (hline ▸ extractJsonString_field_seen hperm hmem)
  have hport := hfield "port" port (by simp [rxDataFields])
  have htimestamp := hfield "timestamp" a.entry.timestamp (by simp [rxDataFields])
  have hascii := hfield "ascii" (Utf8Lossy.decode a.entry.data) (by simp [rxDataFields])
  have hhex := hfield "hex" (hexEncode a.entry.data) (by simp [rxDataFields])
  have hcalls := isSome_parseNotification_rxData showFloat port a
  have hparsed : RxClient.parseNotification ((Push.rxData port a).lineBytes showFloat) = some
      ⟨cStr (RxClient.extractJsonString ((Push.rxData port a).lineBytes showFloat) "port"),
        cStr (RxClient.extractJsonString ((Push.rxData port a).lineBytes showFloat) "timestamp"),
        cStr (RxClient.extractJsonString ((Push.rxData port a).lineBytes showFloat) "ascii"),
        cStr (RxClient.extractJsonString ((Push.rxData port a).lineBytes showFloat) "hex")⟩ := by
    unfold RxClient.parseNotification at hcalls ⊢
    split_ifs at hcalls ⊢
    · simp at hcalls
    · simp at hcalls
    · rfl
  rw [hparsed, Option.some.injEq, RxData.toC, RxClient.RxData.mk.injEq]
  simp only [Arrival.rxData, hport, htimestamp, hascii, hhex, RxData.Known,
    List.forall_mem_cons, List.not_mem_nil, false_implies, implies_true, and_true]

/-- One message. The C++ client makes of it what the others make of it exactly when
nothing in it is misleading. -/
theorem parseNotification_message_iff {m : Message} (hm : ReachesSubscriber m) :
    RxClient.parseNotification (m.lineBytes showFloat) = m.rxEntry.map RxData.toC ↔
      m.Unambiguous := by
  have hother : m.rxEntry = none → ¬ m.IsEntry showFloat →
      (RxClient.parseNotification (m.lineBytes showFloat) = m.rxEntry.map RxData.toC ↔
        m.Unambiguous) := by
    intro hentry hnot
    have hcalls := callsBack_iff_isEntry_iff showFloat hm
    rw [iff_false_right hnot, Message.CallsBack, Bool.not_eq_true, Option.isSome_eq_false_iff,
      Option.isNone_iff_eq_none] at hcalls
    rw [hentry, Option.map_none, hcalls]
    simp [Message.Unambiguous, hentry]
  cases hm with
  | answered hrun hclient hmem hcmd =>
      refine hother rfl ?_
      rw [Message.IsEntry, Message.toJson, Response.get_notify]
      simp
  | refused e =>
      refine hother rfl ?_
      rw [Message.IsEntry, Message.toJson, Response.get_notify]
      simp
  | @pushed es w c cl p hrun hclient hmem =>
      cases p with
      | rxData port a =>
          have hentry : (Message.notification (Push.rxData port a).notification).rxEntry =
              some (a.rxData port) := Push.rxEntry_rxData port a
          rw [hentry, Message.Unambiguous, hentry]
          refine (parseNotification_rxData_iff showFloat port a).trans ?_
          simp [Message.LooksLikeEntry, Push.notification]
      | filterHit port hit =>
          have hname : (Push.filterHit port hit).notification.notify ≠ "rx_data" := by
            simp [Push.notification]
          refine hother (Notification.rxEntry_of_ne hname) ?_
          rw [Message.IsEntry, Message.toJson, Notification.get_notify]
          simpa using hname
  | @stopped es w x hrun hx =>
      have hname : x.notification.notify ≠ "rx_data" := by
        rw [(LogWorld.isStop_of_run hrun x hx).notify]
        decide
      refine hother (Notification.rxEntry_of_ne hname) ?_
      rw [Message.IsEntry, Message.toJson, Notification.get_notify]
      simpa using hname

theorem ReachesSubscriber.ordinary {m : Message} (hm : ReachesSubscriber m) : m.Ordinary := by
  cases hm with
  | answered hrun hclient hmem hcmd => trivial
  | refused e => trivial
  | @pushed es w c cl p hrun hclient hmem => exact Outgoing.ordinary_message (.push p)
  | @stopped es w x hrun hx =>
      intro hname
      rw [(LogWorld.isStop_of_run hrun x hx).notify] at hname
      exact absurd hname (by decide)

/-- What the others hand on, the C++ client hands on in some form. -/
theorem isSome_parseNotification {m : Message} (hm : m.Ordinary)
    (hentry : m.rxEntry.isSome = true) :
    (RxClient.parseNotification (m.lineBytes showFloat)).isSome = true := by
  cases m with
  | response resp => simp [Message.rxEntry] at hentry
  | notification n =>
      have hname : n.notify = "rx_data" := by
        by_contra hname
        simp [Message.rxEntry, Notification.rxEntry_of_ne hname] at hentry
      obtain ⟨port, a, rfl⟩ := hm hname
      exact isSome_parseNotification_rxData showFloat port a

end

/-- Where one function is defined whenever another is, the lists of their values are
the same only if they are the same at each element. -/
theorem filterMap_eq_filterMap_iff {α β : Type} {f g : α → Option β} {l : List α}
    (h : ∀ a ∈ l, (g a).isSome = true → (f a).isSome = true) :
    l.filterMap f = l.filterMap g ↔ ∀ a ∈ l, f a = g a := by
  have hlength : ∀ l : List α, (∀ a ∈ l, (g a).isSome = true → (f a).isSome = true) →
      (l.filterMap g).length ≤ (l.filterMap f).length := by
    intro l
    induction l with
    | nil => simp
    | cons a l ih =>
        intro h
        obtain ⟨ha, hl⟩ := List.forall_mem_cons.mp h
        have hle := ih hl
        cases hg : g a with
        | none => cases hf : f a <;> simp [hf, hg] <;> omega
        | some y =>
            obtain ⟨x, hf⟩ := Option.isSome_iff_exists.mp (ha (by rw [hg]; rfl))
            simpa [hf, hg] using hle
  induction l with
  | nil => simp
  | cons a l ih =>
      obtain ⟨ha, hl⟩ := List.forall_mem_cons.mp h
      have hle := hlength l hl
      have hrest := ih hl
      refine Iff.trans ?_ (List.forall_mem_cons.trans (and_congr_right' hrest.symm)).symm
      cases hg : g a with
      | none =>
          cases hf : f a with
          | none => simp [hf, hg]
          | some x =>
              simp only [List.filterMap_cons, hf, hg, reduceCtorEq, false_and, iff_false]
              intro heq
              have := congrArg List.length heq
              simp only [List.length_cons] at this
              omega
      | some y =>
          obtain ⟨x, hf⟩ := Option.isSome_iff_exists.mp (ha (by rw [hg]; rfl))
          simp [hf, hg]

section

variable (windows : Bool) (showFloat : Rat → NumLit) (readFloat : NumLit → Rat)

/-- The three clients on one stream, each with its own cuts. The Rust client and
the C# client hand on the same entries. The C++ client does exactly if no message is
misleading. -/
theorem clients_agree {msgs : List Message} (hmsgs : ∀ m ∈ msgs, ReachesSubscriber m)
    {rustPieces csharpPieces : List (List UInt8)} {cppPieces : List Piece}
    (hrust : rustPieces.flatten = writtenBytes showFloat msgs)
    (hcsharp : csharpPieces.flatten = writtenBytes showFloat msgs)
    (hcpp : cppPieces.flatMap Piece.bytes = writtenBytes showFloat msgs) :
    (csharpPieces.foldl (csharpSdk windows showFloat readFloat).feed
        (csharpSdk windows showFloat readFloat).start).1.invoked =
      (rustPieces.foldl (rustSdk showFloat readFloat).feed
        (rustSdk showFloat readFloat).start).1.tx.sent.map CsharpClient.RxData.of ∧
    ((RecvLoop.received cppPieces).parsed.filterMap RxClient.parseNotification =
        (rustPieces.foldl (rustSdk showFloat readFloat).feed
          (rustSdk showFloat readFloat).start).1.tx.sent.map RxData.toC ↔
      ∀ m ∈ msgs, m.Unambiguous) := by
  have hordinary : ∀ m ∈ msgs, m.Ordinary := fun m hm => (hmsgs m hm).ordinary
  have hheard : ∀ {pieces : List (List UInt8)}, pieces.flatten = writtenBytes showFloat msgs →
      heard msgs pieces.flatten = msgs := by
    intro pieces hpieces
    have hfree : ∀ line ∈ msgs.map (Message.lineBytes showFloat), newline ∉ line := by
      intro line hline
      obtain ⟨m, -, rfl⟩ := List.mem_map.mp hline
      exact newline_not_mem_lineBytes showFloat m
    rw [heard, hpieces, writtenBytes_eq_frame, LineBuffer.split_frame hfree, List.length_map,
      List.take_length]
  have hsent := (rustSdk showFloat readFloat).hears msgs rustPieces [] hordinary
    ((List.append_nil _).trans hrust)
  have hinvoked := (csharpSdk windows showFloat readFloat).hears msgs csharpPieces [] hordinary
    ((List.append_nil _).trans hcsharp)
  rw [hheard hrust] at hsent
  rw [hheard hcsharp] at hinvoked
  have hsent' : (rustPieces.foldl (rustSdk showFloat readFloat).feed
      (rustSdk showFloat readFloat).start).1.tx.sent = msgs.filterMap Message.rxEntry :=
    hsent.trans (List.map_id _)
  refine ⟨hinvoked.trans (congrArg _ hsent'.symm), ?_⟩
  rw [hsent', parsed_eq_messages showFloat hcpp, List.filterMap_map, List.map_filterMap,
    filterMap_eq_filterMap_iff]
  · exact forall₂_congr fun m hm => parseNotification_message_iff showFloat (hmsgs m hm)
  · intro m hm hentry
    rw [Option.isSome_map] at hentry
    exact isSome_parseNotification showFloat (hordinary m hm) hentry

end

def escapeArrival : Arrival := ⟨0, 0, ⟨"12:00:00", [0x1B]⟩⟩

def escapeMessage : Message := .notification (Push.rxData "P" escapeArrival).notification

def escapeBytes : List UInt8 := writtenBytes (fun _ => .ofNat 0) [escapeMessage]

def escapePiece : Piece := ⟨escapeBytes, by decide +kernel, by decide +kernel⟩

private theorem escape_pushed : (daemon.run (subscribedOnce ++
    [.deliver 0 escapeArrival.entry, stream 0 [], stream 0 []])).any (fun w =>
      (w.clients 0).any fun cl => cl.written.any fun
        | .push (.rxData port a) => port = "P" && decide (a = escapeArrival)
        | _ => false) = true := by
  decide +kernel

private theorem escape_reaches : ReachesSubscriber escapeMessage := by
  have hpushed := escape_pushed
  simp only [Option.any_eq_true, List.any_eq_true] at hpushed
  obtain ⟨w, hrun, cl, hclient, o, hmem, hentry⟩ := hpushed
  split at hentry
  · simp only [Bool.and_eq_true, decide_eq_true_eq] at hentry
    obtain ⟨rfl, rfl⟩ := hentry
    exact .pushed hrun hclient hmem
  · simp at hentry

/-- The theorem for an entry that the C++ client garbles. -/
theorem clients_agree_escape :
    ([escapeBytes].foldl (csharpSdk true (fun _ => .ofNat 0) fun _ => 0).feed
        (csharpSdk true (fun _ => .ofNat 0) fun _ => 0).start).1.invoked =
      ([escapeBytes.take 30, escapeBytes.drop 30].foldl
        (rustSdk (fun _ => .ofNat 0) fun _ => 0).feed
        (rustSdk (fun _ => .ofNat 0) fun _ => 0).start).1.tx.sent.map CsharpClient.RxData.of ∧
    ¬ (RecvLoop.received [escapePiece]).parsed.filterMap RxClient.parseNotification =
      ([escapeBytes.take 30, escapeBytes.drop 30].foldl
        (rustSdk (fun _ => .ofNat 0) fun _ => 0).feed
        (rustSdk (fun _ => .ofNat 0) fun _ => 0).start).1.tx.sent.map RxData.toC := by
  have hreaches : ∀ m ∈ [escapeMessage], ReachesSubscriber m :=
    List.forall_mem_singleton.mpr escape_reaches
  have hcut : [escapeBytes.take 30, escapeBytes.drop 30].flatten =
      writtenBytes (fun _ => .ofNat 0) [escapeMessage] := by
    simp [escapeBytes]
  have hwhole : [escapeBytes].flatten = writtenBytes (fun _ => .ofNat 0) [escapeMessage] := by
    simp [escapeBytes]
  have hpiece : [escapePiece].flatMap Piece.bytes =
      writtenBytes (fun _ => .ofNat 0) [escapeMessage] := by
    simp [escapePiece, escapeBytes]
  have hagree := clients_agree true (fun _ => .ofNat 0) (fun _ => 0) hreaches hcut hwhole hpiece
  refine ⟨hagree.1, fun hsame => ?_⟩
  have hunambiguous := hagree.2.mp hsame escapeMessage List.mem_cons_self
  have hknown := hunambiguous.2 (escapeArrival.rxData "P")
    (Push.rxEntry_rxData "P" escapeArrival)
  have hchar : '\x1b' ∈ (escapeArrival.rxData "P").ascii.toList := by decide +kernel
  exact absurd (hknown _ (by simp) _ hchar) (by decide)

end Commmon

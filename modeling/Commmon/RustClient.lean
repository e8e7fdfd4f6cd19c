/-
# The Rust client

A task of the client takes the daemon's lines, and sends what is an entry to the
subscribers of a broadcast channel. It has the daemon's own JSON library: a
notification is a line that the derived deserializer accepts, and an entry one
whose `data` is made of four strings. Everything else is passed over, but a line
that is not UTF-8 ends the task.
-/

import Commmon.Sdk

set_option autoImplicit false

namespace Commmon

open Broadcast
open RecvLoop (newline)
open Utf8Lossy (encode)

/-- A notification as it is parsed. -/
structure ParsedNotification where
  notify : String
  data : Json

/-- The derived deserializer of `Notification`. An object has its fields in any
order and neither of them twice, an array has them in their order. -/
def notificationOf : Json → Option ParsedNotification
  | .obj fields =>
      match fields.filter (·.1 = "notify"), fields.filter (·.1 = "data") with
      | [(_, .str notify)], [(_, data)] => some ⟨notify, data⟩
      | _, _ => none
  | .arr [.str notify, data] => some ⟨notify, data⟩
  | _ => none

/-- The derived deserializer of `RxData`. The data is a `Value` already, where of
the fields with one key the last counts. -/
def rxDataOf : Json → Option RxData
  | .arr [.str port, .str timestamp, .str ascii, .str hex] => some ⟨port, timestamp, ascii, hex⟩
  | .obj fields =>
      match (Json.obj fields).get "port", (Json.obj fields).get "timestamp",
          (Json.obj fields).get "ascii", (Json.obj fields).get "hex" with
      | some (.str port), some (.str timestamp), some (.str ascii), some (.str hex) =>
          some ⟨port, timestamp, ascii, hex⟩
      | _, _, _, _ => none
  | _ => none

/-- Whether the receiving task runs, and where it sends the entries. -/
structure RustClient where
  running : Bool
  tx : Channel RxData

namespace RustClient

def connect : RustClient := ⟨true, .new 256⟩

/-- `on_data`: the position from which the receiver reads. -/
def onData (c : RustClient) : ℕ := c.tx.subscribe

/-- The entry in a line, if there is one. -/
def entryOf (text : List Char) : Option RxData :=
  let line := trim isWhitespace text
  if line = [] then none
  else
    match (Json.parse line).bind notificationOf with
    | some notif => if notif.notify = "rx_data" then rxDataOf notif.data else none
    | none => none

/-- One round of the task's loop. -/
def onLine (c : RustClient) (line : List UInt8) : RustClient :=
  if c.running then
    match textOf line with
    | none => { c with running := false }
    | some text =>
        match entryOf (stripReturn text) with
        | some data => { c with tx := c.tx.send data }
        | none => c
  else c

/-- The line that `subscribe` and `unsubscribe` write, without its terminator. -/
def requestLine : RxCall → List UInt8
  | .subscribe comPort =>
      encode (requestText "subscribe_rx" (.obj [("port", .str comPort)]))
  | .unsubscribe comPort =>
      encode (requestText "unsubscribe_rx" (.obj [("port", .str comPort)]))

section

variable (showFloat : Rat → NumLit) (readFloat : NumLit → Rat)

/-- A response has no field `notify`. -/
theorem notificationOf_response (resp : Response) :
    notificationOf (resp.toJson showFloat) = none := by
  rcases resp with ⟨ok, _ | data, _ | e⟩ <;> simp [Response.toJson, notificationOf]

private theorem notificationOf_notification (n : Notification) :
    notificationOf (n.toJson showFloat) = some ⟨n.notify, n.data.toJson showFloat⟩ := by
  simp [Notification.toJson, notificationOf]

/-- One message. -/
theorem entryOf_message {m : Message} (hm : m.Ordinary) :
    entryOf (m.toJson showFloat).print = m.rxEntry := by
  obtain ⟨htrim, hne⟩ := m.trim_print showFloat
  simp only [entryOf, htrim, hne, if_false, Json.parse_print, Option.bind_some]
  cases m with
  | response resp =>
      rw [Message.toJson, notificationOf_response]
      rfl
  | notification n =>
      rw [Message.toJson, notificationOf_notification]
      by_cases hname : n.notify = "rx_data"
      · obtain ⟨port, a, rfl⟩ := hm hname
        have hdata := Push.rxData_toJson showFloat port a
        simp only [Notification.toJson, Json.obj.injEq, List.cons.injEq, Prod.mk.injEq] at hdata
        simp only [hname, if_true, hdata, Message.rxEntry, Push.rxEntry_rxData]
        simp [rxDataOf, Json.get, List.lookup_cons, Arrival.rxData]
      · simp [hname, Message.rxEntry, Notification.rxEntry]

/-- One line of a running client. -/
theorem onLine_message {c : RustClient} (hrunning : c.running = true) {m : Message}
    (hm : m.Ordinary) :
    c.onLine (m.lineBytes showFloat) =
      { c with tx := { c.tx with sent := c.tx.sent ++ m.rxEntry.toList } } := by
  have htext : textOf (m.lineBytes showFloat) = some (m.toJson showFloat).print :=
    textOf_eq_some.mpr rfl
  rw [onLine, if_pos hrunning, htext]
  simp only [Message.stripReturn_print, entryOf_message showFloat hm]
  cases m.rxEntry with
  | none => simp
  | some data => rfl

theorem onLines_messages {msgs : List Message} (hmsgs : ∀ m ∈ msgs, m.Ordinary) :
    ∀ {c : RustClient}, c.running = true →
      (msgs.map (Message.lineBytes showFloat)).foldl onLine c =
        { c with tx := { c.tx with sent := c.tx.sent ++ msgs.filterMap Message.rxEntry } } := by
  induction msgs with
  | nil => simp
  | cons m msgs ih =>
      obtain ⟨hm, hmsgs⟩ := List.forall_mem_cons.mp hmsgs
      intro c hrunning
      rw [List.map_cons, List.foldl_cons, onLine_message showFloat hrunning hm,
        ih hmsgs (by exact hrunning)]
      cases hentry : m.rxEntry <;> simp [hentry]

/-- Pieces of the stream. The client has the entries of the messages whose line is
complete, and its task is running. -/
theorem feed_pieces {msgs : List Message} (hmsgs : ∀ m ∈ msgs, m.Ordinary)
    {pieces : List (List UInt8)} {later : List UInt8}
    (hstream : pieces.flatten ++ later = writtenBytes showFloat msgs) :
    (pieces.foldl (LineBuffer.feed onLine newline) (connect, [])).1 =
      ⟨true, { (Channel.new 256 : Channel RxData) with
        sent := (heard msgs pieces.flatten).filterMap Message.rxEntry }⟩ := by
  have hfree : ∀ line ∈ msgs.map (Message.lineBytes showFloat), newline ∉ line := by
    intro line hline
    obtain ⟨m, -, rfl⟩ := List.mem_map.mp hline
    exact newline_not_mem_lineBytes showFloat m
  rw [writtenBytes_eq_frame] at hstream
  have hlines := LineBuffer.split_eq_take hfree hstream
  rw [← List.map_take] at hlines
  have hheard : ∀ m ∈ heard msgs pieces.flatten, m.Ordinary :=
    fun m hm => hmsgs m (List.mem_of_mem_take hm)
  rw [LineBuffer.foldl_feed onLine pieces List.not_mem_nil, List.nil_append]
  dsimp only
  rw [hlines]
  exact onLines_messages showFloat hheard rfl

/-- The daemon reads a call as it was made. -/
theorem daemonRequest_requestLine (call : RxCall) :
    daemonRequest readFloat (requestLine call) = some call.request := by
  have hread : ∀ cmd comPort : String, daemonRequest readFloat
      (encode (requestText cmd (.obj [("port", .str comPort)]))) =
        some (portRequest cmd comPort) := by
    intro cmd comPort
    rw [daemonRequest, requestOfLine_requestText]
    rfl
  cases call with
  | subscribe comPort => exact hread _ _
  | unsubscribe comPort => exact hread _ _

end

end RustClient

/-- The Rust client as a client of an SDK. -/
def rustSdk (showFloat : Rat → NumLit) (readFloat : NumLit → Rat) : Sdk showFloat readFloat where
  State := RustClient × List UInt8
  Data := RxData
  start := (RustClient.connect, [])
  feed := LineBuffer.feed RustClient.onLine newline
  Call := RxCall
  request call := some call.request
  delivered s := s.1.tx.sent
  ofEntry := id
  line := RustClient.requestLine
  one_line call := by
    cases call <;> exact newline_not_mem_encode_print _
  asks call := readLine_of_daemonRequest (RustClient.daemonRequest_requestLine readFloat call)
  hears msgs pieces later hmsgs hstream := by
    rw [RustClient.feed_pieces showFloat hmsgs hstream, List.map_id]

section

variable (showFloat : Rat → NumLit) (readFloat : NumLit → Rat) (c : ClientId)

/-- The Rust client hands on what is pushed, whatever else the daemon writes and
however its stream is cut: a beginning of it at all times, and all of it once
nothing is on its way. The receiving task does not stop. -/
theorem rust_delivers_pushes {es : List (AttachmentEvent RxCall)}
    {w : Attachment (rustSdk showFloat readFloat).toPeer}
    (hrun : ((rustSdk showFloat readFloat).attached c).run es = some w) :
    w.client.1.running = true ∧ w.client.1.tx.sent <+: w.world.entriesTo c ∧
      (w.outbound = [] → w.client.1.tx.sent = w.world.entriesTo c) := by
  have hwired := Attachment.wired_of_run hrun
  obtain ⟨hbegin, hall⟩ := hwired.delivered
  obtain ⟨pieces, hclient, hbytes⟩ := hwired.arrived
  have hfed := RustClient.feed_pieces showFloat hwired.ordinary hbytes
  have hrunning : w.client.1.running = true := by
    rw [hclient]
    exact congrArg RustClient.running hfed
  have hsame : (w.world.entriesTo c).map (rustSdk showFloat readFloat).ofEntry =
      w.world.entriesTo c := List.map_id _
  exact ⟨hrunning, hsame ▸ hbegin, fun hnone => (hall hnone).trans hsame⟩

/-- The daemon is asked for what the Rust client calls for, in that order, for
every port name, and refuses none of its lines. -/
theorem rust_calls_served {es : List (AttachmentEvent RxCall)}
    {w : Attachment (rustSdk showFloat readFloat).toPeer}
    (hrun : ((rustSdk showFloat readFloat).attached c).run es = some w) :
    w.served <+: w.calls.map (fun k => some k.request) ∧
      (w.inbound = [] → w.served = w.calls.map fun k => some k.request) :=
  (Attachment.wired_of_run hrun).asked

end

/-- The client calls for a port, the daemon answers, an entry arrives and is pushed,
and the client gets it in two pieces with a stop notification in between. -/
def subscribedRun : List (AttachmentEvent RxCall) :=
  [.daemon (.connect 0), .daemon (.connect 1)] ++
    (issue 1 (portRequest "open_port" "\\\\.\\COM10") 2).map .daemon ++
    [.call (.subscribe "\\\\.\\COM10"), .serve ⟨.ok (), .successMsg ""⟩ ""] ++
    List.replicate 3 (.daemon (.client 0 .dispatch)) ++
    [.daemon (stream 0 []), .daemon (.deliver 0 ⟨"2026:01:01 12:00:00", [0xFF, 0x0A]⟩),
      .receive 20, .notify ⟨"log_stopped", .null⟩] ++
    [.daemon (stream 0 ["\\\\.\\COM10"]), .daemon (stream 0 []), .daemon (stream 0 [])]

private theorem subscribedRun_hears :
    (((rustSdk (fun _ => .ofNat 0) fun _ => 0).attached 0).run
      (subscribedRun ++ [.receive 193])).any (fun w =>
        w.outbound.isEmpty && decide (w.client.1.tx.sent =
          [⟨"\\\\.\\COM10", "2026:01:01 12:00:00", "\uFFFD\n", "ff0a"⟩])) = true := by
  decide +kernel

/-- The theorem for that subscription. -/
theorem rust_delivers_pushes_once : ∃ w, ((rustSdk (fun _ => .ofNat 0) fun _ => 0).attached 0).run
      (subscribedRun ++ [.receive 193]) = some w ∧ w.client.1.running = true ∧
    w.client.1.tx.sent = w.world.entriesTo 0 ∧ w.client.1.tx.sent.length = 1 := by
  obtain ⟨w, hrun, hhears⟩ := (Option.any_eq_true _ _).mp subscribedRun_hears
  simp only [Bool.and_eq_true, List.isEmpty_iff, decide_eq_true_eq] at hhears
  obtain ⟨hrunning, -, hall⟩ := rust_delivers_pushes (fun _ => .ofNat 0) (fun _ => 0) 0 hrun
  exact ⟨w, hrun, hrunning, hall hhears.1, by rw [hhears.2]; rfl⟩

private theorem subscribedRun_serves :
    (((rustSdk (fun _ => .ofNat 0) fun _ => 0).attached 0).run subscribedRun).any (fun w =>
      w.inbound.isEmpty && w.calls.length == 1) = true := by
  decide +kernel

theorem rust_calls_served_once : ∃ w,
    ((rustSdk (fun _ => .ofNat 0) fun _ => 0).attached 0).run subscribedRun = some w ∧
      w.calls.length = 1 ∧ w.served = w.calls.map fun k => some k.request := by
  obtain ⟨w, hrun, hserves⟩ := (Option.any_eq_true _ _).mp subscribedRun_serves
  simp only [Bool.and_eq_true, List.isEmpty_iff, beq_iff_eq] at hserves
  exact ⟨w, hrun, hserves.2,
    (rust_calls_served (fun _ => .ofNat 0) (fun _ => 0) 0 hrun).2 hserves.1⟩

end Commmon

/-
# A session at the prompt

The prompt is two tasks on one connection. One of them takes the daemon's lines, prints
the notifications and passes everything else to the other through a channel. The other
reads what is typed, writes a line for a command, and waits for the next line of the
channel, though not for longer than five seconds.

Nothing in a response says which command it answers. The answers printed are those of
the commands typed because a session that has waited in vain is over: there is never a
late answer that could pass for the next one.
-/

import Commmon.ReplOutput

set_option autoImplicit false

namespace Commmon

def Message.notification? : Message → Option Notification
  | .response _ => none
  | .notification n => some n

namespace Repl

open RecvLoop (newline)

/-! ## The prompt's end of the connection -/

/-- A command that can be typed. -/
def Command : Type := { req : Request // ∃ input, parseCommand input = some req }

/-- The request as the daemon has it. -/
def asRead (showFloat : Rat → NumLit) (readFloat : NumLit → Rat) (req : Request) : Request :=
  ⟨req.cmd, req.args.sent showFloat readFloat⟩

private theorem daemonRequest_requestLine_eq (showFloat : Rat → NumLit) (readFloat : NumLit → Rat)
    (req : Request) : daemonRequest readFloat (requestLine showFloat req) =
      some (asRead showFloat readFloat req) := by
  obtain ⟨cmd, args⟩ := req
  have hobject : ∀ v : Json, daemonRequest readFloat (Utf8Lossy.encode
      (Json.obj [("args", v), ("cmd", .str cmd)]).print) = some ⟨cmd, .ofJson readFloat v⟩ := by
    intro v
    rw [daemonRequest, requestOfLine_print]
    simp [requestOf]
  have hsort : ∀ v : Json, List.insertionSort (fun f g : String × Json => f.1 ≤ g.1)
      [("cmd", .str cmd), ("args", v)] = [("args", v), ("cmd", .str cmd)] := by
    intro v
    simp [List.insertionSort, List.orderedInsert]
  cases args with
  | null =>
      have hline : requestLine showFloat ⟨cmd, .null⟩ =
          Utf8Lossy.encode (Json.obj [("cmd", .str cmd)]).print := rfl
      rw [daemonRequest, hline, requestOfLine_print]
      simp [requestOf, Value.ofJson, asRead]
  | _ =>
      refine Eq.trans ?_ (hobject _)
      exact congrArg (fun fields => daemonRequest readFloat
        (Utf8Lossy.encode (Json.obj fields).print)) (hsort _)

/-- What arrives is kept, and nothing is made of it yet. -/
def peer (showFloat : Rat → NumLit) (readFloat : NumLit → Rat) : Peer readFloat where
  State := List UInt8
  start := []
  feed arrived piece := arrived ++ piece
  Call := Command
  line call := requestLine showFloat call.val
  request call := some (asRead showFloat readFloat call.val)
  one_line _ := newline_not_mem_encode_print _
  asks call := readLine_of_daemonRequest
    (daemonRequest_requestLine_eq showFloat readFloat call.val)

/-! ## The two tasks -/

inductive Loop
  | prompt
  | waiting
  | ended
  deriving DecidableEq

/-- What has been shown. -/
inductive Shown
  | answer (line : List Char)
  | notification (val : Value)
  | help
  | unknown (words : List String)
  | lost

namespace Shown

def answer? : Shown → Option (List Char)
  | answer line => some line
  | _ => none

def notification? : Shown → Option Value
  | notification val => some val
  | _ => none

/-- What `parse_command` says of a command that lacks words. -/
def usage : List String → List Line
  | ["open"] => [.err "사용법: open <포트> [baud] [8N1]"]
  | ["close"] => [.err "사용법: close <포트>"]
  | ["write"] | ["send"] | ["write", _] | ["send", _] =>
      [.err "사용법: write <포트> <데이터> [--hex]"]
  | ["read"] => [.err "사용법: read <포트>"]
  | ["log"] => [.err "사용법: log start|stop|update <포트> [옵션]"]
  | ["log", "start"] =>
      [.err "사용법: log start <포트> [--duration N] [--keyword K] [--file F]"]
  | ["log", "stop"] => [.err "사용법: log stop <포트>"]
  | ["log", "update"] => [.err "사용법: log update <포트> [--keyword K] [--duration N]"]
  | "log" :: _ => [.err "사용법: log start|stop|update <포트>"]
  | ["subscribe"] | ["sub"] => [.err "사용법: subscribe <포트>"]
  | ["unsubscribe"] | ["unsub"] => [.err "사용법: unsubscribe <포트>"]
  | ["monitor"] => [.err "사용법: monitor start|stop [--port N]"]
  | "monitor" :: _ => [.err "사용법: monitor start|stop"]
  | _ => []

/-- The lines it is printed as, but for the text of the help. -/
def lines (showFloat : Rat → NumLit) (readFloat : NumLit → Rat) : Shown → List Line
  | answer line => printResponse showFloat readFloat line
  | notification val => printNotification showFloat val
  | help => []
  | unknown words =>
      usage words ++ [.err "알 수 없는 명령입니다. \x27help\x27를 입력하세요."]
  | lost => [.err "서버 응답 없음 또는 연결 끊김"]

end Shown

/-- What `readline` returns: a line, or anything that ends the session. -/
inductive Input
  | line (text : String)
  | stopped

def channelCapacity : ℕ := 32

section Session

variable (showFloat : Rat → NumLit) (readFloat : NumLit → Rat) (c : ClientId)

/-- `taken` is how many lines the receiving task has read of what has arrived. -/
structure Session where
  wire : Attachment (peer showFloat readFloat)
  taken : ℕ
  receiving : Bool
  channel : List (List Char)
  loop : Loop
  shown : List Shown

/-- A step of the daemon or of the wire, or one of the two tasks'. `sent` says whether
the line could be written. -/
inductive SessionEvent
  | wire (e : AttachmentEvent Command)
  | take
  | hangUp
  | typed (input : Input) (sent : Bool)
  | answered
  | closed
  | timeout

namespace Session

variable {showFloat readFloat}

/-- The bytes that have arrived. -/
def arrived (w : Session showFloat readFloat) : List UInt8 := w.wire.client

def print (w : Session showFloat readFloat) (x : Shown) : Session showFloat readFloat :=
  { w with shown := w.shown ++ [x] }

/-- `resp_tx.send`: it waits for room, and fails without the other task. -/
def forward (w : Session showFloat readFloat) (line : List Char) :
    Option (Session showFloat readFloat) :=
  if w.loop = .ended then some { w with receiving := false }
  else if w.channel.length < channelCapacity then some { w with channel := w.channel ++ [line] }
  else none

/-- One round of the receiving task. -/
def take (w : Session showFloat readFloat) : Option (Session showFloat readFloat) :=
  match w.receiving, (LineBuffer.split newline w.arrived).1[w.taken]? with
  | true, some bytes =>
      let w := { w with taken := w.taken + 1 }
      match textOf bytes with
      | none => some { w with receiving := false }
      | some text =>
          let line := trim Commmon.isWhitespace (stripReturn text)
          if line = [] then some w
          else
            match (Json.parse line).map (Value.ofJson readFloat) with
            | none => w.forward line
            | some val =>
                if (val.get "notify").isSome then some (w.print (.notification val))
                else w.forward line
  | _, _ => none

/-- What is done with a line that has been typed. -/
def submit (w : Session showFloat readFloat) (text : String) (sent : Bool) :
    Option (Session showFloat readFloat) :=
  let line := String.ofList (trim Commmon.isWhitespace text.toList)
  if line = "" then some w
  else if line = "exit" ∨ line = "quit" then some { w with loop := .ended }
  else if line = "help" then some (w.print .help)
  else
    match h : parseCommand line with
    | none => some (w.print (.unknown (splitWhitespace line)))
    | some req =>
        if sent then
          (Attachment.step showFloat c w.wire (.call ⟨req, line, h⟩)).map fun wire =>
            { w with wire := wire, loop := .waiting }
        else some { w.print .lost with loop := .ended }

def step (w : Session showFloat readFloat) :
    SessionEvent → Option (Session showFloat readFloat)
  | .wire (.call _) => none
  | .wire e => (Attachment.step showFloat c w.wire e).map fun wire => { w with wire := wire }
  | .take => w.take
  | .hangUp => some { w with receiving := false }
  | .typed input sent =>
      match w.loop, input with
      | .prompt, .line text => w.submit c text sent
      | .prompt, .stopped => some { w with loop := .ended }
      | _, _ => none
  | .answered =>
      match w.loop, w.channel with
      | .waiting, line :: rest =>
          some { w.print (.answer line) with channel := rest, loop := .prompt }
      | _, _ => none
  | .closed =>
      match w.loop, w.channel, w.receiving with
      | .waiting, [], false => some { w.print .lost with loop := .ended }
      | _, _, _ => none
  | .timeout =>
      match w.loop, w.channel with
      | .waiting, [] => some { w.print .lost with loop := .ended }
      | _, _ => none

/-- The answers that have been printed. -/
def answers (w : Session showFloat readFloat) : List (List Char) :=
  w.shown.filterMap Shown.answer?

/-- The notifications that have been printed. -/
def notices (w : Session showFloat readFloat) : List Value :=
  w.shown.filterMap Shown.notification?

end Session

/-- All runs of the daemon with a prompt on one of its connections. -/
def session : StepSystem (Session showFloat readFloat) SessionEvent where
  init := ⟨(attachment showFloat (peer showFloat readFloat) c).init, 0, true, [], .prompt, []⟩
  step := Session.step c

end Session

/-! ## One message -/

namespace Session

variable {showFloat : Rat → NumLit} {readFloat : NumLit → Rat} {c : ClientId}
  {w w' : Session showFloat readFloat}

private theorem get_notify_message (showFloat : Rat → NumLit) (readFloat : NumLit → Rat)
    (m : Message) : ((Value.ofJson readFloat (m.toJson showFloat)).get "notify").isSome =
      m.notification?.isSome := by
  cases m with
  | response resp =>
      rcases resp with ⟨ok, _ | data, _ | e⟩ <;>
        simp [Message.toJson, Response.toJson, Value.ofJson, fieldsOfJson, Value.get,
          List.lookup_cons, Message.notification?]
  | notification n => rfl

/-- What becomes of a message. -/
def hear (w : Session showFloat readFloat) : Message → Option (Session showFloat readFloat)
  | .response resp => { w with taken := w.taken + 1 }.forward (resp.toJson showFloat).print
  | .notification n => some ({ w with taken := w.taken + 1 }.print
      (.notification (readNotification showFloat readFloat n)))

private theorem take_message {m : Message} (hreceiving : w.receiving = true)
    (hline : (LineBuffer.split newline w.arrived).1[w.taken]? =
      some (m.lineBytes showFloat)) : w.take = w.hear m := by
  have htext : textOf (m.lineBytes showFloat) = some (m.toJson showFloat).print :=
    textOf_eq_some.mpr rfl
  obtain ⟨htrim, hne⟩ := m.trim_print showFloat
  have hnotify := get_notify_message showFloat readFloat m
  rw [take, hreceiving, hline]
  simp only [htext, Message.stripReturn_print, htrim, hne, if_false, Json.parse_print,
    Option.map_some, hnotify]
  cases m with
  | response resp => simp [Message.notification?, Session.hear, Message.toJson, hreceiving]
  | notification n =>
      simp [Message.notification?, Session.hear, Message.toJson, ofJson_notification, hreceiving]

/-! ## The invariant -/

/-- How many commands have been answered. -/
def Counts (w : Session showFloat readFloat) : Prop :=
  match w.loop with
  | .prompt => w.wire.calls.length = w.answers.length
  | .waiting => w.wire.calls.length = w.answers.length + 1
  | .ended => w.answers.length ≤ w.wire.calls.length ∧
      w.wire.calls.length ≤ w.answers.length + 1

/-- The messages that the receiving task has read have been printed, or passed on. -/
structure Kept (c : ClientId) (w : Session showFloat readFloat) : Prop where
  wired : w.wire.Wired showFloat c
  taken_le : w.taken ≤ (LineBuffer.split newline w.arrived).1.length
  notices : w.notices = ((w.wire.written.take w.taken).filterMap Message.notification?).map
    (readNotification showFloat readFloat)
  answers : ∃ late, (responses (w.wire.written.take w.taken)).map
      (fun resp => (resp.toJson showFloat).print) = w.answers ++ w.channel ++ late ∧
    (w.loop ≠ .ended → late = [])
  counts : w.Counts

private theorem foldl_pieces (pieces : List (List UInt8)) : ∀ arrived : List UInt8,
    pieces.foldl (fun arrived piece => arrived ++ piece) arrived = arrived ++ pieces.flatten := by
  induction pieces with
  | nil => simp
  | cons piece pieces ih =>
      intro arrived
      rw [List.foldl_cons, ih, List.flatten_cons, List.append_assoc]

private theorem stream_of_wired (h : w.wire.Wired showFloat c) :
    w.arrived ++ w.wire.outbound = writtenBytes showFloat w.wire.written := by
  obtain ⟨pieces, hclient, hbytes⟩ := h.arrived
  have hall : w.arrived = pieces.flatten := hclient.trans (foldl_pieces pieces [])
  rw [hall, hbytes]

/-- The next line is that of the next message. -/
theorem Kept.next (h : w.Kept c) {bytes : List UInt8}
    (hline : (LineBuffer.split newline w.arrived).1[w.taken]? = some bytes) :
    ∃ m, w.wire.written[w.taken]? = some m ∧ bytes = m.lineBytes showFloat := by
  have hlt := (List.getElem?_eq_some_iff.mp hline).1
  rw [arrived_lines showFloat (stream_of_wired h.wired), List.getElem?_take_of_lt hlt,
    List.getElem?_map, Option.map_eq_some_iff] at hline
  obtain ⟨m, hm, rfl⟩ := hline
  exact ⟨m, hm, rfl⟩

private theorem Kept.taken_le_written (h : w.Kept c) : w.taken ≤ w.wire.written.length := by
  have hlines := congrArg List.length (arrived_lines showFloat (stream_of_wired h.wired))
  have hle := h.taken_le
  rw [List.length_take, List.length_map] at hlines
  omega

/-- At most one line waits in the channel. -/
theorem Kept.length_channel_le (h : w.Kept c) : w.channel.length ≤ 1 := by
  obtain ⟨late, hanswers, -⟩ := h.answers
  have hlength := congrArg List.length hanswers
  have hsub : (responses (w.wire.written.take w.taken)).length ≤
      (responses w.wire.written).length :=
    ((List.take_sublist _ _).filterMap _).length_le
  have hexchanges := (h.wired.exchanges_prefix fun _ => rfl).length_le
  rw [h.wired.written_responses fun _ => rfl] at hsub
  have hcounts := h.counts
  unfold Counts at hcounts
  simp only [List.length_map, List.length_append] at hlength hsub hexchanges
  split at hcounts <;> omega

/-! ## One step -/

/-- Printing anything but an answer. -/
theorem Counts.print (h : w.Counts) {x : Shown} (hx : x.answer? = none) : (w.print x).Counts := by
  have hsame : (w.print x).answers = w.answers := by
    simp [answers, Session.print, hx]
  unfold Counts at h ⊢
  rw [hsame]
  exact h

@[simp]
theorem answers_print (w : Session showFloat readFloat) (x : Shown) :
    (w.print x).answers = w.answers ++ x.answer?.toList := by
  cases x <;> simp [answers, print, Shown.answer?]

@[simp]
theorem notices_print (w : Session showFloat readFloat) (x : Shown) :
    (w.print x).notices = w.notices ++ x.notification?.toList := by
  cases x <;> simp [notices, print, Shown.notification?]

private theorem responses_take_succ {msgs : List Message} {n : ℕ} {m : Message}
    (h : msgs[n]? = some m) :
    responses (msgs.take (n + 1)) = responses (msgs.take n) ++ m.response?.toList := by
  rw [List.take_add_one, h, responses, List.filterMap_append, ← responses]
  cases m <;> rfl

/-- The receiving task reads a message. -/
theorem Kept.hear (h : w.Kept c) {m : Message} (hm : w.wire.written[w.taken]? = some m)
    (hlt : w.taken < (LineBuffer.split newline w.arrived).1.length)
    (hstep : w.hear m = some w') : w'.Kept c := by
  obtain ⟨late, hanswers, hlate⟩ := h.answers
  have hresponses := responses_take_succ hm
  have hnotices : (w.wire.written.take (w.taken + 1)).filterMap Message.notification? =
      (w.wire.written.take w.taken).filterMap Message.notification? ++
        m.notification?.toList := by
    rw [List.take_add_one, hm, List.filterMap_append]
    cases m <;> rfl
  cases m with
  | notification n =>
      obtain rfl := Option.some.inj hstep
      refine ⟨h.wired, hlt, ?_, ⟨late, ?_, hlate⟩, h.counts.print rfl⟩
      · rw [notices_print]
        change w.notices ++ _ = ((w.wire.written.take (w.taken + 1)).filterMap _).map _
        rw [hnotices, h.notices, List.map_append]
        rfl
      · rw [answers_print]
        change (responses (w.wire.written.take (w.taken + 1))).map _ =
          w.answers ++ [] ++ w.channel ++ late
        rw [hresponses, List.append_nil, ← hanswers]
        simp [Message.response?]
  | response resp =>
      have hkeeps : w.notices = ((w.wire.written.take (w.taken + 1)).filterMap
          Message.notification?).map (readNotification showFloat readFloat) := by
        rw [hnotices, h.notices]
        simp [Message.notification?]
      have hmore : (responses (w.wire.written.take (w.taken + 1))).map
          (fun resp => (resp.toJson showFloat).print) =
            w.answers ++ w.channel ++ late ++ [(resp.toJson showFloat).print] := by
        rw [hresponses, List.map_append, hanswers]
        rfl
      simp only [Session.hear, forward] at hstep
      split_ifs at hstep with hended hroom
      · obtain rfl := Option.some.inj hstep
        refine ⟨h.wired, hlt, hkeeps, ⟨late ++ [(resp.toJson showFloat).print], ?_, ?_⟩, h.counts⟩
        · exact hmore.trans (List.append_assoc _ _ _)
        · exact fun hne => absurd hended hne
      · obtain rfl := Option.some.inj hstep
        obtain rfl := hlate hended
        refine ⟨h.wired, hlt, hkeeps, ⟨[], ?_, fun _ => rfl⟩, h.counts⟩
        refine hmore.trans ?_
        rw [List.append_nil, List.append_nil, List.append_assoc]
        rfl

/-- A step of the daemon or of the wire. -/
theorem Kept.wire (h : w.Kept c) {e : AttachmentEvent Command}
    {wire : Attachment (peer showFloat readFloat)}
    (hcall : ∀ k, e ≠ .call k) (hstep : Attachment.step showFloat c w.wire e = some wire) :
    ({ w with wire := wire } : Session showFloat readFloat).Kept c := by
  obtain ⟨hcalls, ⟨more, hmore⟩, hclient⟩ := Attachment.step_later hstep hcall
  have htake : wire.written.take w.taken = w.wire.written.take w.taken := by
    rw [← hmore, List.take_append_of_le_length h.taken_le_written]
  have hlines : (LineBuffer.split newline w.arrived).1.length ≤
      (LineBuffer.split newline
        ({ w with wire := wire } : Session showFloat readFloat).arrived).1.length := by
    obtain hsame | ⟨piece, hpiece⟩ := hclient
    · exact Nat.le_of_eq
        (congrArg (fun bytes => (LineBuffer.split newline bytes).1.length) hsame.symm)
    · have hfed : ({ w with wire := wire } : Session showFloat readFloat).arrived =
          w.arrived ++ piece := hpiece
      rw [hfed, LineBuffer.length_split, LineBuffer.length_split, List.count_append]
      exact Nat.le_add_right _ _
  obtain ⟨late, hanswers, hlate⟩ := h.answers
  refine ⟨h.wired.step hstep, h.taken_le.trans hlines, ?_, ⟨late, ?_, hlate⟩, ?_⟩
  · change w.notices = ((wire.written.take w.taken).filterMap _).map _
    rw [htake]
    exact h.notices
  · change (responses (wire.written.take w.taken)).map _ = w.answers ++ w.channel ++ late
    rw [htake]
    exact hanswers
  · have hcounts := h.counts
    simp only [Counts] at hcounts ⊢
    rw [hcalls]
    exact hcounts

/-- The receiving task takes a line. -/
theorem Kept.take (h : w.Kept c) (hstep : w.take = some w') : w'.Kept c := by
  have hready : w.receiving = true ∧
      ∃ bytes, (LineBuffer.split newline w.arrived).1[w.taken]? = some bytes := by
    cases hreceiving : w.receiving with
    | false => simp [Session.take, hreceiving] at hstep
    | true =>
        cases hline : (LineBuffer.split newline w.arrived).1[w.taken]? with
        | none => simp [Session.take, hline] at hstep
        | some bytes => exact ⟨rfl, bytes, rfl⟩
  obtain ⟨hreceiving, bytes, hline⟩ := hready
  obtain ⟨m, hm, rfl⟩ := h.next hline
  rw [take_message hreceiving hline] at hstep
  exact h.hear hm (List.getElem?_eq_some_iff.mp hline).1 hstep

/-- The loop goes on without an answer. -/
theorem Kept.goes (h : w.Kept c) {x : Shown} (hanswer : x.answer? = none)
    (hnotice : x.notification? = none) : (w.print x).Kept c where
  wired := h.wired
  taken_le := h.taken_le
  notices := by
    rw [notices_print, hnotice]
    exact (List.append_nil _).trans h.notices
  answers := by
    obtain ⟨late, hanswers, hlate⟩ := h.answers
    refine ⟨late, ?_, hlate⟩
    rw [answers_print, hanswer, Option.toList_none, List.append_nil]
    exact hanswers
  counts := h.counts.print hanswer

/-- The loop ends. -/
theorem Kept.ends (h : w.Kept c) :
    ({ w with loop := .ended } : Session showFloat readFloat).Kept c where
  wired := h.wired
  taken_le := h.taken_le
  notices := h.notices
  answers := by
    obtain ⟨late, hanswers, -⟩ := h.answers
    exact ⟨late, hanswers, fun hne => absurd rfl hne⟩
  counts := by
    have hcounts := h.counts
    unfold Counts at hcounts
    change w.answers.length ≤ w.wire.calls.length ∧ w.wire.calls.length ≤ w.answers.length + 1
    split at hcounts <;> omega

/-- A command is sent, and the loop waits. -/
theorem Kept.called (h : w.Kept c) (hloop : w.loop = .prompt) {call : Command}
    {wire : Attachment (peer showFloat readFloat)}
    (hwire : Attachment.step showFloat c w.wire (.call call) = some wire) :
    ({ w with wire := wire, loop := .waiting } : Session showFloat readFloat).Kept c := by
  have hwired := h.wired.step hwire
  simp only [Attachment.step, Option.ite_none_right_eq_some, Option.some.injEq] at hwire
  obtain ⟨-, rfl⟩ := hwire
  obtain ⟨late, hanswers, hlate⟩ := h.answers
  have hcounts := h.counts
  simp only [Counts, hloop] at hcounts
  refine ⟨hwired, h.taken_le, h.notices, ⟨late, hanswers, fun _ => hlate (by simp [hloop])⟩, ?_⟩
  exact (List.length_append).trans (congrArg (· + 1) hcounts)

/-- A line is typed. -/
theorem Kept.submit (h : w.Kept c) (hloop : w.loop = .prompt) {text : String} {sent : Bool}
    (hstep : w.submit c text sent = some w') : w'.Kept c := by
  unfold Session.submit at hstep
  dsimp only at hstep
  split at hstep
  · exact Option.some.inj hstep ▸ h
  · split at hstep
    · exact Option.some.inj hstep ▸ h.ends
    · split at hstep
      · exact Option.some.inj hstep ▸ h.goes rfl rfl
      · split at hstep
        · exact Option.some.inj hstep ▸ h.goes rfl rfl
        · split at hstep
          · obtain ⟨wire, hwire, rfl⟩ := Option.map_eq_some_iff.mp hstep
            exact h.called hloop hwire
          · exact Option.some.inj hstep ▸ (h.goes rfl rfl).ends

/-- What a step preserves. -/
theorem Kept.step (h : w.Kept c) {e : SessionEvent} (hstep : w.step c e = some w') : w'.Kept c := by
  cases e with
  | wire e =>
      cases e with
      | call k => cases hstep
      | _ =>
          obtain ⟨wire, hwire, rfl⟩ := Option.map_eq_some_iff.mp hstep
          exact h.wire (by simp) hwire
  | take => exact h.take hstep
  | hangUp =>
      obtain rfl := Option.some.inj hstep
      exact ⟨h.wired, h.taken_le, h.notices, h.answers, h.counts⟩
  | typed input sent =>
      simp only [Session.step] at hstep
      split at hstep
      · rename_i text hloop
        exact h.submit hloop hstep
      · obtain rfl := Option.some.inj hstep
        exact h.ends
      · cases hstep
  | answered =>
      simp only [Session.step] at hstep
      split at hstep
      · rename_i line rest hloop hchannel
        obtain rfl := Option.some.inj hstep
        obtain ⟨late, hanswers, hlate⟩ := h.answers
        have hcounts := h.counts
        simp only [Counts, hloop] at hcounts
        refine ⟨h.wired, h.taken_le, ?_, ⟨late, ?_, fun _ => hlate (by simp [hloop])⟩, ?_⟩
        · exact (notices_print w _).trans ((List.append_nil _).trans h.notices)
        · refine hanswers.trans ?_
          rw [hchannel]
          have hmore := answers_print w (.answer line)
          simp only [Shown.answer?, Option.toList_some] at hmore
          change _ = (w.print (.answer line)).answers ++ rest ++ late
          rw [hmore]
          simp
        · have hmore := congrArg List.length (answers_print w (.answer line))
          simp only [Shown.answer?, Option.toList_some, List.length_append,
            List.length_singleton] at hmore
          exact hcounts.trans hmore.symm
      · cases hstep
  | closed =>
      simp only [Session.step] at hstep
      split at hstep
      · obtain rfl := Option.some.inj hstep
        exact (h.goes rfl rfl).ends
      · cases hstep
  | timeout =>
      simp only [Session.step] at hstep
      split at hstep
      · obtain rfl := Option.some.inj hstep
        exact (h.goes rfl rfl).ends
      · cases hstep

theorem kept_of_run {es : List SessionEvent}
    (hrun : (session showFloat readFloat c).run es = some w) : w.Kept c := by
  refine (session showFloat readFloat c).run_invariant (P := Kept c) ?_ (fun _ _ _ h => h.step) hrun
  exact ⟨Attachment.wired_init, Nat.zero_le _, rfl, ⟨[], rfl, fun _ => rfl⟩, rfl⟩

end Session

/-! ## What comes of it -/

section

variable {showFloat : Rat → NumLit} {readFloat : NumLit → Rat} {c : ClientId}
  {w : Session showFloat readFloat}

/-- The answers are those of the commands, in their turn. -/
structure Session.InTurn (c : ClientId) (w : Session showFloat readFloat) : Prop where
  /-- The answer with a number is the daemon's response to the command with that number, and
  is shown as the daemon made it. -/
  answered : ∀ (k : ℕ) (line : List Char), w.answers[k]? = some line →
    ∃ (call : Command) (req : Request) (resp : Response),
      w.wire.calls[k]? = some call ∧ (w.wire.world.exchanges c)[k]? = some (req, resp) ∧
      req.cmd = call.val.cmd ∧ (∀ key, req.args.get key = call.val.args.get key) ∧
      line = (resp.toJson showFloat).print ∧
      (resp.Faithful → (Shown.answer line).lines showFloat readFloat = resp.display showFloat)
  outstanding : w.answers.length ≤ w.wire.calls.length ∧
    w.wire.calls.length ≤ w.answers.length + 1
  prompt : w.loop = .prompt → w.answers.length = w.wire.calls.length
  channel : w.channel.length ≤ 1

/-- The daemon has the arguments that were typed. -/
theorem Command.get_asRead (call : Command) (key : String) :
    (asRead showFloat readFloat call.val).args.get key = call.val.args.get key := by
  obtain ⟨req, input, hinput⟩ := call
  have hargs : req.args.PlainArgs := (parseCommand_sent hinput).plainArgs
  change (req.args.sent showFloat readFloat).get key = req.args.get key
  obtain ⟨cmd, args⟩ := req
  cases hargs with
  | null => rfl
  | object fields hkeys hplain => exact get_ofJson_toJson readFloat showFloat hkeys hplain key

/-- The answers are the responses of the first exchanges. -/
theorem Session.Kept.answers_eq (h : w.Kept c) :
    w.answers = ((w.wire.world.exchanges c).take w.answers.length).map fun x =>
      (x.2.toJson showFloat).print := by
  obtain ⟨late, hanswers, -⟩ := h.answers
  obtain ⟨later, hlater⟩ : responses (w.wire.written.take w.taken) <+:
      responses w.wire.written := (List.take_prefix _ _).filterMap _
  have hall : ((w.wire.world.exchanges c).map Prod.snd).map
      (fun resp => (resp.toJson showFloat).print) = w.answers ++ (w.channel ++ late ++
        later.map fun resp => (resp.toJson showFloat).print) := by
    rw [← h.wired.written_responses fun _ => rfl, ← hlater, List.map_append, hanswers]
    simp only [List.append_assoc]
  have htake := congrArg (List.take w.answers.length) hall
  rw [List.take_left, List.map_map, ← List.map_take] at htake
  exact htake.symm

/-- The exchanges are of the first commands. -/
theorem Session.Kept.exchanges_take (h : w.Kept c) (n : ℕ) :
    ((w.wire.world.exchanges c).take n).map Prod.fst <+:
      w.wire.calls.map fun call => asRead showFloat readFloat call.val := by
  rw [List.map_take]
  exact (List.take_prefix _ _).trans (h.wired.exchanges_prefix fun _ => rfl)

/-- The answers that are printed are those of the commands that were typed, whatever
else the daemon writes, whoever else it serves, and however late it answers. -/
theorem answers_in_turn {es : List SessionEvent}
    (hrun : (session showFloat readFloat c).run es = some w) : w.InTurn c := by
  have hkept := Session.kept_of_run hrun
  have hcounts := hkept.counts
  refine ⟨?_, ?_, ?_, hkept.length_channel_le⟩
  · intro k line hline
    rw [hkept.answers_eq, List.getElem?_map] at hline
    obtain ⟨⟨req, resp⟩, htake, rfl⟩ := Option.map_eq_some_iff.mp hline
    have hexchange : (w.wire.world.exchanges c)[k]? = some (req, resp) := by
      obtain ⟨hlt, -⟩ := List.getElem?_eq_some_iff.mp htake
      rw [List.length_take] at hlt
      rwa [List.getElem?_take_of_lt (Nat.lt_of_lt_of_le hlt (Nat.min_le_left _ _))] at htake
    obtain ⟨rest, hrest⟩ := hkept.wired.exchanges_prefix fun _ => rfl
    have hasked := congrArg (fun reqs => reqs[k]?) hrest
    simp only [List.getElem?_map] at hasked
    rw [List.getElem?_append_left (by simpa using (List.getElem?_eq_some_iff.mp hexchange).1),
      List.getElem?_map, hexchange] at hasked
    obtain ⟨call, hcall, hreq⟩ := Option.map_eq_some_iff.mp hasked.symm
    have hread : asRead showFloat readFloat call.val = req := hreq
    refine ⟨call, req, resp, hcall, hexchange, ?_, ?_, rfl, fun h => printResponse_print h⟩
    · rw [← hread]
      rfl
    · rw [← hread]
      exact call.get_asRead
  · unfold Session.Counts at hcounts
    split at hcounts <;> omega
  · intro hloop
    simp only [Session.Counts, hloop] at hcounts
    exact hcounts.symm

/-- A notification of an entry, among those that were printed. -/
def isEntry (val : Value) : Bool := val.strArg "notify" = some "rx_data"

/-- The lines printed for entries. -/
def Session.entryLines (w : Session showFloat readFloat) : List Line :=
  (w.notices.filter isEntry).flatMap fun val => (Shown.notification val).lines showFloat readFloat

private theorem isEntry_readNotification (n : Notification) :
    isEntry (readNotification showFloat readFloat n) = decide (n.notify = "rx_data") := by
  simp [isEntry, readNotification, Value.strArg, Value.get, Value.asStr, List.lookup_cons]

/-- One line is printed for each entry that the messages tell of. -/
theorem entryLines_messages {msgs : List Message} (hmsgs : ∀ m ∈ msgs, m.Ordinary) :
    (((msgs.filterMap Message.notification?).map (readNotification showFloat readFloat)).filter
        isEntry).flatMap (fun val => (Shown.notification val).lines showFloat readFloat) =
      (msgs.filterMap Message.rxEntry).map entryLine := by
  induction msgs with
  | nil => rfl
  | cons m msgs ih =>
      obtain ⟨hm, hrest⟩ := List.forall_mem_cons.mp hmsgs
      cases m with
      | response resp => exact ih hrest
      | notification n =>
          have hsplit : (Message.notification n :: msgs).filterMap Message.notification? =
              n :: msgs.filterMap Message.notification? := rfl
          by_cases hname : n.notify = "rx_data"
          · obtain ⟨port, a, rfl⟩ := hm hname
            have hentry : (Message.notification (Push.rxData port a).notification).rxEntry =
                some (a.rxData port) := Push.rxEntry_rxData port a
            have htell : isEntry (readNotification showFloat readFloat
                (Push.rxData port a).notification) = true := by
              rw [isEntry_readNotification]
              rfl
            rw [hsplit, List.map_cons, List.filter_cons_of_pos htell, List.flatMap_cons, ih hrest,
              List.filterMap_cons_some hentry, List.map_cons]
            rw [Shown.lines, printNotification_rxData]
            rfl
          · have hentry : (Message.notification n).rxEntry = none :=
              Notification.rxEntry_of_ne hname
            rw [hsplit, List.map_cons, List.filter_cons_of_neg (by
              simp [isEntry_readNotification, hname]), ih hrest, List.filterMap_cons_none hentry]

/-- The receiving task is never stopped by a full channel. -/
theorem Session.Kept.taken_all (h : w.Kept c) (hreceiving : w.receiving = true)
    (hidle : w.take = none) (hout : w.wire.outbound = []) : w.taken = w.wire.written.length := by
  have hstream := Session.stream_of_wired h.wired
  rw [hout, List.append_nil] at hstream
  have hall := arrived_all showFloat hstream
  refine Nat.le_antisymm h.taken_le_written (Nat.not_lt.mp fun hlt => ?_)
  rw [← hall] at hlt
  have hline := List.getElem?_eq_getElem hlt
  obtain ⟨m, -, hm⟩ := h.next hline
  rw [hm] at hline
  rw [Session.take_message hreceiving hline] at hidle
  have hroom := h.length_channel_le
  cases m with
  | notification n => cases hidle
  | response resp =>
      have hfree : w.channel.length < channelCapacity := Nat.lt_of_le_of_lt hroom (by decide)
      simp only [Session.hear, Session.forward, hfree, if_true] at hidle
      split at hidle <;> cases hidle

/-- Every notification is printed once, in the order in which the daemon writes them, and
all of them once nothing is on its way; and of each entry that is pushed there is one line
with its time, its port and its text. -/
theorem notices_in_order {es : List SessionEvent}
    (hrun : (session showFloat readFloat c).run es = some w) :
    w.notices <+: (w.wire.written.filterMap Message.notification?).map
        (readNotification showFloat readFloat) ∧
      w.entryLines <+: (w.wire.world.entriesTo c).map entryLine ∧
      (w.receiving = true → w.take = none → w.wire.outbound = [] →
        w.notices = (w.wire.written.filterMap Message.notification?).map
            (readNotification showFloat readFloat) ∧
          w.entryLines = (w.wire.world.entriesTo c).map entryLine) := by
  have hkept := Session.kept_of_run hrun
  have hordinary := hkept.wired.ordinary
  have htaken : ∀ m ∈ w.wire.written.take w.taken, m.Ordinary :=
    fun m hm => hordinary m (List.mem_of_mem_take hm)
  have hlines : w.entryLines =
      ((w.wire.written.take w.taken).filterMap Message.rxEntry).map entryLine := by
    rw [Session.entryLines, hkept.notices, entryLines_messages htaken]
  refine ⟨?_, ?_, fun hreceiving hidle hout => ?_⟩
  · rw [hkept.notices]
    exact ((List.take_prefix _ _).filterMap _).map _
  · rw [hlines, ← hkept.wired.entries]
    exact ((List.take_prefix _ _).filterMap _).map _
  · have hall := hkept.taken_all hreceiving hidle hout
    rw [hlines, hkept.notices, hall, List.take_length, hkept.wired.entries]
    exact ⟨rfl, rfl⟩

end

def onDaemon (e : Commmon.Event) : SessionEvent := .wire (.daemon e)

/-- Another client has opened the port. The help is asked for, then the subscription is
typed, and answered when an entry has been pushed already. -/
def subscribedSession : List SessionEvent :=
  [onDaemon (.connect 0), onDaemon (.connect 1)] ++
    (issue 1 (portRequest "open_port" "P") 2).map onDaemon ++
    [.typed (.line " help") true, .typed (.line "sub P") true,
      .wire (.serve ⟨.ok (), .successMsg ""⟩ "")] ++
    List.replicate 3 (onDaemon (.client 0 .dispatch)) ++
    [onDaemon (stream 0 []), onDaemon (.deliver 0 ⟨"12:00", [0xFF]⟩)] ++
    [onDaemon (stream 0 ["P"]), onDaemon (stream 0 []), onDaemon (stream 0 []),
      .wire (.receive 60), .wire (.receive 76), .take, .take, .answered]

private theorem subscribedSession_shown :
    ((session (fun _ => .ofNat 0) (fun _ => 0) 0).run subscribedSession).any (fun w =>
      decide (w.loop = .prompt) && decide (w.answers.length = 1) && w.receiving &&
        w.take.isNone && w.wire.outbound.isEmpty &&
        decide (w.entryLines = [.err "\n[12:00] [P] \uFFFD"])) = true := by
  decide +kernel

theorem answers_in_turn_subscribed : ∃ w,
    (session (fun _ => .ofNat 0) (fun _ => 0) 0).run subscribedSession = some w ∧
      w.InTurn 0 ∧ w.answers.length = 1 := by
  obtain ⟨w, hrun, hshown⟩ := (Option.any_eq_true _ _).mp subscribedSession_shown
  simp only [Bool.and_eq_true, decide_eq_true_eq] at hshown
  exact ⟨w, hrun, answers_in_turn hrun, hshown.1.1.1.1.2⟩

theorem notices_in_order_subscribed : ∃ w,
    (session (fun _ => .ofNat 0) (fun _ => 0) 0).run subscribedSession = some w ∧
      w.entryLines = (w.wire.world.entriesTo 0).map entryLine ∧
      w.entryLines = [.err "\n[12:00] [P] \uFFFD"] := by
  obtain ⟨w, hrun, hshown⟩ := (Option.any_eq_true _ _).mp subscribedSession_shown
  simp only [Bool.and_eq_true, decide_eq_true_eq, List.isEmpty_iff, Option.isNone_iff_eq_none]
    at hshown
  obtain ⟨⟨⟨⟨-, hreceiving⟩, hidle⟩, hout⟩, hlines⟩ := hshown
  exact ⟨w, hrun, ((notices_in_order hrun).2.2 hreceiving hidle hout).2, hlines⟩

end Repl

end Commmon

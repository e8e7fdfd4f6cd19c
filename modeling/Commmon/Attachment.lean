/-
# A client program on its connection

Whatever program is at the other end, a connection carries lines to the daemon and
lines back. What the program makes of the bytes that arrive is left open here. It
writes a line for each of its calls, and one law is asked of it, that the daemon reads the
lines as the requests that the calls are said to make, or refuses those that are said to
make none.

The connection joins such a program to the daemon with all its other clients. On
both ways the bytes that are not yet read are kept, and they arrive in pieces that are
cut anywhere.
-/

import Commmon.ReplRequests
import Commmon.RxWindows

set_option autoImplicit false

namespace Commmon

open RecvLoop (newline)

def Outgoing.message : Outgoing → Message
  | .response _ resp => .response resp
  | .push p => .notification p.notification

/-- A request that has been answered. -/
def Outgoing.exchange : Outgoing → Option (Request × Response)
  | .response req resp => some (req, resp)
  | .push _ => none

private theorem Outgoing.response_message (o : Outgoing) :
    o.message.response? = o.exchange.map Prod.snd := by
  cases o <;> rfl

/-- A line that the daemon writes to a client: what a command or the streaming task writes, the
answer to a line that is no request, or the notice that a log has stopped. -/
inductive DaemonLine
  | out (o : Outgoing)
  | refusal (err : String)
  | notice (n : Notification)

namespace DaemonLine

/-- The answer to a line that is no request. -/
def refused (err : String) : Response := .ofError s!"JSON 파싱 오류: {err}"

def message : DaemonLine → Message
  | out o => o.message
  | refusal err => .response (refused err)
  | notice n => .notification n

def out? : DaemonLine → Option Outgoing
  | out o => some o
  | refusal _ | notice _ => none

/-- An answer, and the request that it is the answer to. -/
def reply? : DaemonLine → Option (Option Request × Response)
  | out o => o.exchange.map fun x => (some x.1, x.2)
  | refusal err => some (none, refused err)
  | notice _ => none

private theorem response_message (l : DaemonLine) :
    l.message.response? = l.reply?.map Prod.snd := by
  cases l with
  | out o => rw [message, o.response_message, reply?, Option.map_map]; rfl
  | refusal err => rfl
  | notice n => rfl

/-- Answers to requests are the exchanges. -/
theorem exchange_reply (l : DaemonLine) :
    (l.reply?.bind fun r => r.1.map fun req => (req, r.2)) = l.out?.bind Outgoing.exchange := by
  cases l with
  | out o => cases o <;> rfl
  | refusal err => rfl
  | notice n => rfl

end DaemonLine

section

variable (showFloat : Rat → NumLit)

private theorem writtenBytes_append (msgs more : List Message) :
    writtenBytes showFloat (msgs ++ more) =
      writtenBytes showFloat msgs ++ writtenBytes showFloat more := by
  simp [writtenBytes, Utf8Lossy.encode_append]

/-- The printed text of a message is trimmed already. -/
theorem Message.trim_print (m : Message) :
    trim isWhitespace (m.toJson showFloat).print = (m.toJson showFloat).print ∧
      (m.toJson showFloat).print ≠ [] := by
  obtain ⟨fields, hobj⟩ := m.toJson_obj showFloat
  rw [hobj]
  exact ⟨trim_print_obj (by decide) (by decide) fields, by simp [Json.print]⟩

theorem Message.stripReturn_print (m : Message) :
    stripReturn (m.toJson showFloat).print = (m.toJson showFloat).print := by
  obtain ⟨fields, hobj⟩ := m.toJson_obj showFloat
  have hprint : (Json.obj fields).print = ('{' :: Json.printFields fields) ++ ['\x7d'] := rfl
  rw [hobj, stripReturn, if_neg]
  rw [hprint, List.getLast?_concat]
  decide

/-- The lines of which the end has arrived are those of the first messages. -/
theorem arrived_lines {msgs : List Message} {arrived later : List UInt8}
    (hstream : arrived ++ later = writtenBytes showFloat msgs) :
    (LineBuffer.split newline arrived).1 =
      (msgs.map (Message.lineBytes showFloat)).take
        (LineBuffer.split newline arrived).1.length := by
  have hfree : ∀ line ∈ msgs.map (Message.lineBytes showFloat), newline ∉ line := by
    intro line hline
    obtain ⟨m, -, rfl⟩ := List.mem_map.mp hline
    exact newline_not_mem_lineBytes showFloat m
  rw [writtenBytes_eq_frame] at hstream
  exact LineBuffer.split_eq_take hfree hstream

/-- Once nothing is on its way, all of them have arrived. -/
theorem arrived_all {msgs : List Message} {arrived : List UInt8}
    (hstream : arrived = writtenBytes showFloat msgs) :
    (LineBuffer.split newline arrived).1.length = msgs.length := by
  have hfree : ∀ line ∈ msgs.map (Message.lineBytes showFloat), newline ∉ line := by
    intro line hline
    obtain ⟨m, -, rfl⟩ := List.mem_map.mp hline
    exact newline_not_mem_lineBytes showFloat m
  rw [hstream, writtenBytes_eq_frame, LineBuffer.split_frame hfree, List.length_map]

end

namespace World

/-- What has been written to a client of the daemon. -/
def writtenTo (w : World) (c : ClientId) : List Outgoing :=
  ((w.clients c).map Client.written).getD []

/-- The requests of a client that have been answered. -/
def exchanges (w : World) (c : ClientId) : List (Request × Response) :=
  (w.writtenTo c).filterMap Outgoing.exchange

/-- The request that the client's loop is at. -/
def underWay (w : World) (c : ClientId) : Option Request :=
  ((w.clients c).bind Client.dispatch).map Prod.fst

/-- The requests of a client that have been taken up, in their order. -/
def begun (w : World) (c : ClientId) : List Request :=
  (w.exchanges c).map Prod.fst ++ (w.underWay c).toList

end World

/-- Only the client's own lines make requests of its own, and it stays connected. -/
def Event.apart (c : ClientId) : Event → Bool
  | .disconnect c' => c' ≠ c
  | .client c' (.request _ _) => c' ≠ c
  | _ => true

section Daemon

variable {s t : World} {e : Event} {c : ClientId}

/-- What is written to a client only grows. -/
theorem writtenTo_prefix (hstep : daemon.step s e = some t) (c : ClientId) :
    s.writtenTo c <+: t.writtenTo c := by
  cases World.step_seen hstep c with
  | joined he hclient hclient' hserial => simp [World.writtenTo, hclient]
  | left cl he hclient hidle hclient' hserial =>
      simp [World.writtenTo, hclient, hclient', Client.disconnect]
  | own cl cl' ce he hclient hconnected hsteps hclient' =>
      simp only [World.writtenTo, hclient, hclient', Option.map_some, Option.getD_some]
      generalize t.serial = m' at hsteps
      cases hsteps with
      | began req env m' s' pc hidle hbegins => exact List.prefix_refl _
      | advanced req pc cl' hpc hadvances =>
          cases hadvances <;> first | exact List.prefix_refl _ | exact List.prefix_append _ _
      | streamed order writeOk task queue lines hrunning hmoves => exact List.prefix_append _ _
  | elsewhere hclient hchanges hevent => simp [World.writtenTo, hclient]

/-- A request is taken up when nothing is under way, and nothing is written yet. -/
theorem begun_request {req : Request} {env : Env}
    (hstep : daemon.step s (.client c (.request req env)) = some t) :
    t.begun c = s.begun c ++ [req] ∧ t.writtenTo c = s.writtenTo c := by
  have hworld : s.step (.client c (.request req env)) = some t := hstep
  cases World.step_seen hworld c with
  | own cl cl' ce he hclient hconnected hsteps hclient' =>
      obtain ⟨-, rfl⟩ := Event.client.inj he
      generalize t.serial = m' at hsteps
      cases hsteps with
      | began req env m' s' pc hidle hbegins =>
          simp [World.begun, World.exchanges, World.underWay, World.writtenTo, hclient, hclient',
            hidle]
  | elsewhere hclient hchanges hevent =>
      obtain ⟨d, ce, hd, he⟩ | ⟨-, hother⟩ := hevent
      · exact absurd (Event.client.inj he).1.symm hd
      · exact absurd rfl (hother _)
  | joined he hclient hclient' hserial => cases he
  | left cl he hclient hidle hclient' hserial => cases he

/-- Nothing else takes up a request, and none is forgotten. -/
theorem begun_apart (hstep : daemon.step s e = some t) (hapart : e.apart c = true) :
    t.begun c = s.begun c := by
  cases World.step_seen hstep c with
  | joined he hclient hclient' hserial =>
      simp [World.begun, World.exchanges, World.underWay, World.writtenTo, hclient, hclient',
        Client.new]
  | left cl he hclient hidle hclient' hserial => simp [he, Event.apart] at hapart
  | own cl cl' ce he hclient hconnected hsteps hclient' =>
      simp only [World.begun, World.exchanges, World.underWay, World.writtenTo, hclient, hclient',
        Option.map_some, Option.getD_some, Option.bind_some]
      generalize t.serial = m' at hsteps
      cases hsteps with
      | began req env m' s' pc hidle hbegins => simp [he, Event.apart] at hapart
      | advanced req pc cl' hpc hadvances =>
          cases hadvances <;> simp_all [Outgoing.exchange]
      | streamed order writeOk task queue lines hrunning hmoves =>
          have hnone : (lines.map Outgoing.push).filterMap Outgoing.exchange = [] := by
            simp [List.filterMap_map, Function.comp_def, Outgoing.exchange]
          rw [List.filterMap_append, hnone, List.append_nil]
  | elsewhere hclient hchanges hevent =>
      simp [World.begun, World.exchanges, World.underWay, World.writtenTo, hclient]

end Daemon

/-- What the daemon's loop makes of a line. A line that is not UTF-8 ends it. -/
inductive LineRead
  | ended
  | blank
  | refused
  | request (req : Request)

def readLine (readFloat : NumLit → Rat) (line : List UInt8) : LineRead :=
  match textOf line with
  | none => .ended
  | some text =>
      let text := trim isWhitespace (stripReturn text)
      if text = [] then .blank
      else
        match (Json.parse text).bind requestOf with
        | none => .refused
        | some r => .request ⟨r.cmd, .ofJson readFloat r.args⟩

/-- A line is read as a request, or is refused. -/
def LineRead.ofRequest : Option Request → LineRead
  | some req => .request req
  | none => .refused

theorem readLine_of_daemonRequest {readFloat : NumLit → Rat} {line : List UInt8} {req : Request}
    (h : daemonRequest readFloat line = some req) : readLine readFloat line = .request req := by
  obtain ⟨r, hr, rfl⟩ := Option.map_eq_some_iff.mp h
  obtain ⟨text, htext, hparse⟩ := Option.bind_eq_some_iff.mp hr
  have hne : trim isWhitespace (stripReturn text) ≠ [] := by
    intro hnil
    rw [hnil, Json.parse_nil] at hparse
    simp at hparse
  rw [readLine, htext]
  simp only [hne, if_false, hparse]

/-- A program at the other end. A call makes a request, or a line that the daemon refuses. -/
structure Peer (readFloat : NumLit → Rat) where
  State : Type
  start : State
  feed : State → List UInt8 → State
  Call : Type
  line : Call → List UInt8
  request : Call → Option Request
  one_line : ∀ call, newline ∉ line call
  asks : ∀ call, readLine readFloat (line call) = .ofRequest (request call)

section Connection

variable (showFloat : Rat → NumLit) {readFloat : NumLit → Rat} (peer : Peer readFloat)
  (c : ClientId)

/-- The daemon with one of its clients. `served` is what has been read from the
client's lines, and `none` stands for a line that was refused. `inbound` is what
the daemon has not read, and `outbound` what has not arrived at the client. -/
structure Attachment where
  world : World
  calls : List peer.Call
  inbound : List UInt8
  served : List (Option Request)
  lines : List DaemonLine
  outbound : List UInt8
  client : peer.State

/-- A step of the daemon that the client's lines have no part in, or one of the
connection. -/
inductive AttachmentEvent (Call : Type)
  | call (k : Call)
  | serve (env : Env) (err : String)
  | daemon (e : Event)
  | notify (n : Notification)
  | receive (k : ℕ)

namespace Attachment

variable {peer}

/-- The messages that the daemon has written. -/
def written (w : Attachment peer) : List Message := w.lines.map DaemonLine.message

/-- Its answers, in their order. -/
def replies (w : Attachment peer) : List (Option Request × Response) :=
  w.lines.filterMap DaemonLine.reply?

def write (w : Attachment peer) (lines : List DaemonLine) : Attachment peer :=
  { w with
    lines := w.lines ++ lines
    outbound := w.outbound ++ writtenBytes showFloat (lines.map DaemonLine.message) }

/-- Whether the daemon has a client of that number, and reads its next line. -/
def reading (w : Attachment peer) : Bool :=
  (w.world.clients c).any fun cl => cl.connected && cl.dispatch.isNone

/-- The loop of `handle_client`, at one line. -/
def serve (w : Attachment peer) (env : Env) (err : String) : Option (Attachment peer) :=
  match LineBuffer.takeLine newline w.inbound with
  | none => none
  | some (line, rest) =>
      match readLine readFloat line with
      | .ended => none
      | .blank => some { w with inbound := rest }
      | .refused => some ({ w with
          inbound := rest
          served := w.served ++ [none] }.write showFloat [.refusal err])
      | .request req =>
          (daemon.step w.world (.client c (.request req env))).map fun world =>
            { w with world := world, inbound := rest, served := w.served ++ [some req] }

def step (w : Attachment peer) : AttachmentEvent peer.Call → Option (Attachment peer)
  | .call k =>
      if (w.world.clients c).isSome then
        some { w with calls := w.calls ++ [k], inbound := w.inbound ++ (peer.line k ++ [newline]) }
      else none
  | .serve env err => if w.reading c then w.serve showFloat c env err else none
  | .daemon e =>
      if e.apart c then
        (daemon.step w.world e).map fun world =>
          { w with world := world }.write showFloat
            (((world.writtenTo c).drop (w.world.writtenTo c).length).map DaemonLine.out)
      else none
  | .notify n =>
      if (w.world.clients c).isSome ∧ n.notify = "log_stopped" then
        some (w.write showFloat [.notice n])
      else none
  | .receive k =>
      if 0 < k ∧ k ≤ w.outbound.length then
        some { w with
          client := peer.feed w.client (w.outbound.take k)
          outbound := w.outbound.drop k }
      else none

/-- The steps that the daemon takes. -/
def daemonEvents (w : Attachment peer) : AttachmentEvent peer.Call → List Event
  | .daemon e => [e]
  | .serve env _ =>
      match LineBuffer.takeLine newline w.inbound with
      | some (line, _) =>
          match readLine readFloat line with
          | .request req => [.client c (.request req env)]
          | .ended | .blank | .refused => []
      | none => []
  | .call _ | .notify _ | .receive _ => []

/-- They lead the daemon to where the step leaves it. -/
theorem runFrom_daemonEvents {w w' : Attachment peer} {e : AttachmentEvent peer.Call}
    (hstep : w.step showFloat c e = some w') :
    Commmon.daemon.runFrom w.world (w.daemonEvents c e) = some w'.world := by
  cases e with
  | call k | notify n | receive k =>
      simp only [step] at hstep
      split_ifs at hstep
      exact Option.some.inj hstep ▸ rfl
  | daemon e =>
      simp only [step] at hstep
      split_ifs at hstep
      obtain ⟨world, hworld, rfl⟩ := Option.map_eq_some_iff.mp hstep
      exact Commmon.daemon.runFrom_cons_eq_some.mpr ⟨world, hworld, rfl⟩
  | serve env err =>
      simp only [step] at hstep
      split_ifs at hstep
      unfold serve at hstep
      rw [daemonEvents]
      cases hline : LineBuffer.takeLine newline w.inbound with
      | none => simp [hline] at hstep
      | some taken =>
          obtain ⟨line, rest⟩ := taken
          cases hread : readLine readFloat line with
          | ended => simp [hline, hread] at hstep
          | blank =>
              simp only [hline, hread] at hstep ⊢
              exact Option.some.inj hstep ▸ rfl
          | refused =>
              simp only [hline, hread] at hstep ⊢
              exact Option.some.inj hstep ▸ rfl
          | request req =>
              simp only [hline, hread] at hstep ⊢
              obtain ⟨world, hworld, rfl⟩ := Option.map_eq_some_iff.mp hstep
              exact Commmon.daemon.runFrom_cons_eq_some.mpr ⟨world, hworld, rfl⟩

end Attachment

/-- All runs of the daemon with a program on one of its connections. -/
def attachment : StepSystem (Attachment peer) (AttachmentEvent peer.Call) where
  init := ⟨daemon.init, [], [], [], [], [], peer.start⟩
  step := Attachment.step showFloat c

namespace Attachment

variable {peer}

/-- Of the calls, the first have been taken up or refused, and the lines of the others are on
their way. -/
def Taken (w : Attachment peer) : Prop :=
  ∃ n ≤ w.calls.length, w.served = (w.calls.take n).map peer.request ∧
    w.inbound = LineBuffer.frame newline ((w.calls.drop n).map peer.line)

/-- The daemon's side, the lines that go to it, and the bytes that come from it. -/
structure Wired (w : Attachment peer) : Prop where
  reached : ∃ es, daemon.run es = some w.world
  taken : w.Taken
  outgoing : w.lines.filterMap DaemonLine.out? = w.world.writtenTo c
  replied : w.served = w.replies.map Prod.fst ++ (w.world.underWay c).toList.map some
  notices : ∀ n, .notice n ∈ w.lines → n.notify = "log_stopped"
  arrived : ∃ pieces : List (List UInt8), w.client = pieces.foldl peer.feed peer.start ∧
    pieces.flatten ++ w.outbound = writtenBytes showFloat w.written

variable {showFloat} {c} {w w' : Attachment peer}

/-- The stream goes on with the lines that are written. -/
theorem Wired.arrived_write (h : w.Wired showFloat c) (lines : List DaemonLine) :
    ∃ pieces : List (List UInt8), w.client = pieces.foldl peer.feed peer.start ∧
      pieces.flatten ++ (w.write showFloat lines).outbound =
        writtenBytes showFloat (w.write showFloat lines).written := by
  obtain ⟨pieces, hclient, hbytes⟩ := h.arrived
  refine ⟨pieces, hclient, ?_⟩
  rw [Attachment.write, written, List.map_append, ← List.append_assoc, hbytes, writtenBytes_append]
  rfl

/-- The client's loop is at no request when it reads a line. -/
theorem underWay_of_reading (h : w.reading c = true) : w.world.underWay c = none := by
  obtain ⟨cl, hclient, hidle⟩ := (Option.any_eq_true _ _).mp h
  obtain ⟨-, hnone⟩ := (Bool.and_eq_true _ _).mp hidle
  rw [World.underWay, hclient, Option.bind_some, Option.isNone_iff_eq_none.mp hnone]
  rfl

/-- The daemon's loop at the client's next line: the line of the next call is refused, or its
request is taken up. -/
theorem Wired.serve_cases (h : w.Wired showFloat c) {env : Env} {err : String}
    (hstep : w.serve showFloat c env err = some w') :
    (∃ inbound, w' = { w with
        inbound := inbound
        served := w.served ++ [none] }.write showFloat [.refusal err] ∧ w'.Taken) ∨
    ∃ inbound req world, daemon.step w.world (.client c (.request req env)) = some world ∧
      w' = { w with world := world, inbound := inbound, served := w.served ++ [some req] } ∧
      w'.Taken := by
  obtain ⟨n, hn, hserved, hinbound⟩ := h.taken
  unfold Attachment.serve at hstep
  cases hdrop : w.calls.drop n with
  | nil =>
      rw [hinbound, hdrop] at hstep
      cases hstep
  | cons k more =>
      have hlt : n < w.calls.length := by
        by_contra hge
        simp [List.drop_eq_nil_of_le (Nat.not_lt.mp hge)] at hdrop
      have htakes : w.calls.take (n + 1) = w.calls.take n ++ [k] := by
        have hhead := congrArg List.head? hdrop
        rw [List.head?_drop] at hhead
        rw [List.take_add_one, hhead]
        rfl
      have hrest : LineBuffer.frame newline (more.map peer.line) =
          LineBuffer.frame newline ((w.calls.drop (n + 1)).map peer.line) := by
        rw [← List.drop_drop, hdrop]
        rfl
      have hsplit : w.inbound =
          peer.line k ++ newline :: LineBuffer.frame newline (more.map peer.line) := by
        rw [hinbound, hdrop]
        simp [LineBuffer.frame]
      have hserved' : w.served ++ [peer.request k] = (w.calls.take (n + 1)).map peer.request := by
        rw [htakes, List.map_append, hserved]
        rfl
      rw [hsplit, LineBuffer.takeLine_line (peer.one_line k)] at hstep
      simp only [peer.asks k] at hstep
      cases hrequest : peer.request k with
      | none =>
          rw [hrequest] at hstep hserved'
          obtain rfl := Option.some.inj hstep
          exact Or.inl ⟨_, rfl, n + 1, hlt, hserved', hrest⟩
      | some req =>
          rw [hrequest] at hstep hserved'
          obtain ⟨world, hworld, rfl⟩ := Option.map_eq_some_iff.mp hstep
          exact Or.inr ⟨_, req, world, hworld, rfl, n + 1, hlt, hserved', hrest⟩

/-- The daemon takes the client's next line. -/
theorem Wired.serve (h : w.Wired showFloat c) (hreading : w.reading c = true) {env : Env}
    {err : String} (hstep : w.serve showFloat c env err = some w') : w'.Wired showFloat c := by
  have hidle := underWay_of_reading hreading
  have hreplied := h.replied
  rw [hidle, Option.toList_none, List.map_nil, List.append_nil] at hreplied
  obtain ⟨inbound, rfl, htaken⟩ | ⟨inbound, req, world, hworld, rfl, htaken⟩ := h.serve_cases hstep
  · obtain ⟨pieces, hclient, hbytes⟩ := h.arrived_write [.refusal err]
    refine ⟨h.reached, htaken, ?_, ?_, fun notice hmem => ?_, pieces, hclient, hbytes⟩
    · exact (List.filterMap_append ..).trans ((List.append_nil _).trans h.outgoing)
    · change w.served ++ [none] =
        ((w.lines ++ [DaemonLine.refusal err]).filterMap DaemonLine.reply?).map Prod.fst ++
          (w.world.underWay c).toList.map some
      rw [hidle, Option.toList_none, List.map_nil, List.append_nil, hreplied,
        List.filterMap_append, List.map_append]
      rfl
    · obtain hmem | hmem := List.mem_append.mp hmem
      · exact h.notices notice hmem
      · simp at hmem
  · obtain ⟨es, hes⟩ := h.reached
    obtain ⟨hbegun, hwritten⟩ := begun_request hworld
    have hunderWay : (world.underWay c).toList = [req] := by
      rwa [World.begun, World.begun, World.exchanges, World.exchanges, hwritten, hidle,
        Option.toList_none, List.append_nil, List.append_cancel_left_eq] at hbegun
    refine ⟨⟨_, daemon.run_snoc_eq_some.mpr ⟨_, hes, hworld⟩⟩, htaken,
      h.outgoing.trans hwritten.symm, ?_, h.notices, h.arrived⟩
    change w.served ++ [some req] = w.replies.map Prod.fst ++ (world.underWay c).toList.map some
    rw [hunderWay, hreplied]
    rfl

/-- The daemon goes on, and writes what it has for the client. -/
theorem Wired.elsewhere (h : w.Wired showFloat c) {e : Event} {world : World}
    (hapart : e.apart c = true) (hworld : daemon.step w.world e = some world) :
    ({ w with world := world }.write showFloat
      (((world.writtenTo c).drop (w.world.writtenTo c).length).map DaemonLine.out)).Wired
        showFloat c := by
  obtain ⟨es, hes⟩ := h.reached
  obtain ⟨more, hmore⟩ := writtenTo_prefix hworld c
  have hbegun := begun_apart hworld hapart
  rw [← hmore, List.drop_left]
  have hout : (more.map DaemonLine.out).filterMap DaemonLine.out? = more := by
    rw [List.filterMap_map]
    exact List.filterMap_some
  have hreplies : ((more.map DaemonLine.out).filterMap DaemonLine.reply?).map Prod.fst =
      ((more.filterMap Outgoing.exchange).map Prod.fst).map some := by
    rw [List.filterMap_map, List.map_filterMap, List.map_filterMap, List.map_filterMap]
    refine List.filterMap_congr fun o _ => ?_
    cases o <;> rfl
  have hunderWay : (w.world.underWay c).toList =
      (more.filterMap Outgoing.exchange).map Prod.fst ++ (world.underWay c).toList := by
    rw [World.begun, World.begun, World.exchanges, World.exchanges, ← hmore,
      List.filterMap_append, List.map_append, List.append_assoc,
      List.append_cancel_left_eq] at hbegun
    exact hbegun.symm
  obtain ⟨pieces, hclient, hbytes⟩ := h.arrived_write (more.map DaemonLine.out)
  refine ⟨⟨_, daemon.run_snoc_eq_some.mpr ⟨_, hes, hworld⟩⟩, h.taken, ?_, ?_, ?_,
    pieces, hclient, hbytes⟩
  · change (w.lines ++ more.map DaemonLine.out).filterMap DaemonLine.out? = world.writtenTo c
    rw [List.filterMap_append, h.outgoing, hout, hmore]
  · change w.served =
      ((w.lines ++ more.map DaemonLine.out).filterMap DaemonLine.reply?).map Prod.fst ++
        (world.underWay c).toList.map some
    rw [List.filterMap_append, List.map_append, hreplies, h.replied, hunderWay, List.map_append,
      List.append_assoc]
    rfl
  · intro notice hmem
    obtain hmem | hmem := List.mem_append.mp hmem
    · exact h.notices notice hmem
    · simp at hmem

/-- What a step preserves. -/
theorem Wired.step (h : w.Wired showFloat c) {e : AttachmentEvent peer.Call}
    (hstep : w.step showFloat c e = some w') : w'.Wired showFloat c := by
  cases e with
  | call k =>
      simp only [Attachment.step, Option.ite_none_right_eq_some, Option.some.injEq] at hstep
      obtain ⟨-, rfl⟩ := hstep
      obtain ⟨n, hn, hserved, hinbound⟩ := h.taken
      refine ⟨h.reached, ⟨n, by simp; omega, ?_, ?_⟩, h.outgoing, h.replied, h.notices, h.arrived⟩
      · rw [List.take_append_of_le_length hn]
        exact hserved
      · rw [List.drop_append_of_le_length hn, hinbound]
        simp [LineBuffer.frame]
  | serve env err =>
      simp only [Attachment.step, Option.ite_none_right_eq_some] at hstep
      exact h.serve hstep.1 hstep.2
  | daemon e =>
      simp only [Attachment.step, Option.ite_none_right_eq_some, Option.map_eq_some_iff] at hstep
      obtain ⟨hapart, world, hworld, rfl⟩ := hstep
      exact h.elsewhere hapart hworld
  | notify n =>
      simp only [Attachment.step, Option.ite_none_right_eq_some, Option.some.injEq] at hstep
      obtain ⟨⟨-, hname⟩, rfl⟩ := hstep
      obtain ⟨pieces, hclient, hbytes⟩ := h.arrived_write [.notice n]
      refine ⟨h.reached, h.taken, ?_, ?_, ?_, pieces, hclient, hbytes⟩
      · exact (List.filterMap_append ..).trans ((List.append_nil _).trans h.outgoing)
      · rw [replies, Attachment.write, List.filterMap_append]
        exact (List.append_nil w.replies).symm ▸ h.replied
      · intro notice hmem
        obtain hmem | hmem := List.mem_append.mp hmem
        · exact h.notices notice hmem
        · obtain rfl : notice = n := by simpa using hmem
          exact hname
  | receive k =>
      simp only [Attachment.step, Option.ite_none_right_eq_some, Option.some.injEq] at hstep
      obtain ⟨-, rfl⟩ := hstep
      obtain ⟨pieces, hclient, hbytes⟩ := h.arrived
      refine ⟨h.reached, h.taken, h.outgoing, h.replied, h.notices,
        pieces ++ [w.outbound.take k], ?_, ?_⟩
      · rw [List.foldl_append, ← hclient]
        rfl
      · rw [List.flatten_append, List.flatten_singleton, List.append_assoc, List.take_append_drop]
        exact hbytes

/-- What a step does at the client's end: calls are made by calling alone, and what is
written only grows. -/
theorem step_later {e : AttachmentEvent peer.Call} (hstep : w.step showFloat c e = some w') :
    (∀ k, e ≠ .call k) → w'.calls = w.calls ∧ w.written <+: w'.written ∧
      (w'.client = w.client ∨ ∃ piece, w'.client = peer.feed w.client piece) := by
  intro hcall
  cases e with
  | call k => exact absurd rfl (hcall k)
  | serve env err =>
      simp only [Attachment.step, Attachment.serve, Option.ite_none_right_eq_some] at hstep
      obtain ⟨-, hstep⟩ := hstep
      split at hstep
      · cases hstep
      · split at hstep
        · cases hstep
        · obtain rfl := Option.some.inj hstep
          exact ⟨rfl, List.prefix_refl _, Or.inl rfl⟩
        · obtain rfl := Option.some.inj hstep
          exact ⟨rfl, (List.prefix_append _ _).map _, Or.inl rfl⟩
        · obtain ⟨world, -, rfl⟩ := Option.map_eq_some_iff.mp hstep
          exact ⟨rfl, List.prefix_refl _, Or.inl rfl⟩
  | daemon e =>
      simp only [Attachment.step, Option.ite_none_right_eq_some, Option.map_eq_some_iff] at hstep
      obtain ⟨-, world, -, rfl⟩ := hstep
      exact ⟨rfl, (List.prefix_append _ _).map _, Or.inl rfl⟩
  | notify n =>
      simp only [Attachment.step, Option.ite_none_right_eq_some, Option.some.injEq] at hstep
      obtain ⟨-, rfl⟩ := hstep
      exact ⟨rfl, (List.prefix_append _ _).map _, Or.inl rfl⟩
  | receive k =>
      simp only [Attachment.step, Option.ite_none_right_eq_some, Option.some.injEq] at hstep
      obtain ⟨-, rfl⟩ := hstep
      exact ⟨rfl, List.prefix_refl _, Or.inr ⟨_, rfl⟩⟩

theorem wired_init : (attachment showFloat peer c).init.Wired showFloat c :=
  ⟨⟨[], rfl⟩, ⟨0, Nat.zero_le _, rfl, rfl⟩, rfl, rfl, fun _ h => absurd h List.not_mem_nil,
    [], rfl, rfl⟩

theorem wired_of_run {es : List (AttachmentEvent peer.Call)}
    (hrun : (attachment showFloat peer c).run es = some w) : w.Wired showFloat c := by
  refine (attachment showFloat peer c).run_invariant (P := fun w => w.Wired showFloat c) wired_init
    (fun _ _ _ h => h.step) hrun

/-- What the daemon is asked is what has been called for, in that order. -/
theorem Wired.asked (h : w.Wired showFloat c) :
    w.served <+: w.calls.map peer.request ∧
      (w.inbound = [] → w.served = w.calls.map peer.request) := by
  obtain ⟨n, hn, hserved, hinbound⟩ := h.taken
  rw [hserved, List.map_take]
  refine ⟨List.take_prefix _ _, fun hnil => List.take_of_length_le ?_⟩
  rw [hinbound] at hnil
  cases hdrop : w.calls.drop n with
  | nil =>
      rw [List.length_map]
      exact List.drop_eq_nil_iff.mp hdrop
  | cons k more => simp [hdrop, LineBuffer.frame] at hnil

/-- An answer is to the call with its number. -/
theorem Wired.replies_prefix (h : w.Wired showFloat c) :
    w.replies.map Prod.fst <+: w.calls.map peer.request :=
  List.IsPrefix.trans ⟨_, h.replied.symm⟩ h.asked.1

/-- The responses that are written are the answers. -/
theorem responses_written (w : Attachment peer) : responses w.written = w.replies.map Prod.snd := by
  rw [responses, written, List.filterMap_map, replies, List.map_filterMap]
  exact List.filterMap_congr fun l _ => l.response_message

/-- The answers to requests are the daemon's exchanges with the client. -/
theorem Wired.exchanges_eq (h : w.Wired showFloat c) :
    (w.replies.filterMap fun r => r.1.map fun req => (req, r.2)) = w.world.exchanges c := by
  rw [World.exchanges, ← h.outgoing, replies, List.filterMap_filterMap, List.filterMap_filterMap]
  exact List.filterMap_congr fun l _ => l.exchange_reply

section Total

variable {request : peer.Call → Request} (hrequest : ∀ k, peer.request k = some (request k))

include hrequest

private theorem Wired.replies_eq (h : w.Wired showFloat c) :
    w.replies = (w.world.exchanges c).map fun x => (some x.1, x.2) := by
  have hsome : ∀ r ∈ w.replies, ∃ req, r.1 = some req := by
    intro r hr
    obtain ⟨k, -, hk⟩ := List.mem_map.mp (h.replies_prefix.subset (List.mem_map_of_mem hr))
    exact ⟨request k, hk ▸ hrequest k⟩
  rw [← h.exchanges_eq]
  generalize w.replies = replies at hsome
  induction replies with
  | nil => rfl
  | cons r replies ih =>
      obtain ⟨⟨req, hreq⟩, hreplies⟩ := List.forall_mem_cons.mp hsome
      obtain ⟨req', resp⟩ := r
      obtain rfl : req' = some req := hreq
      exact congrArg ((some req, resp) :: ·) (ih hreplies)

/-- The responses that are written are those of the exchanges. -/
theorem Wired.written_responses (h : w.Wired showFloat c) :
    responses w.written = (w.world.exchanges c).map Prod.snd := by
  rw [responses_written, h.replies_eq hrequest, List.map_map]
  rfl

/-- The requests that have been taken up are those of the first calls. -/
theorem Wired.begun_prefix (h : w.Wired showFloat c) :
    w.world.begun c <+: w.calls.map request := by
  have hserved : w.served = (w.world.begun c).map some := by
    rw [h.replied, h.replies_eq hrequest, World.begun, List.map_append, List.map_map, List.map_map]
    rfl
  have hcalls : w.calls.map peer.request = (w.calls.map request).map some := by
    rw [List.map_map]
    exact List.map_congr_left fun k _ => hrequest k
  have hprefix := h.asked.1
  rw [hserved, hcalls] at hprefix
  have hids := hprefix.filterMap id
  rwa [List.filterMap_map, List.filterMap_map, Function.id_comp, List.filterMap_some,
    List.filterMap_some] at hids

/-- An exchange is of the call with its number. -/
theorem Wired.exchanges_prefix (h : w.Wired showFloat c) :
    (w.world.exchanges c).map Prod.fst <+: w.calls.map request :=
  List.IsPrefix.trans ⟨_, rfl⟩ (h.begun_prefix hrequest)

end Total

end Attachment

end Connection

end Commmon

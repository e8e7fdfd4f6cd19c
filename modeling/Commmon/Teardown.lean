/-
# The end of a connection

`handle_client` spawns two tasks for a connection, one that writes notifications
and one that streams, and both share the socket with its request loop. After the
last line it aborts them. The loop has other ways out, each at a `?`: a line that
cannot be read, a line that is not UTF-8, and a response that cannot be written.
There it returns at once, and a task whose handle is dropped is detached and runs
on. The notify task then ends at a failed write or when it falls behind, and the
streaming task when it has nothing to stream and finds its queue closed.
-/

import Commmon.Notices
import Commmon.Pushes
import Commmon.Streaming

set_option autoImplicit false

namespace Commmon

open Broadcast

/-- What `next_line` and the parser make of what has arrived. -/
inductive Inbound
  | request (req : Request) (env : Env)
  | blank
  | malformed (reason : String)
  | notUtf8
  | readError
  | endOfFile

/-- Where the request loop stands. While a command is under way, the client has
the rest of it. -/
inductive HandlerPc
  | serving
  | refusing (resp : Response)
  | returned

/-- A connection with both of its tasks. `refused` are the responses to lines that
are no requests. -/
structure Handler where
  client : Client
  notify : NotifyTask
  refused : List Response
  loop : HandlerPc

inductive HandlerEvent
  | inbound (i : Inbound)
  | proceed (writeOk : Bool)
  | stream (order : List String) (writeOk : Bool)
  | recvNotice
  | writeNotice (ok : Bool)

namespace Handler

def accept (notices : Channel Notification) : Handler :=
  ⟨.new, .spawn notices, [], .serving⟩

/-- The end of the input: both tasks are aborted. -/
def finish (x : Handler) : Handler :=
  { x with client := x.client.disconnect, notify := x.notify.abort, loop := .returned }

/-- An error ends the loop: the session is dropped and the command queue closed. -/
def giveUp (x : Handler) : Handler :=
  { x with
    client := { x.client with connected := false, session := .new, dispatch := none }
    loop := .returned }

/-- The loop waits for a line. -/
def receive (x : Handler) (m : SerialManager) (i : Inbound) :
    Option (SerialManager × Handler) :=
  match x.loop, x.client.dispatch with
  | .serving, none =>
      match i with
      | .request req env =>
          (x.client.step m (.request req env)).map fun r => (r.1, { x with client := r.2 })
      | .blank => some (m, x)
      | .malformed reason =>
          some (m, { x with loop := .refusing (.ofError s!"JSON 파싱 오류: {reason}") })
      | .notUtf8 => some (m, x.giveUp)
      | .readError => some (m, x.giveUp)
      | .endOfFile => some (m, x.finish)
  | _, _ => none

/-- The loop goes on with a command, or writes a response. -/
def proceed (x : Handler) (m : SerialManager) (writeOk : Bool) : Option Handler :=
  match x.loop with
  | .serving =>
      match x.client.dispatch, writeOk with
      | some (_, .reply _), false => some x.giveUp
      | _, _ => (x.client.step m .dispatch).map fun r => { x with client := r.2 }
  | .refusing resp =>
      if writeOk then some { x with refused := x.refused ++ [resp], loop := .serving }
      else some x.giveUp
  | .returned => none

/-- The streaming task. A task that waits for a command ends when the queue is
empty and closed. -/
def stream (x : Handler) (m : SerialManager) (order : List String) (writeOk : Bool) :
    Option Handler :=
  match x.loop, x.client.task.pc, x.client.queue with
  | .returned, .waiting, [] => some { x with client := { x.client with task := .stopped } }
  | _, _, _ => (x.client.step m (.task order writeOk)).map fun r => { x with client := r.2 }

def step (x : Handler) (m : SerialManager) (notices : Channel Notification) :
    HandlerEvent → Option (SerialManager × Handler)
  | .inbound i => x.receive m i
  | .proceed writeOk => (x.proceed m writeOk).map fun x' => (m, x')
  | .stream order writeOk => (x.stream m order writeOk).map fun x' => (m, x')
  | .recvNotice => (x.notify.recv notices).map fun t => (m, { x with notify := t })
  | .writeNotice ok => (x.notify.write ok).map fun t => (m, { x with notify := t })

/-- Everything that has been written to the client. -/
def output (x : Handler) : List Outgoing × List Notification × List Response :=
  (x.client.written, x.notify.written, x.refused)

/-- Both tasks have ended. -/
structure TornDown (x : Handler) : Prop where
  notify : x.notify.isEnded = true
  streaming : x.client.task.isEnded = true

end Handler

/-- The receiver that a command carries. -/
def RxSubCommand.receiver : RxSubCommand → Option Receiver
  | .subscribe _ rx => some rx
  | .addFilter _ _ rx => some rx
  | _ => none

/-- The receiver that the rest of a command is about to send. -/
def Pc.receiver : Pc → Option Receiver
  | .send cmd _ => cmd.receiver
  | .tell cmd _ => cmd.receiver
  | _ => none

/-- A receiver of a port that is kept alive for the connection. -/
inductive Handler.Holds (x : Handler) (rx : Receiver) : Prop
  | reading (port : String) (h : x.client.session.receivers.lookup port = some rx)
  | sending (req : Request) (pc : Pc) (h : x.client.dispatch = some (req, pc))
      (hrx : pc.receiver = some rx)
  | queued (cmd : RxSubCommand) (h : cmd ∈ x.client.queue) (hrx : cmd.receiver = some rx)
  | pushing (port : String) (h : x.client.task.maps.rxReceivers.lookup port = some rx)
  | filtering (port : String) (st : FilterState)
      (h : x.client.task.maps.filterStates.lookup port = some st) (hrx : st.rx = rx)

structure Server where
  serial : SerialManager
  notices : Channel Notification
  handlers : ClientId → Option Handler

inductive ServerEvent
  | connect (c : ClientId)
  | handler (c : ClientId) (e : HandlerEvent)
  | broadcast (n : Notification)
  | deliver (k : ChannelId) (entry : RxEntry)
  | endReadTask (k : ChannelId)

namespace Server

def setHandler (s : Server) (c : ClientId) (x : Handler) : Server :=
  { s with handlers := Function.update s.handlers c (some x) }

def step (s : Server) : ServerEvent → Option Server
  | .connect c =>
      match s.handlers c with
      | some _ => none
      | none => some (s.setHandler c (.accept s.notices))
  | .handler c e =>
      match s.handlers c with
      | some x =>
          (x.step s.serial s.notices e).map fun r => { s with serial := r.1 }.setHandler c r.2
      | none => none
  | .broadcast n => some { s with notices := s.notices.send n }
  | .deliver k entry => (s.serial.deliver k entry).map fun m => { s with serial := m }
  | .endReadTask k => (s.serial.endReadTask k).map fun m => { s with serial := m }

end Server

/-- All runs of the connections. -/
def server : StepSystem Server ServerEvent where
  init := ⟨.new, ⟨notifyCapacity, [], 1⟩, fun _ => none⟩
  step := Server.step

/-- Only the start of a command changes the ports. -/
theorem Client.Steps.serial_eq {m m' : SerialManager} {cl cl' : Client} {ce : ClientEvent}
    (h : cl.Steps m ce m' cl') (hce : ∀ req env, ce ≠ .request req env) : m' = m := by
  cases h with
  | began req env m' s' pc hidle hbegins => exact absurd rfl (hce req env)
  | advanced req pc cl' hpc hadvances => rfl
  | streamed order writeOk task queue lines hrunning hmoves => rfl

namespace Handler

variable {x x' : Handler} {m m' : SerialManager} {notices : Channel Notification}
  {e : HandlerEvent}

/-- A step of a connection: the loop returns, or goes on, or a task does
something. -/
inductive Steps (x : Handler) (m : SerialManager) :
    HandlerEvent → SerialManager → Handler → Prop
  | finished (hserving : x.loop = .serving) : Steps x m (.inbound .endOfFile) m x.finish
  | gaveUp (e : HandlerEvent) (hhandler : x.loop ≠ .returned)
      (he : e ≠ .inbound .endOfFile) : Steps x m e m x.giveUp
  | handled (e : HandlerEvent) (m' : SerialManager) (client : Client) (refused : List Response)
      (loop : HandlerPc) (hhandler : x.loop ≠ .returned) (hserving : loop ≠ .returned)
      (hclient : client = x.client ∨ ∃ ce, x.client.Steps m ce m' client) :
      Steps x m e m' { x with client := client, refused := refused, loop := loop }
  | streamed (order : List String) (writeOk : Bool) (client : Client)
      (hclient : x.client.Steps m (.task order writeOk) m client) :
      Steps x m (.stream order writeOk) m { x with client := client }
  | drained (order : List String) (writeOk : Bool) (hqueue : x.client.queue = [])
      (hrunning : x.client.task.isEnded = false) :
      Steps x m (.stream order writeOk) m { x with client := { x.client with task := .stopped } }
  | noticed (e : HandlerEvent) (t : NotifyTask) (hrunning : x.notify.isEnded = false) :
      Steps x m e m { x with notify := t }

private theorem receive_steps {i : Inbound} (h : x.receive m i = some (m', x')) :
    x.Steps m (.inbound i) m' x' := by
  unfold receive at h
  split at h
  · rename_i hserving hidle
    have hrunning : x.loop ≠ .returned := by simp [hserving]
    cases i with
    | request req env =>
        obtain ⟨r, hr, heq⟩ := Option.map_eq_some_iff.mp h
        obtain ⟨rfl, rfl⟩ := Prod.mk.inj heq
        exact .handled _ _ r.2 x.refused x.loop hrunning hrunning
          (Or.inr ⟨_, Client.step_steps hr⟩)
    | blank =>
        obtain ⟨rfl, rfl⟩ := Prod.mk.inj (Option.some.inj h)
        exact .handled _ _ x.client x.refused x.loop hrunning hrunning (Or.inl rfl)
    | malformed reason =>
        obtain ⟨rfl, rfl⟩ := Prod.mk.inj (Option.some.inj h)
        exact .handled _ _ x.client x.refused _ hrunning (by simp) (Or.inl rfl)
    | notUtf8 =>
        obtain ⟨rfl, rfl⟩ := Prod.mk.inj (Option.some.inj h)
        exact .gaveUp _ hrunning (by simp)
    | readError =>
        obtain ⟨rfl, rfl⟩ := Prod.mk.inj (Option.some.inj h)
        exact .gaveUp _ hrunning (by simp)
    | endOfFile =>
        obtain ⟨rfl, rfl⟩ := Prod.mk.inj (Option.some.inj h)
        exact .finished hserving
  · exact absurd h (by simp)

private theorem proceed_steps {writeOk : Bool} (h : x.proceed m writeOk = some x') :
    x.Steps m (.proceed writeOk) m x' := by
  unfold proceed at h
  split at h
  · rename_i hserving
    have hrunning : x.loop ≠ .returned := by simp [hserving]
    split at h
    · obtain rfl := Option.some.inj h
      exact .gaveUp _ hrunning (by simp)
    · obtain ⟨r, hr, rfl⟩ := Option.map_eq_some_iff.mp h
      have hsteps := Client.step_steps hr
      have hm := hsteps.serial_eq (by simp)
      exact .handled _ _ r.2 x.refused x.loop hrunning hrunning
        (Or.inr ⟨_, hm ▸ hsteps⟩)
  · rename_i resp hrefusing
    have hrunning : x.loop ≠ .returned := by simp [hrefusing]
    split_ifs at h
    · obtain rfl := Option.some.inj h
      exact .handled _ _ x.client _ _ hrunning (by simp) (Or.inl rfl)
    · obtain rfl := Option.some.inj h
      exact .gaveUp _ hrunning (by simp)
  · exact absurd h (by simp)

private theorem stream_steps {order : List String} {writeOk : Bool}
    (h : x.stream m order writeOk = some x') : x.Steps m (.stream order writeOk) m x' := by
  unfold stream at h
  split at h
  · rename_i hreturned hwaiting hqueue
    obtain rfl := Option.some.inj h
    exact .drained order writeOk hqueue (by simp [StreamTask.isEnded, hwaiting])
  · obtain ⟨r, hr, rfl⟩ := Option.map_eq_some_iff.mp h
    have hsteps := Client.step_steps hr
    have hm := hsteps.serial_eq (by simp)
    exact .streamed order writeOk r.2 (hm ▸ hsteps)

theorem step_steps (h : x.step m notices e = some (m', x')) : x.Steps m e m' x' := by
  cases e with
  | inbound i => exact receive_steps h
  | proceed writeOk =>
      obtain ⟨y, hy, heq⟩ := Option.map_eq_some_iff.mp h
      obtain ⟨rfl, rfl⟩ := Prod.mk.inj heq
      exact proceed_steps hy
  | stream order writeOk =>
      obtain ⟨y, hy, heq⟩ := Option.map_eq_some_iff.mp h
      obtain ⟨rfl, rfl⟩ := Prod.mk.inj heq
      exact stream_steps hy
  | recvNotice =>
      obtain ⟨t, ht, heq⟩ := Option.map_eq_some_iff.mp h
      obtain ⟨rfl, rfl⟩ := Prod.mk.inj heq
      refine .noticed _ t (Bool.eq_false_iff.mpr fun hended => ?_)
      simp [NotifyTask.recv_of_isEnded hended] at ht
  | writeNotice ok =>
      obtain ⟨t, ht, heq⟩ := Option.map_eq_some_iff.mp h
      obtain ⟨rfl, rfl⟩ := Prod.mk.inj heq
      refine .noticed _ t (Bool.eq_false_iff.mpr fun hended => ?_)
      simp [NotifyTask.write_of_isEnded hended] at ht

/-- A streaming task that has ended holds nothing. -/
theorem Steps.halted (h : x.Steps m e m' x') (hx : x.client.Halted) : x'.client.Halted := by
  cases h with
  | finished hserving => exact fun _ => ⟨rfl, rfl⟩
  | gaveUp e hhandler he => exact hx
  | handled e m' client refused loop hhandler hserving hclient =>
      obtain rfl | ⟨ce, hsteps⟩ := hclient
      · exact hx
      · exact hsteps.halted hx
  | streamed order writeOk client hclient => exact hclient.halted hx
  | drained order writeOk hqueue hrunning => exact fun _ => ⟨rfl, hqueue⟩
  | noticed e t hrunning => exact hx

/-- The loop returns in two ways. -/
theorem Steps.returns (h : x.Steps m e m' x') (hrunning : x.loop ≠ .returned)
    (hreturned : x'.loop = .returned) :
    (e = .inbound .endOfFile ∧ x' = x.finish) ∨ (e ≠ .inbound .endOfFile ∧ x' = x.giveUp) := by
  cases h with
  | finished hserving => exact Or.inl ⟨rfl, rfl⟩
  | gaveUp e hhandler he => exact Or.inr ⟨he, rfl⟩
  | handled e m' client refused loop hhandler hserving hclient => exact absurd hreturned hserving
  | streamed order writeOk client hclient => exact absurd hreturned hrunning
  | drained order writeOk hqueue hlive => exact absurd hreturned hrunning
  | noticed e t hlive => exact absurd hreturned hrunning

/-- A connection whose tasks have ended and whose session is gone holds no
receiver. -/
theorem not_holds (hhalted : x.client.Halted) (hended : x.client.task.isEnded = true)
    (hsession : x.client.session = .new) (hdispatch : x.client.dispatch = none) (rx : Receiver) :
    ¬ x.Holds rx := by
  obtain ⟨hmaps, hqueue⟩ := hhalted hended
  intro hholds
  cases hholds with
  | reading port h => simp [hsession, ClientSession.new] at h
  | sending req pc h hrx => simp [hdispatch] at h
  | queued cmd h hrx => simp [hqueue] at h
  | pushing port h => simp [hmaps] at h
  | filtering port st h hrx => simp [hmaps] at h

end Handler

namespace Server

variable {s s' : Server} {e : ServerEvent}

/-- What a step is for a connection. -/
inductive Seen (c : ClientId) (s : Server) (e : ServerEvent) (s' : Server) : Prop
  | elsewhere (hsame : s'.handlers c = s.handlers c)
      (he : ∀ ce, e ≠ .handler c ce)
  | accepted (hnew : s.handlers c = none)
      (hx' : s'.handlers c = some (.accept s.notices))
  | own (ce : HandlerEvent) (x x' : Handler) (he : e = .handler c ce)
      (hx : s.handlers c = some x) (hsteps : x.Steps s.serial ce s'.serial x')
      (hx' : s'.handlers c = some x')

private theorem handlers_setHandler (s : Server) (c d : ClientId) (x : Handler) :
    (s.setHandler d x).handlers c = if c = d then some x else s.handlers c :=
  Function.update_apply _ _ _ _

theorem step_seen (hstep : server.step s e = some s') (c : ClientId) : Seen c s e s' := by
  cases e with
  | connect d =>
      simp only [server, step] at hstep
      split at hstep
      · exact absurd hstep (by simp)
      · rename_i hnew
        obtain rfl := Option.some.inj hstep
        by_cases hc : c = d
        · subst hc
          exact .accepted hnew (by simp [handlers_setHandler])
        · exact .elsewhere (by simp [handlers_setHandler, hc]) (by simp)
  | handler d ce =>
      simp only [server, step] at hstep
      split at hstep
      · rename_i x hx
        obtain ⟨⟨m', x'⟩, hr, rfl⟩ := Option.map_eq_some_iff.mp hstep
        by_cases hc : c = d
        · subst hc
          exact .own ce x x' rfl hx (Handler.step_steps hr)
            (by simp [handlers_setHandler])
        · exact .elsewhere (by simp [handlers_setHandler, hc])
            (by simp [Ne.symm hc])
      · exact absurd hstep (by simp)
  | broadcast n =>
      obtain rfl := Option.some.inj hstep
      exact .elsewhere rfl (by simp)
  | deliver k entry =>
      obtain ⟨m, -, rfl⟩ := Option.map_eq_some_iff.mp hstep
      exact .elsewhere rfl (by simp)
  | endReadTask k =>
      obtain ⟨m, -, rfl⟩ := Option.map_eq_some_iff.mp hstep
      exact .elsewhere rfl (by simp)

theorem halted_of_run {es : List ServerEvent} (hrun : server.run es = some s) {c : ClientId}
    {x : Handler} (hx : s.handlers c = some x) : x.client.Halted := by
  have hall : ∀ x, s.handlers c = some x → x.client.Halted := by
    refine server.run_invariant (P := fun s => ∀ x, s.handlers c = some x → x.client.Halted)
      (by simp [server]) (fun s e s' ih hstep x hx => ?_) hrun
    cases step_seen hstep c with
    | elsewhere hsame he => exact ih x (hsame.symm.trans hx)
    | accepted hnew hx' =>
        obtain rfl := Option.some.inj (hx.symm.trans hx')
        simp [Client.Halted, Handler.accept, Client.new, StreamTask.new, StreamTask.isEnded]
    | own ce y y' he hy hsteps hy' =>
        obtain rfl := Option.some.inj (hx.symm.trans hy')
        exact hsteps.halted (ih y hy)
  exact hall x hx

/-- Nothing happens any more on the connection of `c`: from here on both tasks
have ended, nothing is written, and no receiver is held. -/
def Quiet (c : ClientId) (s : Server) : Prop :=
  ∀ fs s' x x', server.runFrom s fs = some s' → s.handlers c = some x →
    s'.handlers c = some x' →
      x'.TornDown ∧ x'.output = x.output ∧ ∀ rx, ¬ x'.Holds rx

end Server

end Commmon

/-
# Who waits for which lock

The locks of the process: the port table, the log table, the handle of the monitor,
the writer of each port, the socket of each connection. A lock is taken in a step of
its own, and given back with the step that it was taken for, unless that step leaves
its agent in a section that keeps it: the stop of a log keeps the log table,
`open_monitor` and the stop of a monitor keep the handle, and `write_port` and
`port_status` keep the port table while they wait for one lock more.

A task that is aborted gives back what it holds. What the standard library's lock of
a log's keyword guards is never kept across a point where a task gives way, so it is
not among the locks; neither are the channels, except that a request loop waits for
room in the queue of its streaming task.
-/

import Commmon.Process

set_option autoImplicit false

namespace Commmon

inductive Lock
  | ports
  | logs
  | monitor
  | writer (k : ChannelId)
  | socket (c : ClientId)
  deriving DecidableEq

/-- Who takes steps. A page and a stream belong to a connection of the monitor. -/
inductive Agent
  | handler (c : ClientId)
  | streaming (c : ClientId)
  | notify (c : ClientId)
  | stream (h : ℕ)
  | page (h : ℕ)
  | server
  | cleanup
  | log (id : LogId)
  | timer (t : TimerId)
  deriving DecidableEq

/-- The command of a session looks at the port table. -/
def checksPort (req : Request) : Bool :=
  match req.cmd with
  | "subscribe_rx" | "read_port" => (req.args.strArg "port").isSome
  | "filter_rx" | "add_filter_rx" =>
      (req.args.strArg "port").isSome && (keywordsArg req.args).any fun kws => !kws.isEmpty
  | _ => false

def Pc.need (c : ClientId) (s : ClientSession) : Pc → Option Lock
  | .openEnsure port _ | .readEnsure port _ =>
      if (s.receivers.lookup port).isSome then none else some .ports
  | .subscribeTake _ | .filterTake _ _ _ => some .ports
  | .reply _ => some (.socket c)
  | .onPortClosed _ _ | .drain _ _ | .send _ _ | .tell _ _ => none

/-- Without a port in its arguments a command is answered at once. -/
def LogCommand.need : LogCommand → Option Lock
  | .openPort args | .startLog args => (args.strArg "port").map fun _ => .ports
  | .closePort args | .updateLog args | .stopLog args => (args.strArg "port").map fun _ => .logs
  | .portStatus | .closeAll => some .logs

def CallPc.need : CallPc → Option Lock
  | .start cmd => cmd.need
  | .register _ _ _ => some .logs
  | .removing _ | .drainingPorts => some .ports
  | .waiting _ _ _ | .done _ => none

def MonitorPc.need : MonitorPc → Option Lock
  | .start _ => some .monitor
  | .binding _ | .stopping | .done _ => none

def TaskPc.need (c : ClientId) : TaskPc → Option Lock
  | .pollRx (_ :: _) _ _ _ | .pollFilters (_ :: _) _ _ _ => some (.socket c)
  | _ => none

def NotifyPc.need (c : ClientId) : NotifyPc → Option Lock
  | .writing _ => some (.socket c)
  | _ => none

def SseStream.need (x : SseStream) : Option Lock :=
  match x.pc with
  | .naming => some .ports
  | .subscribing _ (name :: _) =>
      if (x.receivers.lookup name).isSome then none else some .ports
  | _ => none

namespace Conn

/-- The request loop between two requests, or in one that it does alone. -/
def loopNeed (x : Conn) (c : ClientId) : Option Lock :=
  match x.handler.loop, x.handler.client.dispatch with
  | .serving, some (_, pc) => pc.need c x.handler.client.session
  | .refusing _, _ => some (.socket c)
  | _, _ => none

def need (x : Conn) (w : DaemonState) (c : ClientId) : Option Lock :=
  match x.stage with
  | .ready => x.loopNeed c
  | .received req =>
      match route req with
      | .session => if checksPort req then some .ports else none
      | .status => some .ports
      | _ => none
  | .calling req i =>
      match route req with
      | .manager _ => (w.serial.calls i).bind CallPc.need
      | .monitor _ => (w.calls i).bind MonitorPc.need
      | _ => none
  | .locating _ _ _ => some .ports
  | .writing _ _ k _ => some (.writer k)
  | .listing _ => some .logs
  | .listed _ _ => some .monitor

/-- What the connection's request loop holds across the points where it gives
way. -/
def keeps (x : Conn) (w : DaemonState) : Option Lock :=
  match x.stage with
  | .calling req i =>
      match route req, w.serial.calls i, w.calls i with
      | .manager _, some (.waiting _ _ _), _ => some .logs
      | .monitor _, _, some (.binding _) => some .monitor
      | .monitor _, _, some .stopping => some .monitor
      | _, _, _ => none
  | .writing _ _ _ _ | .listing _ => some .ports
  | _ => none

end Conn

namespace Process

/-- The lock that an agent needs for its next step. -/
def need (w : Process) : Agent → Option Lock
  | .handler c => (w.conns c).bind fun x => x.need w.host c
  | .streaming c => (w.conns c).bind fun x => x.handler.client.task.pc.need c
  | .notify c => (w.conns c).bind fun x => x.handler.notify.pc.need c
  | .stream h =>
      match w.host.server.conns.lookup h with
      | some (.events x) => x.need
      | _ => none
  | .cleanup =>
      match w.host.cleanup with
      | .locking => some .monitor
      | .closing i => (w.host.serial.calls i).bind CallPc.need
      | _ => none
  | .page _ | .server | .log _ | .timer _ => none

/-- The lock that an agent keeps. -/
def keeps (w : Process) : Agent → Option Lock
  | .handler c => (w.conns c).bind fun x => x.keeps w.host
  | .cleanup =>
      match w.host.cleanup with
      | .stopping => some .monitor
      | _ => none
  | _ => none

end Process

/-- Whose step it is. What a client, a browser, a device or a signal does is
nobody's. -/
def HostEvent.actor : HostEvent → Option Agent
  | .serial (.createFile id _) | .serial (.observeCancel id) | .serial (.recv id)
  | .serial (.write id _) => some (.log id)
  | .serial (.expire t) => some (.timer t)
  | .serial (.advance _ _) | .clean _ => some .cleanup
  | .stream h _ => some (.stream h)
  | .finish h => some (.page h)
  | .serverReturn => some .server
  | _ => none

def ProcessEvent.actor : ProcessEvent → Option Agent
  | .host e => e.actor
  | .connect _ | .line _ _ | .inbound _ _ | .handle _ (.inbound _) => none
  | .dispatch c _ | .call c _ | .own c _ | .resume c | .parse c _ | .locate c | .sent c _ | .list c
  | .status c _ | .addMonitor c | .handle c (.proceed _) => some (.handler c)
  | .handle c (.stream _ _) => some (.streaming c)
  | .handle c .recvNotice | .handle c (.writeNotice _) => some (.notify c)

structure LockWorld where
  process : Process
  owner : Lock → Option Agent

inductive LockEvent
  | acquire (a : Agent)
  | act (e : ProcessEvent)

namespace LockWorld

/-- Who took a step gives back what it does not keep. Others go on holding what
they keep, or hold for a step to come. -/
def holdsOn (w : Process) (actor : Option Agent) (l : Lock) (a : Agent) : Bool :=
  w.keeps a == some l || actor != some a && w.need a == some l

def release (w : Process) (actor : Option Agent) (owner : Lock → Option Agent) (l : Lock) :
    Option Agent :=
  (owner l).filter fun a => holdsOn w actor l a

/-- An agent that needs a lock has it. -/
def Equipped (w : LockWorld) (a : Agent) : Prop :=
  ∀ l, w.process.need a = some l → w.owner l = some a

instance (w : LockWorld) (a : Agent) : Decidable (w.Equipped a) :=
  decidable_of_iff ((w.process.need a).all fun l => w.owner l == some a)
    (by cases h : w.process.need a <;> simp [Equipped, h])

def step (w : LockWorld) : LockEvent → Option LockWorld
  | .acquire a =>
      match w.process.need a with
      | some l =>
          if w.owner l = none then some { w with owner := Function.update w.owner l (some a) }
          else none
      | none => none
  | .act e =>
      if ∀ a ∈ e.actor, w.Equipped a then
        (w.process.step e).map fun p => ⟨p, release p e.actor w.owner⟩
      else none

end LockWorld

/-- All runs of the process with its locks. -/
def locking : StepSystem LockWorld LockEvent where
  init := ⟨process.init, fun _ => none⟩
  step := LockWorld.step

/-- Why an agent that holds what it needs may still have to wait. -/
inductive Wait
  | lock (l : Lock)
  | queue (c : ClientId)
  | returning
  | sending

/-- The next step of a command is a send on a full queue. -/
def Conn.queueFull (x : Conn) : Bool :=
  match x.stage, x.handler.loop, x.handler.client.dispatch with
  | .ready, .serving, some (_, .send _ _) | .ready, .serving, some (_, .tell _ _) =>
      !x.handler.client.task.isEnded && queueCapacity ≤ x.handler.client.queue.length
  | _, _, _ => false

/-- The command waits for the monitor's server. -/
def Conn.stops (x : Conn) (w : DaemonState) : Bool :=
  match x.stage with
  | .calling req i =>
      match route req, w.calls i with
      | .monitor _, some .stopping => !w.server.returned
      | _, _ => false
  | _ => false

namespace LockWorld

/-- What an agent waits for that needs no lock. -/
def waitsUnlocked (w : LockWorld) : Agent → Option Wait
  | .handler c =>
      (w.process.conns c).bind fun x =>
        if x.queueFull then some (.queue c)
        else if x.stops w.process.host then some .returning else none
  | .cleanup =>
      match w.process.host.cleanup with
      | .stopping => if w.process.host.server.returned then none else some .returning
      | _ => none
  | .server =>
      if w.process.host.server.cancelled = true ∧ w.process.host.server.returned = false ∧
        ¬ w.process.host.server.Drained then some .sending else none
  | _ => none

/-- What an agent waits for. -/
def waits (w : LockWorld) (a : Agent) : Option Wait :=
  match w.process.need a with
  | some l => if w.owner l = some a then none else some (.lock l)
  | none => w.waitsUnlocked a

/-- For whom a wait is. -/
def Awaits (w : LockWorld) : Wait → Agent → Prop
  | .lock l, b => w.owner l = some b
  | .queue c, b => b = .streaming c
  | .returning, b => b = .server
  | .sending, b => ∃ h, (∃ x, w.process.host.server.conns.lookup h = some (.events x) ∧
      b = .stream h) ∨ w.process.host.server.conns.lookup h = some .html ∧ b = .page h

/-- One agent waits for another to go on. -/
def WaitsFor (w : LockWorld) (a b : Agent) : Prop :=
  ∃ wait, w.waits a = some wait ∧ w.Awaits wait b

/-- The agent takes a lock, or a step. -/
def CanStep (w : LockWorld) (a : Agent) : Prop :=
  (∃ w', w.step (.acquire a) = some w') ∨
    ∃ e w', e.actor = some a ∧ w.step (.act e) = some w'

/-- The agent is in the middle of something, and the process has not exited. -/
def Busy (w : Process) : Agent → Prop
  | .handler c => ∃ x, w.conns c = some x ∧
      (x.stage = .ready → (∃ resp, x.handler.loop = .refusing resp) ∨
        x.handler.loop = .serving ∧ x.handler.client.dispatch ≠ none)
  | .streaming c => ∃ x, w.conns c = some x ∧ x.handler.client.task.isEnded = false ∧
      (x.handler.client.queue = [] → x.handler.client.task.pc ≠ .waiting)
  | .notify c => ∃ x n, w.conns c = some x ∧ x.handler.notify.pc = .writing n
  | .stream h => ∃ x, w.host.server.conns.lookup h = some (.events x)
  | .page h => w.host.server.conns.lookup h = some .html
  | .server => w.host.server.cancelled = true ∧ w.host.server.returned = false
  | .cleanup => w.host.cleanup ≠ .idle
  | .log id => (w.host.serial.logs.tasks id).pc = .creating ∨
      (∃ entry, (w.host.serial.logs.tasks id).pc = .writing entry) ∨
      (w.host.serial.logs.tasks id).pc = .selecting ∧ w.host.serial.logs.cancelled id = true
  | .timer t => (w.host.serial.logs.timers t).state = .sleeping

def Unfinished (w : LockWorld) (a : Agent) : Prop :=
  w.process.host.cleanup ≠ .exited ∧ Busy w.process a

end LockWorld

end Commmon

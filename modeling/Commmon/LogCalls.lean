/-
# Calls on the serial manager

The port table and the log table have a lock each. A step of a call is what it
does under one of them, so everything that other calls, the log tasks, the
timers and the read tasks may do in between is a run of this system. Only a stop
keeps a lock while it gives way: it holds the log table until the log's task has
ended or one second has passed.

Calls are numbered, and a client may have any of them under way. `close_all` is
a call too; the signal handler makes it.
-/

import Commmon.Lib.StepSystem
import Commmon.Logs

set_option autoImplicit false

namespace Commmon

abbrev CallId := ℕ

inductive LogCommand
  | openPort (args : Value)
  | closePort (args : Value)
  | startLog (args : Value)
  | updateLog (args : Value)
  | stopLog (args : Value)
  | portStatus
  | closeAll

/-- Where a call stands. `closing` is the request of a `close_port` that has its
log stopped first. -/
inductive CallPc
  | start (cmd : LogCommand)
  | register (port : String) (rx : Receiver) (args : Value)
  | waiting (port : String) (log : LogState) (closing : Option Value)
  | removing (args : Value)
  | drainingPorts
  | done (resp : Option Response)

structure LogWorld where
  serial : SerialManager
  logs : Logs
  locked : Option CallId
  calls : CallId → Option CallPc

inductive LogEvent
  | call (i : CallId) (cmd : LogCommand)
  | advance (i : CallId) (env : Logs.LogEnv)
  | timeOut (i : CallId)
  | createFile (id : LogId) (ok : Bool)
  | observeCancel (id : LogId)
  | recv (id : LogId)
  | write (id : LogId) (ok : Bool)
  | expire (t : TimerId)
  | deliver (k : ChannelId) (entry : RxEntry)
  | endReadTask (k : ChannelId)

/-- Every open port is closed. -/
def SerialManager.closeAll (m : SerialManager) : SerialManager :=
  m.ports.keys.foldl (fun m port =>
    match m.ports.lookup port with
    | some op => m.removePort port op
    | none => m) m

namespace LogWorld

def setCall (w : LogWorld) (i : CallId) (pc : CallPc) : LogWorld :=
  { w with calls := Function.update w.calls i (some pc) }

/-- A call returns. -/
def answer (w : LogWorld) (i : CallId) (resp : Response) : LogWorld :=
  w.setCall i (.done (some resp))

@[simp] theorem logs_setCall (w : LogWorld) (i : CallId) (pc : CallPc) :
    (w.setCall i pc).logs = w.logs := rfl

@[simp] theorem serial_setCall (w : LogWorld) (i : CallId) (pc : CallPc) :
    (w.setCall i pc).serial = w.serial := rfl

@[simp] theorem locked_setCall (w : LogWorld) (i : CallId) (pc : CallPc) :
    (w.setCall i pc).locked = w.locked := rfl

@[simp] theorem calls_setCall (w : LogWorld) (i : CallId) (pc : CallPc) :
    (w.setCall i pc).calls = Function.update w.calls i (some pc) := rfl

@[simp] theorem answer_eq (w : LogWorld) (i : CallId) (resp : Response) :
    w.answer i resp = w.setCall i (.done (some resp)) := rfl

/-- `stop_log_internal` up to its wait. Without a log there is nothing to wait
for. -/
def beginStop (w : LogWorld) (i : CallId) (port : String) (closing : Option Value) : LogWorld :=
  match w.logs.table.lookup port with
  | some log =>
      { w with logs := w.logs.remove port log, locked := some i }.setCall i
        (.waiting port log closing)
  | none =>
      match closing with
      | some args => w.setCall i (.removing args)
      | none => w.answer i (.ofError s!"{port}의 활성 로그가 없습니다.")

/-- `stop_log_internal` after its wait, whether or not the task has ended. -/
def endStop (w : LogWorld) (i : CallId) (port : String) (log : LogState)
    (closing : Option Value) : LogWorld :=
  match closing with
  | some args => { w with locked := none }.setCall i (.removing args)
  | none =>
      { w with locked := none }.answer i (.success (.value (.object
        [("port", .string port), ("file", .string log.filePath)])))

/-- A command that names a port, up to where it gives way. -/
def startOn (w : LogWorld) (i : CallId) (args : Value)
    (next : String → Option LogWorld) : Option LogWorld :=
  match args.strArg "port" with
  | none => some (w.answer i (.ofError "port 파라미터가 필요합니다."))
  | some port => next port

/-- A step that needs the log table. -/
def whenUnlocked (w : LogWorld) (next : LogWorld) : Option LogWorld :=
  if w.locked = none then some next else none

def start (w : LogWorld) (i : CallId) (env : Logs.LogEnv) : LogCommand → Option LogWorld
  | .openPort args =>
      let r := w.serial.openPort args env.opened
      some ({ w with serial := r.1 }.answer i r.2)
  | .closePort args =>
      w.startOn i args fun port => w.whenUnlocked (w.beginStop i port (some args))
  | .startLog args =>
      w.startOn i args fun port =>
        match w.serial.subscribe port with
        | none => some (w.answer i (.ofError s!"{port}가 열려 있지 않습니다."))
        | some rx => some (w.setCall i (.register port rx args))
  | .updateLog args =>
      w.startOn i args fun port =>
        let r := w.logs.updateLog port args
        w.whenUnlocked ({ w with logs := r.1 }.answer i r.2)
  | .stopLog args => w.startOn i args fun port => w.whenUnlocked (w.beginStop i port none)
  | .portStatus =>
      if env.order.Perm w.serial.ports.keys then
        w.whenUnlocked (w.answer i (w.logs.portStatus w.serial env))
      else none
  | .closeAll => w.whenUnlocked ({ w with logs := w.logs.drain }.setCall i .drainingPorts)

/-- One step of a call. -/
def advance (w : LogWorld) (i : CallId) (env : Logs.LogEnv) : CallPc → Option LogWorld
  | .start cmd => w.start i env cmd
  | .register port rx args =>
      let r := w.logs.startLog port rx args env
      w.whenUnlocked ({ w with logs := r.1 }.answer i r.2)
  | .waiting port log closing =>
      if (w.logs.tasks log.id).pc = .ended then some (w.endStop i port log closing) else none
  | .removing args =>
      let r := w.serial.closePort args
      some ({ w with serial := r.1 }.answer i r.2)
  | .drainingPorts => some ({ w with serial := w.serial.closeAll }.setCall i (.done none))
  | .done _ => none

def step (w : LogWorld) : LogEvent → Option LogWorld
  | .call i cmd =>
      match w.calls i with
      | some _ => none
      | none => some (w.setCall i (.start cmd))
  | .advance i env => (w.calls i).bind (w.advance i env)
  | .timeOut i =>
      match w.calls i with
      | some (.waiting port log closing) => some (w.endStop i port log closing)
      | _ => none
  | .createFile id ok => (w.logs.createFile id ok).map fun l => { w with logs := l }
  | .observeCancel id => (w.logs.observeCancel id).map fun l => { w with logs := l }
  | .recv id => (w.logs.recv w.serial id).map fun l => { w with logs := l }
  | .write id ok => (w.logs.write id ok).map fun l => { w with logs := l }
  | .expire t => (w.logs.expire t).map fun l => { w with logs := l }
  | .deliver k entry => (w.serial.deliver k entry).map fun m => { w with serial := m }
  | .endReadTask k => (w.serial.endReadTask k).map fun m => { w with serial := m }

/-- No call is under way. -/
def Quiescent (w : LogWorld) : Prop :=
  ∀ i, w.calls i = none ∨ ∃ resp, w.calls i = some (.done resp)

end LogWorld

/-- All runs of the serial manager under concurrent calls. -/
def logging : StepSystem LogWorld LogEvent where
  init := ⟨.new, .new, none, fun _ => none⟩
  step := LogWorld.step

end Commmon

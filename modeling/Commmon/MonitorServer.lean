/-
# The monitor's mutex and its server

`open_monitor` starts a server and keeps its handle under a mutex. `close_monitor`
and the clean-up at SIGINT take the handle out, cancel the server's token, and wait
for the server task while they hold the mutex; `port_status` looks under the same
mutex.

The server is one of the framework, and what is assumed of it is this: once its
token is cancelled it accepts no further connection, and it returns when no
response is still being sent. A connection that is open may still bring a
request. There is one server at a time, since a handle is put only where none is,
by a command that holds the mutex.

The ports and the logs, with the calls on them, are those of the serial manager.
The clean-up ends with a call on it, and then with the process.
-/

import Commmon.LogSteps
import Commmon.MonitorEvents

set_option autoImplicit false

namespace Commmon

/-- What a connection is being sent. -/
inductive Body
  | idle
  | html
  | events (x : SseStream)

/-- The server task with its cancellation token and its connections. -/
structure MonitorServer where
  cancelled : Bool
  returned : Bool
  conns : Table ℕ Body

structure MonitorHandle where
  httpPort : ℕ

inductive MonitorCommand
  | portStatus
  | openMonitor (args : Value)
  | closeMonitor

/-- Where a monitor command stands. The last two before the end hold the mutex. -/
inductive MonitorPc
  | start (cmd : MonitorCommand)
  | binding (httpPort : ℕ)
  | stopping
  | done (resp : Response)

/-- Where the clean-up stands. -/
inductive CleanupPc
  | idle
  | locking
  | stopping
  | closing (i : CallId)
  | exited

/-- Who may hold the mutex. -/
inductive Party
  | call (i : CallId)
  | cleanup
  deriving DecidableEq

structure DaemonState where
  serial : LogWorld
  monitor : Option MonitorHandle
  server : MonitorServer
  holder : Option Party
  calls : CallId → Option MonitorPc
  cleanup : CleanupPc

inductive HostEvent
  | serial (e : LogEvent)
  | call (i : CallId) (cmd : MonitorCommand)
  | advance (i : CallId) (bound : Except String Unit)
  | sigint
  | clean (i : CallId)
  | connect (h : ℕ)
  | request (h : ℕ) (events : Bool)
  | leave (h : ℕ)
  | stream (h : ℕ) (order : List String)
  | finish (h : ℕ)
  | serverReturn

namespace MonitorServer

/-- No server was started. -/
def absent : MonitorServer := ⟨true, true, ∅⟩

def start : MonitorServer := ⟨false, false, ∅⟩

def setBody (s : MonitorServer) (h : ℕ) (b : Body) : MonitorServer :=
  { s with conns := s.conns.insert h b }

def connect (s : MonitorServer) (h : ℕ) : Option MonitorServer :=
  match s.cancelled, s.returned, s.conns.lookup h with
  | false, false, none => some (s.setBody h .idle)
  | _, _, _ => none

/-- A request of `/`, or of `/events`. -/
def request (s : MonitorServer) (h : ℕ) (events : Bool) : Option MonitorServer :=
  match s.conns.lookup h with
  | some .idle => some (s.setBody h (if events then .events .new else .html))
  | _ => none

def leave (s : MonitorServer) (h : ℕ) : Option MonitorServer :=
  (s.conns.lookup h).map fun _ => { s with conns := s.conns.erase h }

/-- One step of the loop of `sse_handler`. It has no last one. -/
def stream (s : MonitorServer) (m : SerialManager) (h : ℕ) (order : List String) :
    Option MonitorServer :=
  match s.conns.lookup h with
  | some (.events x) => (x.step m order).map fun x' => s.setBody h (.events x')
  | _ => none

/-- The page has been sent. -/
def finish (s : MonitorServer) (h : ℕ) : Option MonitorServer :=
  match s.conns.lookup h with
  | some .html => some (s.setBody h .idle)
  | _ => none

/-- Nothing is being sent. -/
def Drained (s : MonitorServer) : Prop := ∀ h ∈ s.conns.keys, s.conns.lookup h = some .idle

def isIdle : Option Body → Bool
  | some .idle => true
  | _ => false

private theorem isIdle_iff {b : Option Body} : isIdle b = true ↔ b = some .idle := by
  unfold isIdle
  split <;> simp_all

instance (s : MonitorServer) : Decidable s.Drained :=
  decidable_of_iff (∀ h ∈ s.conns.keys, isIdle (s.conns.lookup h) = true)
    (by simp only [isIdle_iff, Drained])

/-- `serve` with graceful shutdown returns. -/
def serverReturn (s : MonitorServer) : Option MonitorServer :=
  if s.cancelled = true ∧ s.returned = false ∧ s.Drained then
    some { s with returned := true, conns := ∅ }
  else none

/-- A browser is being sent the event stream. -/
def Streaming (s : MonitorServer) : Prop := ∃ h x, s.conns.lookup h = some (.events x)

end MonitorServer

namespace DaemonState

def setCall (w : DaemonState) (i : CallId) (pc : MonitorPc) : DaemonState :=
  { w with calls := Function.update w.calls i (some pc) }

def answer (w : DaemonState) (i : CallId) (resp : Response) : DaemonState :=
  w.setCall i (.done resp)

def url (httpPort : ℕ) : String := s!"http://127.0.0.1:{httpPort}"

/-- What `port_status` adds to the answer of the manager. -/
def addMonitor (resp : Response) (monitor : Option MonitorHandle) : Response :=
  let portData := (resp.data.map Payload.toValue).getD (.array [])
  let shown : Value :=
    match monitor with
    | some handle =>
        .object [("active", .bool true), ("url", .string (url handle.httpPort))]
    | none => .object [("active", .bool false)]
  { resp with data := some (.value (.object [("ports", portData), ("monitor", shown)])) }

/-- The argument is cut to sixteen bits. -/
def httpPort (args : Value) : ℕ :=
  (((args.get "httpPort").bind Value.asU64).getD 8765) % UInt16.size

/-- `stop`, up to where it waits: the handle is taken, and the token cancelled. -/
def beginStop (w : DaemonState) (p : Party) : DaemonState :=
  { w with monitor := none, server := { w.server with cancelled := true }, holder := some p }

/-- A command up to where it gives way. Each takes the mutex. -/
def start (w : DaemonState) (i : CallId) : MonitorCommand → Option DaemonState
  | .portStatus =>
      match w.serial.calls i with
      | some (.done (some resp)) => some (w.answer i (addMonitor resp w.monitor))
      | _ => none
  | .openMonitor args =>
      match w.monitor with
      | some handle =>
          let running := url handle.httpPort
          some (w.answer i (.successMsg s!"모니터가 이미 실행 중입니다: {running}"))
      | none => some ({ w with holder := some (.call i) }.setCall i (.binding (httpPort args)))
  | .closeMonitor =>
      match w.monitor with
      | some _ => some ((w.beginStop (.call i)).setCall i .stopping)
      | none => some (w.answer i (.ofError "모니터가 실행 중이 아닙니다."))

/-- The listener is bound, or not; either way the mutex is released. -/
def bind (w : DaemonState) (i : CallId) (httpPort : ℕ) : Except String Unit → DaemonState
  | .ok () =>
      let opened := url httpPort
      { w with monitor := some ⟨httpPort⟩, server := .start, holder := none }.answer i
        (.successMsg s!"모니터 시작: {opened}")
  | .error e => { w with holder := none }.answer i (.ofError s!"모니터 시작 실패: {e}")

def closed : Response := .successMsg "모니터 종료"

def advance (w : DaemonState) (i : CallId) (bound : Except String Unit) :
    MonitorPc → Option DaemonState
  | .start cmd => if w.holder = none then w.start i cmd else none
  | .binding httpPort => some (w.bind i httpPort bound)
  | .stopping =>
      if w.server.returned then some ({ w with holder := none }.answer i closed) else none
  | .done _ => none

/-- The clean-up goes on to the ports and logs. -/
def closeAll (w : DaemonState) (i : CallId) : Option DaemonState :=
  (w.serial.step (.call i .closeAll)).map fun s => { w with serial := s, cleanup := .closing i }

/-- One step of the clean-up. `i` is the number of its call. -/
def clean (w : DaemonState) (i : CallId) : Option DaemonState :=
  match w.cleanup with
  | .locking =>
      if w.holder = none then
        match w.monitor with
        | some _ => some { w.beginStop .cleanup with cleanup := .stopping }
        | none => w.closeAll i
      else none
  | .stopping => if w.server.returned then { w with holder := none }.closeAll i else none
  | .closing j =>
      match w.serial.calls j with
      | some (.done none) => some { w with cleanup := .exited }
      | _ => none
  | _ => none

/-- A call on the manager that is not made by a monitor command or the clean-up. -/
def isDirect : LogEvent → Bool
  | .call _ .portStatus => false
  | .call _ .closeAll => false
  | _ => true

def ofServer (w : DaemonState) (s : Option MonitorServer) : Option DaemonState :=
  s.map fun s => { w with server := s }

/-- One step while the process runs. -/
def live (w : DaemonState) : HostEvent → Option DaemonState
  | .serial e =>
      if isDirect e then (w.serial.step e).map fun s => { w with serial := s } else none
  | .call i cmd =>
      match w.calls i, cmd with
      | some _, _ => none
      | none, .portStatus =>
          (w.serial.step (.call i .portStatus)).map fun s =>
            { w with serial := s }.setCall i (.start .portStatus)
      | none, cmd => some (w.setCall i (.start cmd))
  | .advance i bound => (w.calls i).bind (w.advance i bound)
  | .sigint =>
      match w.cleanup with
      | .idle => some { w with cleanup := .locking }
      | _ => none
  | .clean i => w.clean i
  | .connect h => w.ofServer (w.server.connect h)
  | .request h events => w.ofServer (w.server.request h events)
  | .leave h => w.ofServer (w.server.leave h)
  | .stream h order => w.ofServer (w.server.stream w.serial.serial h order)
  | .finish h => w.ofServer (w.server.finish h)
  | .serverReturn => w.ofServer w.server.serverReturn

def step (w : DaemonState) (e : HostEvent) : Option DaemonState :=
  match w.cleanup with
  | .exited => none
  | _ => w.live e

end DaemonState

/-- All runs of the daemon's state: the manager, the monitor and the clean-up. -/
def hosting : StepSystem DaemonState HostEvent where
  init := ⟨logging.init, none, .absent, none, fun _ => none, .idle⟩
  step := DaemonState.step

end Commmon

/-
# The whole process

The state that the connections share, and every connection with its session, its
request loop and its two tasks. A request line that is read is dispatched by its
command: what concerns only the session is done by the connection, the commands of
the serial manager and of the monitor are calls on the shared state, and
`write_port` and `port_status` hold the lock of the ports while they wait for
another one.

A step is what one task does without giving way, as in the parts it is made of.
Once the clean-up has ended the process there are no steps.
-/

import Commmon.MonitorServer
import Commmon.Teardown

set_option autoImplicit false

namespace Commmon

open Broadcast

/-- Who does what a request asks for. -/
inductive Route
  | session
  | manager (cmd : LogCommand)
  | monitor (cmd : MonitorCommand)
  | write
  | status

def route (req : Request) : Route :=
  match req.cmd with
  | "open_port" => .manager (.openPort req.args)
  | "close_port" => .manager (.closePort req.args)
  | "start_log" => .manager (.startLog req.args)
  | "update_log" => .manager (.updateLog req.args)
  | "stop_log" => .manager (.stopLog req.args)
  | "open_monitor" => .monitor (.openMonitor req.args)
  | "close_monitor" => .monitor .closeMonitor
  | "write_port" => .write
  | "port_status" => .status
  | _ => .session

namespace Dispatch

/-- What follows the answer of the serial manager. -/
def afterCall (s : ClientSession) (req : Request) (resp : Response) : Pc :=
  match req.cmd, resp.ok, req.args.strArg "port" with
  | "open_port", true, some port => .openEnsure port resp
  | "close_port", true, some port => closeSends s port resp
  | _, _, _ => .reply resp

/-- `write_port` before it takes a lock. `decoded` is what `hex::decode` makes of
the data. -/
def writeBytes (args : Value) (decoded : Except String (List UInt8)) :
    Except Response (String × List UInt8) :=
  match args.strArg "port", args.strArg "data" with
  | none, _ => .error portRequired
  | some _, none => .error (.ofError "data 파라미터가 필요합니다.")
  | some port, some data =>
      match (args.strArg "encoding").getD "ascii", decoded with
      | "hex", .ok bytes => .ok (port, bytes)
      | "hex", .error e => .error (.ofError s!"HEX 디코딩 실패: {e}")
      | _, _ => .ok (port, asBytes data)

/-- What `write_all` on the port leads to. -/
def written (port : String) (bytes : List UInt8) : Except String Unit → Response
  | .ok () => .successMsg s!"{port} 전송 완료 ({bytes.length} 바이트)"
  | .error e => .ofError s!"{port} 전송 실패: {e}"

end Dispatch

/-- Where a request stands that the connection alone does not do. Only a
`port_status` is ever `listing` or `listed`. -/
inductive Stage
  | ready
  | received (req : Request)
  | calling (req : Request) (i : CallId)
  | locating (req : Request) (port : String) (bytes : List UInt8)
  | writing (req : Request) (port : String) (k : ChannelId) (bytes : List UInt8)
  | listing (args : Value)
  | listed (args : Value) (resp : Response)

structure Conn where
  handler : Handler
  stage : Stage

/-- Who is called: the serial manager, or the monitor. Each numbers its own calls. -/
inductive Service
  | manager
  | monitor
  deriving DecidableEq

/-- The call that a request has made. -/
def Stage.call : Stage → Option (Service × CallId)
  | .calling req i =>
      match route req with
      | .manager _ => some (.manager, i)
      | .monitor _ => some (.monitor, i)
      | _ => none
  | _ => none

namespace Conn

/-- The request has come to a point of its own. -/
def respond (x : Conn) (req : Request) (pc : Pc) : Conn where
  handler := { x.handler with client := { x.handler.client with dispatch := some (req, pc) } }
  stage := .ready

/-- The request loop waits for a line. -/
def waits (x : Conn) : Bool :=
  match x.stage, x.handler.loop, x.handler.client.dispatch with
  | .ready, .serving, none => true
  | _, _, _ => false

/-- A line that is no request. -/
def inbound (x : Conn) (m : SerialManager) : Inbound → Option Conn
  | .request _ _ => none
  | i =>
      match x.stage with
      | .ready => (x.handler.receive m i).map fun r => { x with handler := r.2 }
      | _ => none

/-- A request that concerns the session. -/
def dispatch (x : Conn) (m : SerialManager) (env : Env) : Option Conn :=
  match x.stage with
  | .received req =>
      match route req with
      | .session =>
          let r := (Dispatch.start m x.handler.client.session req env).2
          some ({ x with handler := { x.handler with
            client := { x.handler.client with session := r.1 } } }.respond req r.2)
      | _ => none
  | _ => none

/-- `write_port` up to the lock of the ports. -/
def parse (x : Conn) (decoded : Except String (List UInt8)) : Option Conn :=
  match x.stage with
  | .received req =>
      match route req, Dispatch.writeBytes req.args decoded with
      | .write, .ok (port, bytes) => some { x with stage := .locating req port bytes }
      | .write, .error resp => some (x.respond req (.reply resp))
      | _, _ => none
  | _ => none

/-- `write_port` finds the port, and keeps the lock. -/
def locate (x : Conn) (m : SerialManager) : Option Conn :=
  match x.stage with
  | .locating req port bytes =>
      match m.ports.lookup port with
      | some op => some { x with stage := .writing req port op.tx bytes }
      | none => some (x.respond req (.reply (notOpen port)))
  | _ => none

def sent (x : Conn) (result : Except String Unit) : Option Conn :=
  match x.stage with
  | .writing req port _ bytes => some (x.respond req (.reply (Dispatch.written port bytes result)))
  | _ => none

/-- `port_status` takes the lock of the ports. -/
def list (x : Conn) : Option Conn :=
  match x.stage with
  | .received req =>
      match route req with
      | .status => some { x with stage := .listing req.args }
      | _ => none
  | _ => none

/-- `port_status` under both locks of the manager. -/
def status (x : Conn) (s : LogWorld) (env : Logs.LogEnv) : Option Conn :=
  match x.stage with
  | .listing args =>
      if env.order.Perm s.serial.ports.keys ∧ s.locked = none then
        some { x with stage := .listed args (s.logs.portStatus s.serial env) }
      else none
  | _ => none

/-- `port_status` under the mutex of the monitor. -/
def addMonitor (x : Conn) (w : DaemonState) : Option Conn :=
  match x.stage, w.holder with
  | .listed args resp, none =>
      some (x.respond ⟨"port_status", args⟩ (.reply (DaemonState.addMonitor resp w.monitor)))
  | _, _ => none

/-- A call of the connection has been answered. -/
def resume (x : Conn) (w : DaemonState) : Option Conn :=
  match x.stage with
  | .calling req i =>
      match route req, w.serial.calls i, w.calls i with
      | .manager _, some (.done (some resp)), _ =>
          some (x.respond req (Dispatch.afterCall x.handler.client.session req resp))
      | .monitor _, _, some (.done resp) => some (x.respond req (.reply resp))
      | _, _, _ => none
  | _ => none

/-- The request loop goes on, or one of the tasks. -/
def handle (x : Conn) (m : SerialManager) (notices : Channel Notification) (e : HandlerEvent) :
    Option Conn :=
  match e, x.stage with
  | .inbound _, _ => none
  | .proceed writeOk, .ready =>
      (x.handler.step m notices (.proceed writeOk)).map fun r => { x with handler := r.2 }
  | .proceed _, _ => none
  | e, _ => (x.handler.step m notices e).map fun r => { x with handler := r.2 }

end Conn

structure Process where
  host : DaemonState
  conns : ClientId → Option Conn

inductive ProcessEvent
  | host (e : HostEvent)
  | connect (c : ClientId)
  | line (c : ClientId) (req : Request)
  | inbound (c : ClientId) (i : Inbound)
  | dispatch (c : ClientId) (env : Env)
  | call (c : ClientId) (i : CallId)
  | own (c : ClientId) (e : HostEvent)
  | resume (c : ClientId)
  | parse (c : ClientId) (decoded : Except String (List UInt8))
  | locate (c : ClientId)
  | sent (c : ClientId) (result : Except String Unit)
  | list (c : ClientId)
  | status (c : ClientId) (env : Logs.LogEnv)
  | addMonitor (c : ClientId)
  | handle (c : ClientId) (e : HandlerEvent)

/-- The call that a step of the shared state belongs to. -/
def HostEvent.caller : HostEvent → Option (Service × CallId)
  | .serial (.advance i _) | .serial (.timeOut i) => some (.manager, i)
  | .advance i _ => some (.monitor, i)
  | _ => none

/-- A call is made. -/
def HostEvent.begins : HostEvent → Bool
  | .serial (.call _ _) | .call _ _ => true
  | _ => false

namespace DaemonState

/-- What is broadcast to the notify tasks. -/
def notices (w : DaemonState) : Channel Notification :=
  ⟨notifyCapacity, w.serial.logs.notified.map LogStopped.notification, 1⟩

/-- A step that belongs to no connection: to the clean-up, a log, a timer, a port
or the monitor's server. -/
def isFree (w : DaemonState) (e : HostEvent) : Bool :=
  !e.begins &&
  match e, w.cleanup with
  | .serial (.advance i _), .closing j => i == j
  | _, _ => e.caller == none

end DaemonState

namespace Process

def setConn (w : Process) (c : ClientId) (x : Conn) : Process :=
  { w with conns := Function.update w.conns c (some x) }

/-- A step of one connection that leaves the shared state alone. -/
def stepConn (w : Process) (c : ClientId) (f : Conn → Option Conn) : Option Process :=
  (w.conns c).bind fun x => (f x).map fun x' => w.setConn c x'

/-- The call that a request makes. -/
def callEvent (req : Request) (i : CallId) : Option HostEvent :=
  match route req with
  | .manager cmd => some (.serial (.call i cmd))
  | .monitor cmd => some (.call i cmd)
  | _ => none

def hostStep (w : Process) (e : HostEvent) : Option Process :=
  (w.host.step e).map fun h => { w with host := h }

/-- One step while the process runs. -/
def live (w : Process) : ProcessEvent → Option Process
  | .host e => if w.host.isFree e then w.hostStep e else none
  | .connect c =>
      match w.conns c with
      | some _ => none
      | none => some (w.setConn c ⟨.accept w.host.notices, .ready⟩)
  | .line c req =>
      w.stepConn c fun x => if x.waits then some { x with stage := .received req } else none
  | .inbound c i => w.stepConn c fun x => x.inbound w.host.serial.serial i
  | .dispatch c env => w.stepConn c fun x => x.dispatch w.host.serial.serial env
  | .call c i =>
      match w.conns c with
      | some ⟨handler, .received req⟩ =>
          (callEvent req i).bind fun e =>
            (w.hostStep e).map fun w' => w'.setConn c ⟨handler, .calling req i⟩
      | _ => none
  | .own c e =>
      (w.conns c).bind fun x =>
        if x.stage.call.isSome ∧ e.caller = x.stage.call then w.hostStep e else none
  | .resume c => w.stepConn c fun x => x.resume w.host
  | .parse c decoded => w.stepConn c fun x => x.parse decoded
  | .locate c => w.stepConn c fun x => x.locate w.host.serial.serial
  | .sent c result => w.stepConn c fun x => x.sent result
  | .list c => w.stepConn c fun x => x.list
  | .status c env => w.stepConn c fun x => x.status w.host.serial env
  | .addMonitor c => w.stepConn c fun x => x.addMonitor w.host
  | .handle c e => w.stepConn c fun x => x.handle w.host.serial.serial w.host.notices e

def step (w : Process) (e : ProcessEvent) : Option Process :=
  match w.host.cleanup with
  | .exited => none
  | _ => w.live e

end Process

/-- All runs of the process. -/
def process : StepSystem Process ProcessEvent where
  init := ⟨hosting.init, fun _ => none⟩
  step := Process.step

end Commmon

/-
# The MCP server and the daemon

The whole system is put together here from the daemon and the MCP server's
client. A connection hands over requests and lines in order, and a line is
handled as a message; how lines are cut out of what arrives does not matter to
what is kept here. Other clients of the daemon do what they like.

The session of a connection says which ports are subscribed and filtered. The
server keeps the same two sets as the keys of its buffers, and learns about a
change from the response to the request that made it.

A connection that is being made already takes requests. What an attempt that
fails leaves in the queue stays there, as in the client itself.
-/

import Commmon.DaemonSteps
import Commmon.ToolBuffers

set_option autoImplicit false

namespace Commmon

/-- The commands that tools only forward. -/
def forwardedCommands : List String :=
  ["list_ports", "write_port", "read_port", "start_log", "update_log", "stop_log", "port_status",
    "open_monitor", "close_monitor"]

/-- A call that one of the server's tools makes. -/
def ToolCall.Listed : ToolCall → Prop
  | .forward cmd _ => cmd ∈ forwardedCommands
  | _ => True

instance : DecidablePred ToolCall.Listed := fun tool =>
  match tool with
  | .forward cmd _ => inferInstanceAs (Decidable (cmd ∈ forwardedCommands))
  | .openPort .. | .closePort _ | .subscribeRx _ | .unsubscribeRx _ | .filterRx _ _
  | .addFilterRx _ _ | .unfilterRx _ => isTrue trivial

def Outgoing.toJson (showFloat : Rat → NumLit) : Outgoing → Json
  | .response _ resp => resp.toJson showFloat
  | .push p => p.notification.toJson showFloat

namespace McpServer

/-- The data handler at one message. -/
def receive (s : McpServer) (msg : Json) : McpServer :=
  let r := s.client.handle msg
  { s with client := r.1, settled := s.settled ++ r.2.toList }

/-- The close handler. -/
def close (s : McpServer) : McpServer :=
  let r := s.client.onClose
  { s with client := r.1, settled := s.settled ++ r.2 }

end McpServer

inductive Link
  | down
  | dialing
  | up (c : ClientId)
  deriving DecidableEq

/-- `outbox` is what the daemon has not read of the connection, and `seen` is
how many of the daemon's lines the server has handled. -/
structure McpDaemon where
  mcp : McpServer
  link : Link
  outbox : List Request
  seen : ℕ
  world : World

/-- The call that dials goes on with `call` after `connected`. -/
inductive McpDaemonEvent
  | dial
  | connected (c : ClientId)
  | dialFailed
  | call (tool : ToolCall)
  | receive
  | resume
  | readRxStream (port : String) (clear : Bool)
  | readFilterHits (port : String) (clear : Bool)
  | lost
  | restart
  | take (env : Env)
  | daemon (e : Event)

namespace McpDaemon

/-- The daemon's client at the other end of the connection. -/
def current (w : McpDaemon) : Option Client :=
  match w.link with
  | .up c => w.world.clients c
  | .down | .dialing => none

/-- Requests on the connection come from the server, and it ends by `lost`. -/
def Free (w : McpDaemon) : Event → Prop
  | .client c (.request _ _) => w.link ≠ .up c
  | .disconnect c => w.link ≠ .up c
  | _ => True

instance (w : McpDaemon) : DecidablePred w.Free := fun e =>
  match e with
  | .client c (.request _ _) => inferInstanceAs (Decidable (w.link ≠ .up c))
  | .disconnect c => inferInstanceAs (Decidable (w.link ≠ .up c))
  | .client _ .dispatch | .client _ (.task _ _) | .connect _ | .deliver _ _ | .endReadTask _ =>
      isTrue trivial

/-- The connection ends. What is resolved has been resumed. -/
def lose (w : McpDaemon) : Option McpDaemon :=
  if w.mcp.resumed = w.mcp.settled.length then
    some { w with mcp := w.mcp.close, link := .down, outbox := [] }
  else none

def step (showFloat : Rat → NumLit) (w : McpDaemon) : McpDaemonEvent → Option McpDaemon
  | .dial => if w.link = .down then some { w with link := .dialing } else none
  | .connected c =>
      if w.link = .dialing then
        (w.world.step (.connect c)).map fun world =>
          { w with link := .up c, seen := 0, world := world }
      else none
  | .dialFailed =>
      if w.link = .dialing then some { w with link := .down, outbox := [] } else none
  | .call tool =>
      if w.link ≠ .down ∧ tool.Listed then
        (w.mcp.step (.call tool)).map fun mcp =>
          { w with mcp := mcp, outbox := w.outbox ++ [tool.request] }
      else none
  | .receive =>
      (w.current.bind fun cl => cl.written[w.seen]?).map fun line =>
        { w with mcp := w.mcp.receive (line.toJson showFloat), seen := w.seen + 1 }
  | .resume => (w.mcp.step .resume).map fun mcp => { w with mcp := mcp }
  | .readRxStream port clear =>
      (w.mcp.step (.readRxStream port clear)).map fun mcp => { w with mcp := mcp }
  | .readFilterHits port clear =>
      (w.mcp.step (.readFilterHits port clear)).map fun mcp => { w with mcp := mcp }
  | .lost =>
      match w.link with
      | .up _ => w.lose
      | .down | .dialing => none
  | .restart =>
      match w.link with
      | .up _ => w.lose.map fun w' => { w' with world := daemon.init }
      | .down | .dialing => some { w with world := daemon.init }
  | .take env =>
      match w.link, w.outbox with
      | .up c, req :: rest =>
          (w.world.step (.client c (.request req env))).map fun world =>
            { w with outbox := rest, world := world }
      | _, _ => none
  | .daemon e =>
      if w.Free e then (w.world.step e).map fun world => { w with world := world } else none

end McpDaemon

/-- All runs of the server with the daemon. -/
def mcpDaemon (showFloat : Rat → NumLit) : StepSystem McpDaemon McpDaemonEvent where
  init := ⟨mcpServer.init, .down, [], 0, daemon.init⟩
  step := McpDaemon.step showFloat

/-- What a session has registered. -/
def ClientSession.registered (s : ClientSession) : BufferKind → String → Bool
  | .rxStream, port => port ∈ s.rxSubscriptions
  | .filterHits, port => (s.filterSubscriptions.lookup port).isSome

namespace McpDaemon

/-- What the session of the connection has registered. -/
def registered (w : McpDaemon) (kind : BufferKind) (port : String) : Bool :=
  match w.current with
  | some cl => cl.session.registered kind port
  | none => false

/-- No request is in flight: every promise is resolved, and its call has gone
on. -/
def Quiet (w : McpDaemon) : Prop :=
  w.mcp.client.pending = [] ∧ w.mcp.resumed = w.mcp.settled.length

/-- Both sides have the same ports, and a read says so. -/
structure Agrees (w : McpDaemon) : Prop where
  rxStream : ∀ port,
    (w.mcp.client.rxStreamBuffers.lookup port).isSome = w.registered .rxStream port
  filterHits : ∀ port,
    (w.mcp.client.filterHits.lookup port).isSome = w.registered .filterHits port
  readRxStream : ∀ port clear,
    (∃ message, (w.mcp.client.readRxStream port clear).2 = .error message) ↔
      w.registered .rxStream port = false
  readFilterHits : ∀ port clear,
    (∃ message, (w.mcp.client.readFilterHits port clear).2 = .error message) ↔
      w.registered .filterHits port = false

end McpDaemon

/-- The registration that a request may change. -/
def Request.target (req : Request) : Option (BufferKind × String) :=
  (req.args.strArg "port").bind fun port =>
    if req.cmd ∈ ["subscribe_rx", "unsubscribe_rx"] then some (.rxStream, port)
    else if req.cmd ∈ ["filter_rx", "add_filter_rx", "unfilter_rx"] then
      some (.filterHits, port)
    else none

/-- Whether a request makes its registration. -/
def Request.registers (req : Request) : Bool :=
  req.cmd ∈ ["subscribe_rx", "filter_rx", "add_filter_rx"]

/-- A registration after a request that has succeeded, or not. -/
def noted (key : BufferKind × String) (b : Bool) (answer : Request × Bool) : Bool :=
  if answer.2 = true ∧ answer.1.target = some key then answer.1.registers else b

def Outgoing.answer : Outgoing → Option (Request × Bool)
  | .response req resp => some (req, resp.ok)
  | .push _ => none

/-- The responses that are resolved, but whose calls have not gone on. -/
def McpServer.unresumed (s : McpServer) : List (Request × Bool) :=
  (s.settled.drop s.resumed).filterMap fun x =>
    s.calls[x.1]?.map fun tool => (tool.request, ToolCall.succeeded x.2)

namespace McpServer

/-- Whether there is a buffer. -/
def has (s : McpServer) (key : BufferKind × String) : Bool :=
  (s.client.bufferOf key.1 key.2).isSome

/-- Whether there is a buffer once what is resolved has gone on. -/
def willHave (s : McpServer) (key : BufferKind × String) : Bool :=
  s.unresumed.foldl (noted key) (s.has key)

end McpServer

/-- The responses in what is written to a client from a line on. -/
def Client.answers (cl : Client) (seen : ℕ) : List (Request × Bool) :=
  (cl.written.drop seen).filterMap Outgoing.answer

namespace McpDaemon

/-- Whether the server will have a buffer once it has handled what is written. -/
def mirrored (w : McpDaemon) (key : BufferKind × String) : Bool :=
  match w.current with
  | some cl => (cl.answers w.seen).foldl (noted key) (w.mcp.willHave key)
  | none => w.mcp.willHave key

end McpDaemon

/-- What a command to a streaming task registers. -/
def RxSubCommand.registers : RxSubCommand → Option (BufferKind × String)
  | .subscribe port _ => some (.rxStream, port)
  | .addFilter port _ _ => some (.filterHits, port)
  | .unsubscribe _ | .removeFilter _ | .setFilterKeywords _ _ => none

namespace McpDaemon

/-- What a command under way must not do: forget a port that is registered, or
fail after it has registered a port that the server does not have. -/
def HarmlessPc (w : McpDaemon) (cl : Client) : Pc → Prop
  | .onPortClosed port _ =>
      port ∉ cl.session.rxSubscriptions ∧ cl.session.filterSubscriptions.lookup port = none
  | .send cmd _ =>
      cl.task.isEnded = true → ∀ key ∈ cmd.registers, w.mirrored key = true
  | _ => True

/-- A step that breaks no agreement: the connection does not end while there are
buffers, no call waits for an attempt that fails, and the session registers and
forgets nothing but what its responses tell. -/
def Harmless (w : McpDaemon) : McpDaemonEvent → Prop
  | .dialFailed => w.mcp.client.pending = []
  | .lost => w.mcp.client.rxStreamBuffers.keys = [] ∧ w.mcp.client.filterHits.keys = []
  | .restart =>
      w.current.isSome →
        w.mcp.client.rxStreamBuffers.keys = [] ∧ w.mcp.client.filterHits.keys = []
  | .daemon (.client c .dispatch) =>
      w.link = .up c → ∀ cl ∈ w.world.clients c, ∀ x ∈ cl.dispatch, w.HarmlessPc cl x.2
  | _ => True

instance (w : McpDaemon) : Decidable w.Quiet := inferInstanceAs (Decidable (_ ∧ _))

instance (w : McpDaemon) (cl : Client) : DecidablePred (w.HarmlessPc cl) := fun pc =>
  match pc with
  | .onPortClosed _ _ => inferInstanceAs (Decidable (_ ∧ _))
  | .send _ _ => inferInstanceAs (Decidable (_ → _))
  | .openEnsure _ _ | .subscribeTake _ | .filterTake _ _ _ | .readEnsure _ _ | .drain _ _
  | .tell _ _ | .reply _ => isTrue trivial

instance (w : McpDaemon) : DecidablePred w.Harmless := fun e =>
  match e with
  | .dialFailed => inferInstanceAs (Decidable (_ = _))
  | .lost => inferInstanceAs (Decidable (_ ∧ _))
  | .restart => inferInstanceAs (Decidable (_ → _))
  | .daemon (.client _ .dispatch) => inferInstanceAs (Decidable (_ → _))
  | .daemon (.client _ (.request _ _)) | .daemon (.client _ (.task _ _)) | .daemon (.connect _)
  | .daemon (.disconnect _) | .daemon (.deliver _ _) | .daemon (.endReadTask _) | .dial
  | .connected _ | .call _ | .receive | .resume | .readRxStream _ _ | .readFilterHits _ _
  | .take _ => isTrue trivial

end McpDaemon

end Commmon

/-
# The MCP server's side of a connection

The MCP server keeps one client of the daemon. Its tools send requests, and each
request leaves the `resolve` of a promise in a queue. The data handler takes the
lines out of what arrives: a notification goes to the buffer of its port, and
any other message to the promise at the front of the queue.

A tool that changes what the client is subscribed to has one more thing to do
after its promise is resolved: it makes the buffer of the port, or drops it.
-/

import Commmon.Daemon
import Commmon.Wire

set_option autoImplicit false

namespace Commmon

/-- A number is zero if it is not greater than half of the least double. -/
def roundsToZero (n : NumLit) : Bool :=
  match Json.readDecimal n.text with
  | some (m, e) =>
      decide (m.natAbs * Nat.pow 10 e.toNat * Nat.pow 2 1075 ≤ Nat.pow 10 (-e).toNat)
  | none => true

/-- What a condition takes for true. -/
def truthy : Json → Bool
  | .null => false
  | .bool b => b
  | .num n => !roundsToZero n
  | .str s => s ≠ ""
  | .arr _ => true
  | .obj _ => true

/-- The white space of `String.prototype.trim`. -/
def isJsSpace (c : Char) : Bool :=
  c.toNat ∈ [0x9, 0xA, 0xB, 0xC, 0xD, 0x20, 0xA0, 0x1680, 0x2000, 0x2001, 0x2002, 0x2003, 0x2004,
    0x2005, 0x2006, 0x2007, 0x2008, 0x2009, 0x200A, 0x2028, 0x2029, 0x202F, 0x205F, 0x3000, 0xFEFF]

/-- Sends are numbered; a number stands for the `resolve` of the send's
promise. -/
abbrev SendId := ℕ

abbrev SocketId := ℕ

def maxRxStreamEntries : ℕ := 500

structure DaemonClient where
  socket : Option SocketId
  pending : List SendId
  buffer : List Char
  rxStreamBuffers : Table String (List Json)
  filterHits : Table String (List Json)

namespace DaemonClient

def new : DaemonClient := ⟨none, [], [], ∅, ∅⟩

/-- Append to the buffer of the message's port, if there is one, and let the
oldest messages go. -/
def pushTo (buffers : Table String (List Json)) (data : Json) : Table String (List Json) :=
  match data.get "port" with
  | some (.str port) =>
      match buffers.lookup port with
      | some buf =>
          if port ≠ "" then
            buffers.insert port ((buf ++ [data]).rtake maxRxStreamEntries)
          else buffers
      | none => buffers
  | _ => buffers

def onNotify (c : DaemonClient) (notify : Json) (data : Option Json) : DaemonClient :=
  match notify, data with
  | .str "rx_data", some data =>
      if truthy data then { c with rxStreamBuffers := pushTo c.rxStreamBuffers data } else c
  | .str "filter_hit", some data =>
      if truthy data then { c with filterHits := pushTo c.filterHits data } else c
  | _, _ => c

/-- A message, and the promise that it resolves. Reading a field of `null`
throws, and what is thrown is dropped. -/
def handle (c : DaemonClient) : Json → DaemonClient × Option (SendId × Json)
  | .null => (c, none)
  | msg =>
      match (msg.get "notify").filter truthy with
      | some notify => (c.onNotify notify (msg.get "data"), none)
      | none =>
          match c.pending with
          | i :: rest => ({ c with pending := rest }, some (i, msg))
          | [] => (c, none)

def onLine (c : DaemonClient) (line : List Char) : DaemonClient × Option (SendId × Json) :=
  let line := trim isJsSpace line
  if line = [] then (c, none)
  else
    match Json.parse line with
    | some msg => c.handle msg
    | none => (c, none)

/-- The loop of the data handler. -/
def onLines : DaemonClient → List (List Char) → DaemonClient × List (SendId × Json)
  | c, [] => (c, [])
  | c, line :: lines =>
      let r := c.onLine line
      let rs := onLines r.1 lines
      (rs.1, r.2.toList ++ rs.2)

/-- The data handler. -/
def onData (c : DaemonClient) (chunk : List Char) : DaemonClient × List (SendId × Json) :=
  let r := LineBuffer.split '\n' (c.buffer ++ chunk)
  { c with buffer := r.2 }.onLines r.1

def connectionLost : Json :=
  .obj [("ok", .bool false), ("error", .str "데몬 연결이 끊어졌습니다.")]

/-- The close handler, and the promises that it resolves. -/
def onClose (c : DaemonClient) : DaemonClient × List (SendId × Json) :=
  ({ c with pending := [], socket := none }, c.pending.map fun i => (i, connectionLost))

/-- The part of `send` after the connection, without the write. -/
def push (c : DaemonClient) (i : SendId) : DaemonClient := { c with pending := c.pending ++ [i] }

end DaemonClient

/-- The line that `send` writes. -/
def requestText (cmd : String) (args : Json) : List Char :=
  (Json.obj [("cmd", .str cmd), ("args", args)]).print

/-- A call of a tool. The arguments of a tool that only forwards its command
are not looked at here. -/
inductive ToolCall
  | openPort (port : String) (baudRate : Number) (dataBits stopBits parity : String)
  | closePort (port : String)
  | subscribeRx (port : String)
  | unsubscribeRx (port : String)
  | filterRx (port : String) (keywords : List String)
  | addFilterRx (port : String) (keywords : List String)
  | unfilterRx (port : String)
  | forward (cmd : String) (args : Value)

namespace ToolCall

def portArg (port : String) : Value := .object [("port", .string port)]

def keywordArgs (port : String) (keywords : List String) : Value :=
  .object [("port", .string port), ("keywords", .array (keywords.map .string))]

/-- What the tool sends. -/
def request : ToolCall → Request
  | openPort port baudRate dataBits stopBits parity =>
      ⟨"open_port", .object [("port", .string port), ("baudRate", .number baudRate),
        ("dataBits", .string dataBits), ("stopBits", .string stopBits),
        ("parity", .string parity)]⟩
  | closePort port => ⟨"close_port", portArg port⟩
  | subscribeRx port => ⟨"subscribe_rx", portArg port⟩
  | unsubscribeRx port => ⟨"unsubscribe_rx", portArg port⟩
  | filterRx port keywords => ⟨"filter_rx", keywordArgs port keywords⟩
  | addFilterRx port keywords => ⟨"add_filter_rx", keywordArgs port keywords⟩
  | unfilterRx port => ⟨"unfilter_rx", portArg port⟩
  | forward cmd args => ⟨cmd, args⟩

/-- Whether the response is taken for a success. -/
def succeeded (resp : Json) : Bool := ((resp.get "ok").map truthy).getD false

/-- What the tool does with its response before it answers. -/
def resume (call : ToolCall) (c : DaemonClient) (resp : Json) : DaemonClient :=
  if succeeded resp then
    match call with
    | subscribeRx port => { c with rxStreamBuffers := c.rxStreamBuffers.insert port [] }
    | unsubscribeRx port => { c with rxStreamBuffers := c.rxStreamBuffers.erase port }
    | filterRx port _ => { c with filterHits := c.filterHits.insert port [] }
    | addFilterRx port _ =>
        if (c.filterHits.lookup port).isSome then c
        else { c with filterHits := c.filterHits.insert port [] }
    | unfilterRx port => { c with filterHits := c.filterHits.erase port }
    | openPort .. | closePort _ | forward .. => c
  else c

end ToolCall

/-- The tools that read a buffer differ in the map and in what they say without
one. -/
def readBuffer (buffers : Table String (List Json)) (missing : String) (port : String)
    (clear : Bool) : Table String (List Json) × Except String (List Json) :=
  match buffers.lookup port with
  | none => (buffers, .error missing)
  | some buf => (if clear then buffers.insert port [] else buffers, .ok buf)

namespace DaemonClient

def readRxStream (c : DaemonClient) (port : String) (clear : Bool) :
    DaemonClient × Except String (List Json) :=
  let r := readBuffer c.rxStreamBuffers
    s!"{port}는 구독 중이 아닙니다. 먼저 subscribe_rx를 호출하세요." port clear
  ({ c with rxStreamBuffers := r.1 }, r.2)

def readFilterHits (c : DaemonClient) (port : String) (clear : Bool) :
    DaemonClient × Except String (List Json) :=
  let r := readBuffer c.filterHits
    s!"{port}에 등록된 필터가 없습니다. 먼저 filter_rx를 호출하세요." port clear
  ({ c with filterHits := r.1 }, r.2)

variable {c : DaemonClient}

@[simp]
theorem pending_onNotify (notify : Json) (data : Option Json) :
    (c.onNotify notify data).pending = c.pending := by
  unfold onNotify
  split <;> (try split_ifs) <;> rfl

@[simp]
theorem buffer_onNotify (notify : Json) (data : Option Json) :
    (c.onNotify notify data).buffer = c.buffer := by
  unfold onNotify
  split <;> (try split_ifs) <;> rfl

@[simp]
theorem socket_onNotify (notify : Json) (data : Option Json) :
    (c.onNotify notify data).socket = c.socket := by
  unfold onNotify
  split <;> (try split_ifs) <;> rfl

section Messages

variable (showFloat : Rat → NumLit)

theorem handle_response (resp : Response) : c.handle (resp.toJson showFloat) =
    match c.pending with
    | i :: rest => ({ c with pending := rest }, some (i, resp.toJson showFloat))
    | [] => (c, none) := by
  have hnotify := resp.get_notify showFloat
  have hobj : ∃ fields, resp.toJson showFloat = .obj fields := ⟨_, rfl⟩
  obtain ⟨fields, hobj⟩ := hobj
  rw [hobj] at hnotify ⊢
  rw [handle, hnotify]
  · rfl
  · simp

theorem handle_notification {n : Notification} (hname : n.notify ≠ "") :
    c.handle (n.toJson showFloat) =
      (c.onNotify (.str n.notify) (some (n.data.toJson showFloat)), none) := by
  have hnotify := n.get_notify showFloat
  have hdata := n.get_data showFloat
  have hobj : ∃ fields, n.toJson showFloat = .obj fields := ⟨_, rfl⟩
  obtain ⟨fields, hobj⟩ := hobj
  rw [hobj] at hnotify hdata ⊢
  have htruthy : truthy (.str n.notify) = true := by simpa [truthy] using hname
  rw [handle, hnotify, hdata, Option.filter_some, if_pos htruthy]
  simp

end Messages

/-- The text of an object is read as the object. -/
theorem onLine_print (fields : List (String × Json)) :
    c.onLine (Json.obj fields).print = c.handle (.obj fields) := by
  have hopen : isJsSpace '{' = false := by decide
  have hclose : isJsSpace '}' = false := by decide
  have htrim := trim_print_obj hopen hclose fields
  have hne : (Json.obj fields).print ≠ [] := by simp [Json.print]
  simp [onLine, htrim, hne, Json.parse_print]

end DaemonClient

end Commmon

/-
# The daemon: clients, their commands and their streaming tasks

The daemon shares one serial manager among its clients. Each client has a task
that reads request lines and dispatches them one at a time, a streaming task
that pushes received data and scans it for keywords, and a bounded queue through
which the first tells the second what to stream.

A step is what one task does without giving way: one critical section of the
port table, one receive, one send on a queue, one line written. Where a command
gives way in its middle, the rest of it is a `Pc`, so everything that other
tasks may do in between is a run of this system. The order in which a hash map
is visited, the success of a write and the answers of the operating system are
part of the labels.
-/

import Commmon.FilterRun
import Commmon.Session

set_option autoImplicit false

namespace Commmon

open Broadcast

inductive RxSubCommand
  | subscribe (port : String) (rx : Receiver)
  | unsubscribe (port : String)
  | addFilter (port : String) (keywords : List String) (rx : Receiver)
  | removeFilter (port : String)
  | setFilterKeywords (port : String) (keywords : List String)

/-- The bound of a client's command queue. -/
def queueCapacity : ℕ := 16

/-- What a streaming task streams: the ports it pushes, and its filters. -/
structure TaskMaps where
  rxReceivers : Table String Receiver
  filterStates : Table String FilterState

/-- `apply_cmd`. A new keyword list for a filter that is not there is ignored. -/
def TaskMaps.apply (maps : TaskMaps) : RxSubCommand → TaskMaps
  | .subscribe port rx => { maps with rxReceivers := maps.rxReceivers.insert port rx }
  | .unsubscribe port => { maps with rxReceivers := maps.rxReceivers.erase port }
  | .addFilter port keywords rx =>
      { maps with filterStates := maps.filterStates.insert port (.new rx keywords) }
  | .removeFilter port => { maps with filterStates := maps.filterStates.erase port }
  | .setFilterKeywords port keywords =>
      match maps.filterStates.lookup port with
      | some st =>
          { maps with filterStates := maps.filterStates.insert port (st.setKeywords keywords) }
      | none => maps

/-- A line that the client did not ask for. -/
inductive Push
  | rxData (port : String) (a : Arrival)
  | filterHit (port : String) (hit : FilterHit)

/-- A line to a client. A response is kept with its request. -/
inductive Outgoing
  | response (req : Request) (resp : Response)
  | push (p : Push)

/-- Lower-case hexadecimal digits. -/
def hexEncode (data : List UInt8) : String :=
  String.ofList (data.flatMap fun b => [(b.toNat / 16).digitChar, (b.toNat % 16).digitChar])

def Push.notification : Push → Notification
  | .rxData port a =>
      { notify := "rx_data"
        data := .object
          [("port", .string port), ("timestamp", .string a.entry.timestamp),
            ("ascii", .string (Utf8Lossy.decode a.entry.data)),
            ("hex", .string (hexEncode a.entry.data))] }
  | .filterHit port hit =>
      { notify := "filter_hit"
        data := .object
          [("port", .string port), ("keyword", .string hit.keyword),
            ("timestamp", .string hit.timestamp), ("context", .string hit.context)] }

/-- Where a streaming task stands in its loop. A polling pass visits the keys of
a map in the order `todo`, and collects those whose channel has closed; `lines`
is what an entry just received still has to write. -/
inductive TaskPc
  | commands
  | waiting
  | pollRx (lines : List Push) (todo closed : List String) (gotData : Bool)
  | pollFilters (lines : List Push) (todo closed : List String) (gotData : Bool)
  | sleeping
  | ended

structure StreamTask where
  maps : TaskMaps
  pc : TaskPc

namespace StreamTask

def new : StreamTask := ⟨⟨∅, ∅⟩, .commands⟩

/-- A task that returns drops what it holds. -/
def stopped : StreamTask := ⟨⟨∅, ∅⟩, .ended⟩

def isEnded (t : StreamTask) : Bool :=
  match t.pc with
  | .ended => true
  | _ => false

/-- One receive of the pushing pass at its first port. -/
def pollRxAt (t : StreamTask) (m : SerialManager) (port : String) (todo closed : List String)
    (gotData : Bool) : StreamTask :=
  match t.maps.rxReceivers.lookup port with
  | none => { t with pc := .pollRx [] todo closed gotData }
  | some rx =>
      match m.tryRecv rx with
      | (.ok pos entry, rx') =>
          { maps := { t.maps with rxReceivers := t.maps.rxReceivers.insert port rx' }
            pc := .pollRx [.rxData port ⟨rx.chan, pos, entry⟩] (port :: todo) closed true }
      | (.lagged _, rx') =>
          { maps := { t.maps with rxReceivers := t.maps.rxReceivers.insert port rx' }
            pc := .pollRx [] (port :: todo) closed gotData }
      | (.empty, _) => { t with pc := .pollRx [] todo closed gotData }
      | (.closed, _) => { t with pc := .pollRx [] todo (closed ++ [port]) gotData }

/-- One receive of the filtering pass at its first port. A lagged receiver
leaves carry as it is. -/
def pollFilterAt (t : StreamTask) (m : SerialManager) (port : String)
    (todo closed : List String) (gotData : Bool) : StreamTask :=
  match t.maps.filterStates.lookup port with
  | none => { t with pc := .pollFilters [] todo closed gotData }
  | some st =>
      match m.tryRecv st.rx with
      | (.ok _ entry, rx') =>
          match { st with rx := rx' }.scan entry with
          | none => stopped
          | some (hits, st') =>
              { maps := { t.maps with filterStates := t.maps.filterStates.insert port st' }
                pc := .pollFilters (hits.flatten.map (.filterHit port)) (port :: todo)
                  closed true }
      | (.lagged _, rx') =>
          { maps := { t.maps with
              filterStates := t.maps.filterStates.insert port { st with rx := rx' } }
            pc := .pollFilters [] (port :: todo) closed gotData }
      | (.empty, _) => { t with pc := .pollFilters [] todo closed gotData }
      | (.closed, _) => { t with pc := .pollFilters [] todo (closed ++ [port]) gotData }

/-- One step of the task, with what is left of its queue and what it writes.
`order` is the order in which the next pass visits its map. -/
def step (t : StreamTask) (m : SerialManager) (queue : List RxSubCommand)
    (order : List String) (writeOk : Bool) :
    Option (StreamTask × List RxSubCommand × List Push) :=
  match t.pc with
  | .commands =>
      match queue with
      | cmd :: rest => some ({ t with maps := t.maps.apply cmd }, rest, [])
      | [] =>
          if t.maps.rxReceivers.keys.isEmpty && t.maps.filterStates.keys.isEmpty then
            some ({ t with pc := .waiting }, [], [])
          else if order.Perm t.maps.rxReceivers.keys then
            some ({ t with pc := .pollRx [] order [] false }, [], [])
          else none
  | .waiting =>
      match queue with
      | cmd :: rest => some ({ maps := t.maps.apply cmd, pc := .commands }, rest, [])
      | [] => none
  | .pollRx (line :: lines) todo closed gotData =>
      if writeOk then some ({ t with pc := .pollRx lines todo closed gotData }, queue, [line])
      else some (stopped, [], [])
  | .pollRx [] (port :: todo) closed gotData =>
      some (t.pollRxAt m port todo closed gotData, queue, [])
  | .pollRx [] [] closed gotData =>
      if order.Perm t.maps.filterStates.keys then
        some ({ maps := { t.maps with
                  rxReceivers := Table.eraseAll t.maps.rxReceivers closed }
                pc := .pollFilters [] order [] gotData }, queue, [])
      else none
  | .pollFilters (line :: lines) todo closed gotData =>
      if writeOk then
        some ({ t with pc := .pollFilters lines todo closed gotData }, queue, [line])
      else some (stopped, [], [])
  | .pollFilters [] (port :: todo) closed gotData =>
      let t' := t.pollFilterAt m port todo closed gotData
      some (t', if t'.isEnded then [] else queue, [])
  | .pollFilters [] [] closed gotData =>
      some ({ maps := { t.maps with
                filterStates := Table.eraseAll t.maps.filterStates closed }
              pc := if gotData then .commands else .sleeping }, queue, [])
  | .sleeping => some ({ t with pc := .commands }, queue, [])
  | .ended => none

end StreamTask

/-- The rest of a command that has given way. A `send` whose streaming task is
gone fails the command; a `tell` ignores that and goes on. -/
inductive Pc
  | openEnsure (port : String) (resp : Response)
  | onPortClosed (port : String) (resp : Response)
  | subscribeTake (port : String)
  | filterTake (port : String) (keywords : List String) (success : String)
  | readEnsure (port : String) (clear : Bool)
  | drain (port : String) (clear : Bool)
  | send (cmd : RxSubCommand) (success : String)
  | tell (cmd : RxSubCommand) (next : Pc)
  | reply (resp : Response)

/-- What the environment answers within one command: whether the device opens,
and the response of a command that neither a session nor the port table has a
part in. -/
structure Env where
  opened : Except String Unit
  manager : Response

/-- Accumulate new keywords, leaving out those that are there. -/
def mergeKeywords (existing new : List String) : List String :=
  new.foldl (fun acc kw => if kw ∈ acc then acc else acc ++ [kw]) existing

def portRequired : Response := .ofError "port 파라미터가 필요합니다."

def notOpen (port : String) : Response := .ofError s!"{port}가 열려 있지 않습니다."

def deliveryFailed : Response := .ofError "스트리밍 태스크 전달 실패"

namespace Dispatch

def openPort (m : SerialManager) (s : ClientSession) (args : Value)
    (opened : Except String Unit) : SerialManager × ClientSession × Pc :=
  let r := m.openPort args opened
  match r.2.ok, args.strArg "port" with
  | true, some port => (r.1, s, .openEnsure port r.2)
  | _, _ => (r.1, s, .reply r.2)

/-- Tell the streaming task what to drop, then forget the port. -/
def closeSends (s : ClientSession) (port : String) (resp : Response) : Pc :=
  let last := Pc.onPortClosed port resp
  let second :=
    if (s.filterSubscriptions.lookup port).isSome then .tell (.removeFilter port) last
    else last
  if port ∈ s.rxSubscriptions then .tell (.unsubscribe port) second else second

def closePort (m : SerialManager) (s : ClientSession) (args : Value) :
    SerialManager × ClientSession × Pc :=
  let r := m.closePort args
  match r.2.ok, args.strArg "port" with
  | true, some port => (r.1, s, closeSends s port r.2)
  | _, _ => (r.1, s, .reply r.2)

def subscribeRx (m : SerialManager) (s : ClientSession) (args : Value) : ClientSession × Pc :=
  match args.strArg "port" with
  | none => (s, .reply portRequired)
  | some port =>
      if !m.isPortOpen port then (s, .reply (notOpen port))
      else if port ∈ s.rxSubscriptions then
        (s, .reply (.ofError s!"{port}는 이미 구독 중입니다."))
      else (s, .subscribeTake port)

def unsubscribeRx (s : ClientSession) (args : Value) : ClientSession × Pc :=
  match args.strArg "port" with
  | none => (s, .reply portRequired)
  | some port =>
      if port ∈ s.rxSubscriptions then
        ({ s with rxSubscriptions := s.rxSubscriptions.erase port },
          .tell (.unsubscribe port) (.reply (.successMsg s!"{port} 실시간 RX 구독 해제")))
      else (s, .reply (.ofError s!"{port}는 구독 중이 아닙니다."))

def filterRx (m : SerialManager) (s : ClientSession) (args : Value) : ClientSession × Pc :=
  match args.strArg "port" with
  | none => (s, .reply portRequired)
  | some port =>
      match keywordsArg args with
      | none => (s, .reply (.ofError "keywords 파라미터(문자열 배열)가 필요합니다."))
      | some keywords =>
          if keywords.isEmpty then (s, .reply (.ofError "등록할 키워드가 없습니다."))
          else if !m.isPortOpen port then (s, .reply (notOpen port))
          else
            let keywordList := ", ".intercalate keywords
            (s, .filterTake port keywords s!"{port} 키워드 필터 등록: {keywordList}")

def addFilterRx (m : SerialManager) (s : ClientSession) (args : Value) : ClientSession × Pc :=
  match args.strArg "port" with
  | none => (s, .reply portRequired)
  | some port =>
      match keywordsArg args with
      | none => (s, .reply (.ofError "keywords 파라미터(문자열 배열)가 필요합니다."))
      | some newKeywords =>
          if newKeywords.isEmpty then (s, .reply (.ofError "추가할 키워드가 없습니다."))
          else if !m.isPortOpen port then (s, .reply (notOpen port))
          else
            match s.filterSubscriptions.lookup port with
            | some existing =>
                let merged := mergeKeywords existing newKeywords
                let keywordList := ", ".intercalate merged
                ({ s with filterSubscriptions := s.filterSubscriptions.insert port merged },
                  .send (.setFilterKeywords port merged)
                    s!"{port} 키워드 필터 추가 완료. 현재: {keywordList}")
            | none =>
                let keywordList := ", ".intercalate newKeywords
                (s, .filterTake port newKeywords
                  s!"{port} 키워드 필터 신규 등록: {keywordList}")

def unfilterRx (s : ClientSession) (args : Value) : ClientSession × Pc :=
  match args.strArg "port" with
  | none => (s, .reply portRequired)
  | some port =>
      if (s.filterSubscriptions.lookup port).isSome then
        ({ s with filterSubscriptions := s.filterSubscriptions.erase port },
          .tell (.removeFilter port) (.reply (.successMsg s!"{port} 키워드 필터 해제")))
      else (s, .reply (.ofError s!"{port}에 등록된 필터가 없습니다."))

/-- Whether a read clears the buffer; it does unless told otherwise. -/
def clearArg (args : Value) : Bool := ((args.get "clear").bind Value.asBool).getD true

def readPort (m : SerialManager) (s : ClientSession) (args : Value) : ClientSession × Pc :=
  match args.strArg "port" with
  | none => (s, .reply portRequired)
  | some port =>
      if !m.isPortOpen port then (s, .reply (notOpen port))
      else (s, .readEnsure port (clearArg args))

/-- A command up to where it first gives way. -/
def start (m : SerialManager) (s : ClientSession) (req : Request) (env : Env) :
    SerialManager × ClientSession × Pc :=
  match req.cmd with
  | "open_port" => openPort m s req.args env.opened
  | "close_port" => closePort m s req.args
  | "subscribe_rx" => (m, subscribeRx m s req.args)
  | "unsubscribe_rx" => (m, unsubscribeRx s req.args)
  | "filter_rx" => (m, filterRx m s req.args)
  | "add_filter_rx" => (m, addFilterRx m s req.args)
  | "unfilter_rx" => (m, unfilterRx s req.args)
  | "read_port" => (m, readPort m s req.args)
  | "list_ports" | "write_port" | "port_status" | "start_log" | "update_log" | "stop_log"
  | "open_monitor" | "close_monitor" => (m, s, .reply env.manager)
  | cmd => (m, s, .reply (.ofError s!"알 수 없는 명령: {cmd}"))

end Dispatch

structure Client where
  connected : Bool
  session : ClientSession
  dispatch : Option (Request × Pc)
  queue : List RxSubCommand
  task : StreamTask
  written : List Outgoing

inductive ClientEvent
  | request (req : Request) (env : Env)
  | dispatch
  | task (order : List String) (writeOk : Bool)

namespace Client

def new : Client := ⟨true, .new, none, [], .new, []⟩

/-- After end of file the session is gone and the client's tasks are aborted. -/
def disconnect (cl : Client) : Client := ⟨false, .new, none, [], .stopped, cl.written⟩

/-- One step of a command that is under way. -/
def advance (cl : Client) (m : SerialManager) (req : Request) : Pc → Option Client
  | .openEnsure port resp => some { cl with
      session := cl.session.ensureSubscribed m port
      dispatch := some (req, .reply resp) }
  | .onPortClosed port resp => some { cl with
      session := cl.session.onPortClosed port
      dispatch := some (req, .reply resp) }
  | .subscribeTake port =>
      match m.subscribe port with
      | none => some { cl with
          dispatch := some (req, .reply (.ofError s!"{port} 구독 실패")) }
      | some rx => some { cl with
          session := { cl.session with
            rxSubscriptions := insert port cl.session.rxSubscriptions }
          dispatch := some (req, .send (.subscribe port rx) s!"{port} 실시간 RX 구독 시작") }
  | .filterTake port keywords success =>
      match m.subscribe port with
      | none => some { cl with
          dispatch := some (req, .reply (.ofError s!"{port} 구독 실패")) }
      | some rx => some { cl with
          session := { cl.session with
            filterSubscriptions := cl.session.filterSubscriptions.insert port keywords }
          dispatch := some (req, .send (.addFilter port keywords rx) success) }
  | .readEnsure port clear => some { cl with
      session := cl.session.ensureSubscribed m port
      dispatch := some (req, .drain port clear) }
  | .drain port clear =>
      match cl.session.drainOne m port with
      | (s, true) => some { cl with session := s }
      | (s, false) =>
          let r := s.answerRead port clear
          some { cl with session := r.1, dispatch := some (req, .reply r.2) }
  | .send cmd success =>
      if cl.task.isEnded then some { cl with dispatch := some (req, .reply deliveryFailed) }
      else if cl.queue.length < queueCapacity then
        some { cl with
          queue := cl.queue ++ [cmd]
          dispatch := some (req, .reply (.successMsg success)) }
      else none
  | .tell cmd next =>
      if cl.task.isEnded then some { cl with dispatch := some (req, next) }
      else if cl.queue.length < queueCapacity then
        some { cl with queue := cl.queue ++ [cmd], dispatch := some (req, next) }
      else none
  | .reply resp => some { cl with
      dispatch := none
      written := cl.written ++ [.response req resp] }

def step (cl : Client) (m : SerialManager) : ClientEvent → Option (SerialManager × Client)
  | .request req env =>
      match cl.dispatch with
      | some _ => none
      | none =>
          let r := Dispatch.start m cl.session req env
          some (r.1, { cl with session := r.2.1, dispatch := some (req, r.2.2) })
  | .dispatch =>
      match cl.dispatch with
      | none => none
      | some (req, pc) => (cl.advance m req pc).map fun cl' => (m, cl')
  | .task order writeOk =>
      (cl.task.step m cl.queue order writeOk).map fun r =>
        (m, { cl with
          task := r.1, queue := r.2.1, written := cl.written ++ r.2.2.map .push })

/-- The responses that dispatch has returned, the last of them perhaps not yet
written. -/
def returns (cl : Client) : List (Request × Response) :=
  cl.written.filterMap (fun
    | .response req resp => some (req, resp)
    | _ => none) ++
  match cl.dispatch with
  | some (req, .reply resp) => [(req, resp)]
  | _ => []

end Client

/-- Connections are numbered; a client that connects again is a new one. -/
abbrev ClientId := ℕ

structure World where
  serial : SerialManager
  clients : ClientId → Option Client

inductive Event
  | connect (c : ClientId)
  | disconnect (c : ClientId)
  | client (c : ClientId) (e : ClientEvent)
  | deliver (k : ChannelId) (entry : RxEntry)
  | endReadTask (k : ChannelId)

namespace World

def setClient (w : World) (c : ClientId) (cl : Client) : World :=
  { w with clients := Function.update w.clients c (some cl) }

def step (w : World) : Event → Option World
  | .connect c =>
      match w.clients c with
      | some _ => none
      | none => some (w.setClient c .new)
  | .disconnect c =>
      match w.clients c with
      | some cl =>
          if cl.connected ∧ cl.dispatch.isNone then some (w.setClient c cl.disconnect) else none
      | none => none
  | .client c e =>
      match w.clients c with
      | some cl =>
          if cl.connected then
            (cl.step w.serial e).map fun r => { w with serial := r.1 }.setClient c r.2
          else none
      | none => none
  | .deliver k entry => (w.serial.deliver k entry).map fun m => { w with serial := m }
  | .endReadTask k => (w.serial.endReadTask k).map fun m => { w with serial := m }

end World

/-- All runs of the daemon. -/
def daemon : StepSystem World Event where
  init := ⟨.new, fun _ => none⟩
  step := World.step

end Commmon

/-
# The logs of a serial manager

A log records a port into a file. Its task waits for an entry and for its
cancellation token at the same time, and neither has priority: when both are
ready, either may be served. A duration timer cancels the token when it expires.
The task and the timer announce why a log stopped, but neither has access to the
table that the commands work on.

What `start_log` makes together, the task, the cell of the stop keyword and the
token, shares a number. That the table only holds numbers that have been given
out, and never one number under two ports, is part of the type.
-/

import Commmon.Serial

set_option autoImplicit false

namespace Commmon

open Broadcast

/-- Logs are numbered in the order in which they are started. -/
abbrev LogId := ℕ

abbrev TimerId := ℕ

/-- What the table holds for a log. `id` stands for the keyword cell, the token
and the handle of the task. -/
structure LogState where
  filePath : String
  id : LogId
  durationTask : Option TimerId

/-- Where a log task stands. A received entry is kept until it is written. -/
inductive LogPc
  | creating
  | selecting
  | writing (entry : RxEntry)
  | ended
  deriving DecidableEq

/-- A log task with what it was given, and the lines it has written. -/
structure LogTask where
  rx : Receiver
  filePath : String
  portName : String
  pc : LogPc
  lines : List String

inductive TimerState
  | sleeping
  | expired
  | aborted
  deriving DecidableEq

/-- A duration timer with the token, port and file that it was given. -/
structure Timer where
  cancel : LogId
  portName : String
  filePath : String
  secs : ℕ
  state : TimerState

def keywordStopped (portName keyword filePath : String) : Notification where
  notify := "log_stopped"
  data := .object
    [("port", .string portName), ("reason", .string "keyword"), ("keyword", .string keyword),
      ("file", .string filePath)]

def Timer.notification (t : Timer) : Notification where
  notify := "log_stopped"
  data := .object
    [("port", .string t.portName), ("reason", .string "duration"), ("file", .string t.filePath)]

/-- A notification, kept with the log that it is about. -/
structure LogStopped where
  log : LogId
  notification : Notification

structure Logs where
  table : Table String LogState
  tasks : LogId → LogTask
  stopKeyword : LogId → Option String
  cancelled : LogId → Bool
  freshLog : LogId
  timers : TimerId → Timer
  freshTimer : TimerId
  notified : List LogStopped
  id_lt : ∀ port log, table.lookup port = some log → log.id < freshLog
  id_inj : ∀ port₁ port₂ log₁ log₂, table.lookup port₁ = some log₁ →
    table.lookup port₂ = some log₂ → log₁.id = log₂.id → port₁ = port₂

namespace Logs

def new : Logs where
  table := ∅
  tasks _ := ⟨⟨0, 0⟩, "", "", .ended, []⟩
  stopKeyword _ := none
  cancelled _ := false
  freshLog := 0
  timers _ := ⟨0, "", "", 0, .aborted⟩
  freshTimer := 0
  notified := []
  id_lt := by simp
  id_inj := by simp

def setTask (l : Logs) (id : LogId) (task : LogTask) : Logs :=
  { l with tasks := Function.update l.tasks id task }

/-- Put a log into the table in place of the port's log that has the same
number. -/
def setLog (l : Logs) (portName : String) (log log' : LogState)
    (hlog : l.table.lookup portName = some log) (hid : log'.id = log.id) : Logs :=
  { l with
    table := l.table.insert portName log'
    id_lt := by
      intro port x h
      rw [Table.lookup_insert] at h
      split_ifs at h with hp
      · obtain rfl := Option.some.inj h
        exact hid ▸ l.id_lt portName log hlog
      · exact l.id_lt port x h
    id_inj := by
      intro port₁ port₂ x₁ x₂ h₁ h₂ hids
      rw [Table.lookup_insert] at h₁ h₂
      split_ifs at h₁ h₂ with hp₁ hp₂ hp₂
      · exact hp₁.trans hp₂.symm
      · obtain rfl := Option.some.inj h₁
        exact hp₁.trans (l.id_inj portName port₂ log x₂ hlog h₂ (hid ▸ hids))
      · obtain rfl := Option.some.inj h₂
        exact (l.id_inj port₁ portName x₁ log h₁ hlog (hids.trans hid)).trans hp₂.symm
      · exact l.id_inj port₁ port₂ x₁ x₂ h₁ h₂ hids }

/-- Aborting a timer that no longer sleeps does nothing. -/
def abortTimer (l : Logs) (timer : Option TimerId) : Logs :=
  { l with
    timers := fun t =>
      if timer = some t ∧ (l.timers t).state = .sleeping then
        { l.timers t with state := .aborted }
      else l.timers t }

def spawnTimer (l : Logs) : Option Timer → Logs
  | some timer => { l with
      timers := Function.update l.timers l.freshTimer timer
      freshTimer := l.freshTimer + 1 }
  | none => l

/-- The log task, its keyword, its token and, with a duration, its timer are
made, and the log is put into the table. -/
def register (l : Logs) (portName : String) (rx : Receiver) (filePath : String)
    (keyword : Option String) (duration : Option ℕ) : Logs :=
  let timer := duration.map fun secs => ⟨l.freshLog, portName, filePath, secs, .sleeping⟩
  { l.spawnTimer timer with
    table := l.table.insert portName
      ⟨filePath, l.freshLog, duration.map fun _ => l.freshTimer⟩
    tasks := Function.update l.tasks l.freshLog ⟨rx, filePath, portName, .creating, []⟩
    stopKeyword := Function.update l.stopKeyword l.freshLog keyword
    cancelled := Function.update l.cancelled l.freshLog false
    freshLog := l.freshLog + 1
    id_lt := by
      intro port log h
      rw [Table.lookup_insert] at h
      split_ifs at h with hp
      · obtain rfl := Option.some.inj h
        exact Nat.lt_succ_self _
      · exact Nat.lt_succ_of_lt (l.id_lt port log h)
    id_inj := by
      intro port₁ port₂ log₁ log₂ h₁ h₂ hids
      rw [Table.lookup_insert] at h₁ h₂
      split_ifs at h₁ h₂ with hp₁ hp₂ hp₂
      · exact hp₁.trans hp₂.symm
      · obtain rfl := Option.some.inj h₁
        exact absurd hids.symm (Nat.ne_of_lt (l.id_lt port₂ log₂ h₂))
      · obtain rfl := Option.some.inj h₂
        exact absurd hids (Nat.ne_of_lt (l.id_lt port₁ log₁ h₁))
      · exact l.id_inj port₁ port₂ log₁ log₂ h₁ h₂ hids }

/-- A log leaves the table: its token is cancelled and its timer aborted. -/
def remove (l : Logs) (portName : String) (log : LogState) : Logs :=
  { l with
    table := l.table.erase portName
    cancelled := Function.update l.cancelled log.id true
    id_lt := by
      intro port x h
      rw [Table.lookup_erase] at h
      split_ifs at h
      exact l.id_lt port x h
    id_inj := by
      intro port₁ port₂ x₁ x₂ h₁ h₂ hids
      rw [Table.lookup_erase] at h₁ h₂
      split_ifs at h₁ h₂
      exact l.id_inj port₁ port₂ x₁ x₂ h₁ h₂ hids }.abortTimer log.durationTask

/-- The logs of the ports in the list leave the table. -/
def removeAll (l : Logs) (portNames : List String) : Logs :=
  portNames.foldl (fun l portName =>
    match l.table.lookup portName with
    | some log => l.remove portName log
    | none => l) l

/-- `close_all` up to the ports: every log leaves the table, and none is waited
for. -/
def drain (l : Logs) : Logs := l.removeAll l.table.keys

/-- The operating system's answers: the clock's reading in a file name, and the
temporary directory joined with a name. -/
structure LogEnv where
  opened : Except String Unit
  now : String
  tempJoin : String → String
  order : List String
  receiverCount : String → ℕ

/-- `start_log`, after it has subscribed. -/
def startLog (l : Logs) (portName : String) (rx : Receiver) (args : Value) (env : LogEnv) :
    Logs × Response :=
  if (l.table.lookup portName).isSome then
    (l, .ofError s!"{portName}의 로그가 이미 실행 중입니다.")
  else
    let filePath := (args.strArg "filePath").getD
      (env.tempJoin s!"commmon_{portName}_{env.now}.log")
    let duration := (args.get "duration").bind Value.asU64
    (l.register portName rx filePath (args.strArg "stopKeyword") duration,
      .successMsg s!"{portName} 로그 시작: {filePath}")

/-- The keyword that `update_log` sets; an empty one, or a value that is no
string, removes it. -/
def newKeyword (v : Value) : Option String := if v.asStr = some "" then none else v.asStr

def setKeyword (l : Logs) (id : LogId) : Option (Option String) → Logs
  | some keyword => { l with stopKeyword := Function.update l.stopKeyword id keyword }
  | none => l

/-- A new duration replaces the timer of a log. -/
def restartTimer (l : Logs) (portName : String) (log : LogState)
    (hlog : l.table.lookup portName = some log) : Option ℕ → Logs
  | some secs =>
      ((l.abortTimer log.durationTask).setLog portName log
        { log with durationTask := some l.freshTimer } hlog rfl).spawnTimer
          (some ⟨log.id, portName, log.filePath, secs, .sleeping⟩)
  | none => l

/-- What `update_log` does to the log that it finds. -/
def update (l : Logs) (portName : String) (log : LogState)
    (hlog : l.table.lookup portName = some log) (keyword : Option (Option String))
    (secs : Option ℕ) : Logs :=
  (l.restartTimer portName log hlog secs).setKeyword log.id keyword

def updateLog (l : Logs) (portName : String) (args : Value) : Logs × Response :=
  match hlog : l.table.lookup portName with
  | none => (l, .ofError s!"{portName}의 활성 로그가 없습니다.")
  | some log =>
      let keyword := (args.get "stopKeyword").map newKeyword
      let secs := (args.get "duration").bind Value.asU64
      let updated :=
        (keyword.map fun kw =>
          let shown := kw.getD "(해제)"
          s!"키워드: {shown}").toList ++
        (secs.map fun n => s!"타이머: {n}초").toList
      let joined := ", ".intercalate updated
      (l.update portName log hlog keyword secs,
        if updated.isEmpty then .ofError "업데이트할 파라미터가 없습니다. (stopKeyword, duration)"
        else .successMsg s!"{portName} 로그 업데이트: {joined}")

/-- What `port_status` says about the log of a port. -/
def logInfo (l : Logs) (portName : String) : Value :=
  match l.table.lookup portName with
  | none => .null
  | some log => .object
      [("file", .string log.filePath),
        ("stopKeyword", ((l.stopKeyword log.id).map Value.string).getD .null)]

def portStatus (m : SerialManager) (l : Logs) (env : LogEnv) : Response :=
  .success (.value (.array (env.order.filterMap fun name =>
    (m.ports.lookup name).map fun port => .object
      [("port", .string name), ("baudRate", .number (.posInt port.config.baudRate)),
        ("config", .string s!"{port.config.dataBits}{port.config.parity}{port.config.stopBits}"),
        ("subscribers", .number (.posInt (env.receiverCount name))),
        ("log", l.logInfo name)])))

/-- `text.contains(&kw)`. -/
def contains (text keyword : String) : Bool := decide (keyword.toList <:+: text.toList)

def renderLine (entry : RxEntry) : String :=
  let text := Utf8Lossy.decode entry.data
  s!"[{entry.timestamp}] {text}\n"

/-- The file is created, or the task ends at once. -/
def createFile (l : Logs) (id : LogId) (ok : Bool) : Option Logs :=
  match (l.tasks id).pc with
  | .creating =>
      some (l.setTask id { l.tasks id with pc := if ok then .selecting else .ended })
  | _ => none

/-- The task takes the branch of its token. -/
def observeCancel (l : Logs) (id : LogId) : Option Logs :=
  match (l.tasks id).pc with
  | .selecting =>
      if l.cancelled id then some (l.setTask id { l.tasks id with pc := .ended }) else none
  | _ => none

/-- The task takes the branch of its receiver, which waits when there is
nothing to receive. -/
def recv (l : Logs) (m : SerialManager) (id : LogId) : Option Logs :=
  match (l.tasks id).pc with
  | .selecting =>
      match m.tryRecv (l.tasks id).rx with
      | (.ok _ entry, rx) => some (l.setTask id { l.tasks id with rx := rx, pc := .writing entry })
      | (.lagged _, rx) => some (l.setTask id { l.tasks id with rx := rx })
      | (.empty, _) => none
      | (.closed, _) => some (l.setTask id { l.tasks id with pc := .ended })
  | _ => none

/-- A notification about a log is broadcast. -/
def announce (l : Logs) (id : LogId) (notification : Notification) : Logs :=
  { l with notified := l.notified ++ [⟨id, notification⟩] }

/-- The keyword that stops a log at this entry. -/
def matched (l : Logs) (id : LogId) (entry : RxEntry) : Option String :=
  (l.stopKeyword id).filter fun kw => contains (Utf8Lossy.decode entry.data) kw

/-- The task has written the line of the entry it received, and checks the
keyword. A failed write is ignored. -/
def write (l : Logs) (id : LogId) (ok : Bool) : Option Logs :=
  match (l.tasks id).pc with
  | .writing entry =>
      let task := { l.tasks id with
        lines := if ok then (l.tasks id).lines ++ [renderLine entry] else (l.tasks id).lines }
      match l.matched id entry with
      | some kw =>
          some ((l.setTask id { task with pc := .ended }).announce id
            (keywordStopped task.portName kw task.filePath))
      | none => some (l.setTask id { task with pc := .selecting })
  | _ => none

/-- A timer's sleep is over. Between its cancellation of the token and its
notification it does not give way. -/
def expire (l : Logs) (t : TimerId) : Option Logs :=
  if (l.timers t).state = .sleeping then
    some ({ l with
      timers := Function.update l.timers t { l.timers t with state := .expired }
      cancelled := Function.update l.cancelled (l.timers t).cancel true }.announce
        (l.timers t).cancel (l.timers t).notification)
  else none

end Logs

end Commmon

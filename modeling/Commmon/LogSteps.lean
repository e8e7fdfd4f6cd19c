/-
# What a step on the logs can do

The operations on the log table as equations on its lookups and timers, then one
inversion result for a step of the system: which call did what, or which task,
timer or read task moved. Later modules split on it and do not unfold the step
functions.
-/

import Commmon.LogCalls

set_option autoImplicit false

namespace Commmon

open Broadcast

namespace Logs

variable (l : Logs) (portName : String) (log : LogState)

/-- The timer still sleeps, so it may still expire. -/
def Sleeping (t : TimerId) : Prop := (l.timers t).state = .sleeping

/-- The timer has cancelled its token and announced the stop. -/
def Expired (t : TimerId) : Prop := (l.timers t).state = .expired

/-- The table has the log with this number. -/
def Registered (id : LogId) : Prop :=
  ∃ port log, l.table.lookup port = some log ∧ log.id = id

theorem sleeping_abortTimer {timer : Option TimerId} {t : TimerId} :
    (l.abortTimer timer).Sleeping t ↔ l.Sleeping t ∧ timer ≠ some t := by
  simp only [Sleeping, abortTimer]
  split_ifs with h
  · simp [h.1]
  · grind

theorem expired_abortTimer {timer : Option TimerId} {t : TimerId} :
    (l.abortTimer timer).Expired t ↔ l.Expired t := by
  simp only [Expired, abortTimer]
  split_ifs with h
  · simp [h.2]
  · rfl

/-- An abort changes no more than a timer's state. -/
theorem abortTimer_timers {timer : Option TimerId} {t : TimerId} :
    ((l.abortTimer timer).timers t).cancel = (l.timers t).cancel ∧
    ((l.abortTimer timer).timers t).portName = (l.timers t).portName ∧
    ((l.abortTimer timer).timers t).filePath = (l.timers t).filePath := by
  simp only [abortTimer]
  split_ifs <;> simp

theorem lookup_register (rx : Receiver) (filePath : String) (keyword : Option String)
    (duration : Option ℕ) (q : String) :
    (l.register portName rx filePath keyword duration).table.lookup q =
      if q = portName then some ⟨filePath, l.freshLog, duration.map fun _ => l.freshTimer⟩
      else l.table.lookup q :=
  Table.lookup_insert _ _ _ _

theorem lookup_remove (q : String) :
    (l.remove portName log).table.lookup q =
      if q = portName then none else l.table.lookup q :=
  Table.lookup_erase _ _ _

theorem lookup_update (hlog : l.table.lookup portName = some log)
    (keyword : Option (Option String)) (secs : Option ℕ) (q : String) :
    (l.update portName log hlog keyword secs).table.lookup q =
      if q = portName then
        some { log with durationTask :=
          (secs.map fun _ => l.freshTimer).or log.durationTask }
      else l.table.lookup q := by
  have htable : (l.update portName log hlog keyword secs).table =
      (l.restartTimer portName log hlog secs).table := by
    cases keyword <;> rfl
  rw [htable]
  cases secs with
  | none =>
      split_ifs with hq
      · subst hq
        simpa [restartTimer] using hlog
      · rfl
  | some n => exact Table.lookup_insert _ _ _ _

/-- A new timer is the only one that an update adds, and it replaces the old
one. -/
theorem timers_update (hlog : l.table.lookup portName = some log)
    (keyword : Option (Option String)) (secs : Option ℕ) :
    (l.update portName log hlog keyword secs).timers =
      match secs with
      | some n => Function.update (l.abortTimer log.durationTask).timers l.freshTimer
          ⟨log.id, portName, log.filePath, n, .sleeping⟩
      | none => l.timers := by
  cases keyword <;> cases secs <;> rfl

theorem timers_register (rx : Receiver) (filePath : String) (keyword : Option String)
    (duration : Option ℕ) :
    (l.register portName rx filePath keyword duration).timers =
      match duration with
      | some n => Function.update l.timers l.freshTimer
          ⟨l.freshLog, portName, filePath, n, .sleeping⟩
      | none => l.timers := by
  cases duration <;> rfl

section Register

variable (rx : Receiver) (filePath : String) (keyword : Option String) (duration : Option ℕ)

theorem tasks_register : (l.register portName rx filePath keyword duration).tasks =
    Function.update l.tasks l.freshLog ⟨rx, filePath, portName, .creating, []⟩ := by
  cases duration <;> rfl

theorem cancelled_register : (l.register portName rx filePath keyword duration).cancelled =
    Function.update l.cancelled l.freshLog false := by
  cases duration <;> rfl

theorem notified_register :
    (l.register portName rx filePath keyword duration).notified = l.notified := by
  cases duration <;> rfl

end Register

section Update

variable {l portName log}
variable (hlog : l.table.lookup portName = some log) (keyword : Option (Option String))
  (secs : Option ℕ)

theorem tasks_update : (l.update portName log hlog keyword secs).tasks = l.tasks := by
  cases keyword <;> cases secs <;> rfl

theorem cancelled_update : (l.update portName log hlog keyword secs).cancelled = l.cancelled := by
  cases keyword <;> cases secs <;> rfl

theorem notified_update : (l.update portName log hlog keyword secs).notified = l.notified := by
  cases keyword <;> cases secs <;> rfl

theorem freshLog_update : (l.update portName log hlog keyword secs).freshLog = l.freshLog := by
  cases keyword <;> cases secs <;> rfl

end Update

/-- Without a log of the port, `start_log` makes one. -/
theorem startLog_of_free {l : Logs} {portName : String} (rx : Receiver) (args : Value)
    (env : LogEnv) (hfree : l.table.lookup portName = none) :
    ∃ filePath keyword duration, (l.startLog portName rx args env).1 =
      l.register portName rx filePath keyword duration := by
  unfold startLog
  rw [if_neg (by simp [hfree])]
  exact ⟨_, _, _, rfl⟩

/-- With a log of the port, `update_log` changes that one. -/
theorem updateLog_of_lookup {l : Logs} {portName : String} {log : LogState} (args : Value)
    (hlog : l.table.lookup portName = some log) :
    (l.updateLog portName args).1 =
      l.update portName log hlog ((args.get "stopKeyword").map newKeyword)
        ((args.get "duration").bind Value.asU64) := by
  unfold updateLog
  split
  · rename_i hnone
    simp [hlog] at hnone
  · rename_i log' hlog'
    obtain rfl := Option.some.inj (hlog.symm.trans hlog')
    rfl

theorem updateLog_of_free {l : Logs} {portName : String} (args : Value)
    (hfree : l.table.lookup portName = none) :
    l.updateLog portName args = (l, .ofError s!"{portName}의 활성 로그가 없습니다.") := by
  unfold updateLog
  split
  · rfl
  · rename_i log hlog
    simp [hfree] at hlog

/-- What every removal of one log preserves, `close_all` preserves. -/
theorem drain_induction {P : Logs → Prop}
    (hremove : ∀ l port log, l.table.lookup port = some log → P l → P (l.remove port log))
    (hl : P l) : P l.drain := by
  have hall : ∀ (ports : List String) (l : Logs), P l → P (l.removeAll ports) := by
    intro ports
    induction ports with
    | nil => exact fun l h => h
    | cons port ports ih =>
        intro l h
        apply ih _
        dsimp only
        split
        · rename_i log hlog
          exact hremove l port log hlog h
        · exact h
  exact hall _ l hl

theorem lookup_drain (q : String) : l.drain.table.lookup q = none := by
  have hall : ∀ (ports : List String) (l : Logs),
      (l.removeAll ports).table.lookup q = if q ∈ ports then none else l.table.lookup q := by
    intro ports
    induction ports with
    | nil => simp [removeAll]
    | cons port ports ih =>
        intro l
        cases hlog : l.table.lookup port with
        | none =>
            have hcons : l.removeAll (port :: ports) = l.removeAll ports := by
              simp only [removeAll, List.foldl_cons, hlog]
            rw [hcons, ih]
            by_cases hq : q = port
            · subst hq
              simp [hlog]
            · simp [hq]
        | some log =>
            have hcons : l.removeAll (port :: ports) = (l.remove port log).removeAll ports := by
              simp only [removeAll, List.foldl_cons, hlog]
            rw [hcons, ih]
            by_cases hq : q = port
            · simp [hq, lookup_remove]
            · simp [hq, lookup_remove]
  rw [drain, hall]
  split_ifs with hmem
  · rfl
  · exact AList.lookup_eq_none.mpr hmem

variable (m : SerialManager) (id : LogId)

/-- A log task takes a step of its own, to `task'`. A match of the stop keyword
is not among them, since it does more than that. -/
inductive TaskMoves : LogEvent → LogTask → Prop
  | created (hpc : (l.tasks id).pc = .creating) :
      TaskMoves (.createFile id true) { l.tasks id with pc := .selecting }
  | uncreated (hpc : (l.tasks id).pc = .creating) :
      TaskMoves (.createFile id false) { l.tasks id with pc := .ended }
  | cancelled (hpc : (l.tasks id).pc = .selecting) (hcancel : l.cancelled id = true) :
      TaskMoves (.observeCancel id) { l.tasks id with pc := .ended }
  | received (pos : ℕ) (entry : RxEntry) (rx : Receiver) (hpc : (l.tasks id).pc = .selecting)
      (hrecv : m.tryRecv (l.tasks id).rx = (.ok pos entry, rx)) :
      TaskMoves (.recv id) { l.tasks id with rx := rx, pc := .writing entry }
  | lagged (missed : ℕ) (rx : Receiver) (hpc : (l.tasks id).pc = .selecting)
      (hrecv : m.tryRecv (l.tasks id).rx = (.lagged missed, rx)) :
      TaskMoves (.recv id) { l.tasks id with rx := rx }
  | closed (rx : Receiver) (hpc : (l.tasks id).pc = .selecting)
      (hrecv : m.tryRecv (l.tasks id).rx = (.closed, rx)) :
      TaskMoves (.recv id) { l.tasks id with pc := .ended }
  | wrote (ok : Bool) (entry : RxEntry) (hpc : (l.tasks id).pc = .writing entry)
      (hmatched : l.matched id entry = none) :
      TaskMoves (.write id ok) { l.tasks id with
        pc := .selecting
        lines := if ok then (l.tasks id).lines ++ [renderLine entry] else (l.tasks id).lines }

variable {l} {m} {id}

/-- Only a task that has not ended moves. -/
theorem TaskMoves.pc_ne {e : LogEvent} {task' : LogTask} (h : l.TaskMoves m id e task') :
    (l.tasks id).pc ≠ .ended := by
  cases h <;> simp_all

private theorem createFile_moves {ok : Bool} {l' : Logs} (h : l.createFile id ok = some l') :
    ∃ task', l' = l.setTask id task' ∧ l.TaskMoves m id (.createFile id ok) task' := by
  unfold createFile at h
  split at h
  · rename_i hpc
    obtain rfl := Option.some.inj h
    cases ok with
    | true => exact ⟨_, rfl, .created hpc⟩
    | false => exact ⟨_, rfl, .uncreated hpc⟩
  · simp at h

private theorem observeCancel_moves {l' : Logs} (h : l.observeCancel id = some l') :
    ∃ task', l' = l.setTask id task' ∧ l.TaskMoves m id (.observeCancel id) task' := by
  unfold observeCancel at h
  split at h
  · rename_i hpc
    split_ifs at h with hcancel
    obtain rfl := Option.some.inj h
    exact ⟨_, rfl, .cancelled hpc hcancel⟩
  · simp at h

private theorem recv_moves {l' : Logs} (h : l.recv m id = some l') :
    ∃ task', l' = l.setTask id task' ∧ l.TaskMoves m id (.recv id) task' := by
  unfold recv at h
  split at h
  · rename_i hpc
    split at h
    · rename_i pos entry rx hrecv
      obtain rfl := Option.some.inj h
      exact ⟨_, rfl, .received pos entry rx hpc hrecv⟩
    · rename_i missed rx hrecv
      obtain rfl := Option.some.inj h
      exact ⟨_, rfl, .lagged missed rx hpc hrecv⟩
    · simp at h
    · rename_i rx hrecv
      obtain rfl := Option.some.inj h
      exact ⟨_, rfl, .closed rx hpc hrecv⟩
  · simp at h

/-- Writing the entry either goes on with the next or finds the stop keyword. -/
theorem write_cases {ok : Bool} {l' : Logs} (h : l.write id ok = some l') :
    (∃ task', l' = l.setTask id task' ∧ l.TaskMoves m id (.write id ok) task') ∨
    ∃ entry kw lines, (l.tasks id).pc = .writing entry ∧ l.matched id entry = some kw ∧
      l' = (l.setTask id { l.tasks id with pc := .ended, lines := lines }).announce id
        (keywordStopped (l.tasks id).portName kw (l.tasks id).filePath) := by
  unfold write at h
  split at h
  · rename_i entry hpc
    dsimp only at h
    split at h
    · rename_i kw hmatched
      obtain rfl := Option.some.inj h
      exact Or.inr ⟨entry, kw, _, hpc, hmatched, rfl⟩
    · rename_i hmatched
      obtain rfl := Option.some.inj h
      exact Or.inl ⟨_, rfl, .wrote ok entry hpc hmatched⟩
  · simp at h

end Logs

namespace LogWorld

/-- The call has something to do, and neither waits for a log task nor is part of
`close_all`. -/
inductive Working : CallPc → Prop
  | start (cmd : LogCommand) : Working (.start cmd)
  | register (port : String) (rx : Receiver) (args : Value) : Working (.register port rx args)
  | removing (args : Value) : Working (.removing args)

/-- Who did what in a step. `answered` is a call that returns without an effect. -/
inductive Steps (w : LogWorld) : LogEvent → LogWorld → Prop
  | called (i : CallId) (cmd : LogCommand) (hnew : w.calls i = none) :
      Steps w (.call i cmd) (w.setCall i (.start cmd))
  | answered (i : CallId) (env : Logs.LogEnv) (pc : CallPc) (resp : Response)
      (hpc : w.calls i = some pc) (hworking : Working pc) :
      Steps w (.advance i env) (w.answer i resp)
  | opened (i : CallId) (env : Logs.LogEnv) (args : Value) (port : String)
      (config : PortConfig) (resp : Response)
      (hpc : w.calls i = some (.start (.openPort args)))
      (hclosed : w.serial.ports.lookup port = none) :
      Steps w (.advance i env)
        ({ w with serial := w.serial.insertPort port config }.answer i resp)
  | subscribed (i : CallId) (env : Logs.LogEnv) (args : Value) (port : String) (rx : Receiver)
      (hpc : w.calls i = some (.start (.startLog args)))
      (hrx : w.serial.subscribe port = some rx) :
      Steps w (.advance i env) (w.setCall i (.register port rx args))
  | registered (i : CallId) (env : Logs.LogEnv) (args : Value) (port : String) (rx : Receiver)
      (filePath : String) (keyword : Option String) (duration : Option ℕ) (resp : Response)
      (hpc : w.calls i = some (.register port rx args)) (hlocked : w.locked = none)
      (hfree : w.logs.table.lookup port = none) :
      Steps w (.advance i env)
        ({ w with logs := w.logs.register port rx filePath keyword duration }.answer i resp)
  | updated (i : CallId) (env : Logs.LogEnv) (args : Value) (port : String) (log : LogState)
      (hlog : w.logs.table.lookup port = some log) (keyword : Option (Option String))
      (secs : Option ℕ) (resp : Response)
      (hpc : w.calls i = some (.start (.updateLog args))) (hlocked : w.locked = none) :
      Steps w (.advance i env)
        ({ w with logs := w.logs.update port log hlog keyword secs }.answer i resp)
  | stopBegun (i : CallId) (env : Logs.LogEnv) (cmd : LogCommand) (port : String)
      (log : LogState) (closing : Option Value) (hpc : w.calls i = some (.start cmd))
      (hclosing : ∀ args, closing = some args → args.strArg "port" = some port)
      (hlocked : w.locked = none) (hlog : w.logs.table.lookup port = some log) :
      Steps w (.advance i env)
        ({ w with logs := w.logs.remove port log, locked := some i }.setCall i
          (.waiting port log closing))
  | unlogged (i : CallId) (env : Logs.LogEnv) (args : Value) (port : String)
      (hpc : w.calls i = some (.start (.closePort args)))
      (hport : args.strArg "port" = some port) (hlocked : w.locked = none)
      (hfree : w.logs.table.lookup port = none) :
      Steps w (.advance i env) (w.setCall i (.removing args))
  | stopEnded (i : CallId) (env : Logs.LogEnv) (port : String) (log : LogState)
      (closing : Option Value) (hpc : w.calls i = some (.waiting port log closing))
      (hended : (w.logs.tasks log.id).pc = .ended) :
      Steps w (.advance i env) (w.endStop i port log closing)
  | timedOut (i : CallId) (port : String) (log : LogState) (closing : Option Value)
      (hpc : w.calls i = some (.waiting port log closing)) :
      Steps w (.timeOut i) (w.endStop i port log closing)
  | portClosed (i : CallId) (env : Logs.LogEnv) (args : Value) (port : String) (op : OpenPort)
      (resp : Response) (hpc : w.calls i = some (.removing args))
      (hport : args.strArg "port" = some port) (hopen : w.serial.ports.lookup port = some op) :
      Steps w (.advance i env)
        ({ w with serial := w.serial.removePort port op }.answer i resp)
  | drained (i : CallId) (env : Logs.LogEnv) (hpc : w.calls i = some (.start .closeAll))
      (hlocked : w.locked = none) :
      Steps w (.advance i env) ({ w with logs := w.logs.drain }.setCall i .drainingPorts)
  | portsDrained (i : CallId) (env : Logs.LogEnv) (hpc : w.calls i = some .drainingPorts) :
      Steps w (.advance i env)
        ({ w with serial := w.serial.closeAll }.setCall i (.done none))
  | moved (id : LogId) (e : LogEvent) (task' : LogTask)
      (hmove : w.logs.TaskMoves w.serial id e task') :
      Steps w e { w with logs := w.logs.setTask id task' }
  | matched (id : LogId) (ok : Bool) (entry : RxEntry) (kw : String) (lines : List String)
      (l' : Logs) (hpc : (w.logs.tasks id).pc = .writing entry)
      (hmatched : w.logs.matched id entry = some kw)
      (hl' : l' = (w.logs.setTask id
        { w.logs.tasks id with pc := .ended, lines := lines }).announce id
          (keywordStopped (w.logs.tasks id).portName kw (w.logs.tasks id).filePath)) :
      Steps w (.write id ok) { w with logs := l' }
  | expired (t : TimerId) (l' : Logs) (hexpire : w.logs.expire t = some l') :
      Steps w (.expire t) { w with logs := l' }
  | delivered (k : ChannelId) (entry : RxEntry) (m' : SerialManager)
      (hdeliver : w.serial.deliver k entry = some m') :
      Steps w (.deliver k entry) { w with serial := m' }
  | readEnded (k : ChannelId) (m' : SerialManager) (hend : w.serial.endReadTask k = some m') :
      Steps w (.endReadTask k) { w with serial := m' }

variable {w w' : LogWorld} {i : CallId} {env : Logs.LogEnv}

theorem whenUnlocked_eq_some {next : LogWorld} (h : w.whenUnlocked next = some w') :
    w.locked = none ∧ w' = next := by
  unfold whenUnlocked at h
  split_ifs at h with hlocked
  exact ⟨hlocked, (Option.some.inj h).symm⟩

theorem startOn_eq_some {args : Value} {next : String → Option LogWorld}
    (h : w.startOn i args next = some w') :
    (∃ resp, w' = w.answer i resp) ∨
      ∃ port, args.strArg "port" = some port ∧ next port = some w' := by
  unfold startOn at h
  split at h
  · exact Or.inl ⟨_, (Option.some.inj h).symm⟩
  · rename_i port hport
    exact Or.inr ⟨port, hport, h⟩

private theorem beginStop_steps {cmd : LogCommand} {port : String} {closing : Option Value}
    (hpc : w.calls i = some (.start cmd))
    (hclosing : ∀ args, closing = some args →
      cmd = .closePort args ∧ args.strArg "port" = some port)
    (hlocked : w.locked = none) :
    Steps w (.advance i env) (w.beginStop i port closing) := by
  unfold beginStop
  split
  · rename_i log hlog
    exact .stopBegun i env cmd port log closing hpc (fun args h => (hclosing args h).2)
      hlocked hlog
  · rename_i hfree
    split
    · rename_i args
      obtain ⟨rfl, hport⟩ := hclosing args rfl
      exact .unlogged i env args port hpc hport hlocked hfree
    · exact .answered i env _ _ hpc (.start cmd)

private theorem start_steps {cmd : LogCommand} (hpc : w.calls i = some (.start cmd))
    (h : w.start i env cmd = some w') : Steps w (.advance i env) w' := by
  unfold start at h
  cases cmd with
  | openPort args =>
      obtain rfl := Option.some.inj h
      obtain ⟨hsame, -⟩ | ⟨port, -, hclosed, hins, -⟩ :=
        w.serial.openPort_cases args env.opened
      · simp only [hsame]
        exact .answered i env _ _ hpc (.start _)
      · simp only [hins]
        exact .opened i env args port _ _ hpc hclosed
  | closePort args =>
      obtain ⟨resp, rfl⟩ | ⟨port, hport, hnext⟩ := startOn_eq_some h
      · exact .answered i env _ _ hpc (.start _)
      · obtain ⟨hlocked, rfl⟩ := whenUnlocked_eq_some hnext
        refine beginStop_steps hpc (fun args' heq => ?_) hlocked
        obtain rfl := Option.some.inj heq
        exact ⟨rfl, hport⟩
  | startLog args =>
      obtain ⟨resp, rfl⟩ | ⟨port, hport, hnext⟩ := startOn_eq_some h
      · exact .answered i env _ _ hpc (.start _)
      · split at hnext
        · obtain rfl := Option.some.inj hnext
          exact .answered i env _ _ hpc (.start _)
        · rename_i rx hrx
          obtain rfl := Option.some.inj hnext
          exact .subscribed i env args port rx hpc hrx
  | updateLog args =>
      obtain ⟨resp, rfl⟩ | ⟨port, hport, hnext⟩ := startOn_eq_some h
      · exact .answered i env _ _ hpc (.start _)
      · obtain ⟨hlocked, rfl⟩ := whenUnlocked_eq_some hnext
        unfold Logs.updateLog
        split
        · exact .answered i env _ _ hpc (.start _)
        · rename_i log hlog
          exact .updated i env args port log hlog _ _ _ hpc hlocked
  | stopLog args =>
      obtain ⟨resp, rfl⟩ | ⟨port, hport, hnext⟩ := startOn_eq_some h
      · exact .answered i env _ _ hpc (.start _)
      · obtain ⟨hlocked, rfl⟩ := whenUnlocked_eq_some hnext
        exact beginStop_steps hpc (by simp) hlocked
  | portStatus =>
      dsimp only at h
      split_ifs at h
      obtain ⟨-, rfl⟩ := whenUnlocked_eq_some h
      exact .answered i env _ _ hpc (.start _)
  | closeAll =>
      obtain ⟨hlocked, rfl⟩ := whenUnlocked_eq_some h
      exact .drained i env hpc hlocked

theorem advance_steps {pc : CallPc} (hpc : w.calls i = some pc)
    (h : w.advance i env pc = some w') : Steps w (.advance i env) w' := by
  unfold advance at h
  cases pc with
  | start cmd => exact start_steps hpc h
  | register port rx args =>
      obtain ⟨hlocked, rfl⟩ := whenUnlocked_eq_some h
      unfold Logs.startLog
      split_ifs with hfree
      · exact .answered i env _ _ hpc (.register _ _ _)
      · exact .registered i env args port rx _ _ _ _ hpc hlocked (by simpa using hfree)
  | waiting port log closing =>
      dsimp only at h
      split_ifs at h with hended
      obtain rfl := Option.some.inj h
      exact .stopEnded i env port log closing hpc hended
  | removing args =>
      obtain rfl := Option.some.inj h
      obtain ⟨hsame, -⟩ | ⟨port, op, hport, hopen, hrem, -⟩ := w.serial.closePort_cases args
      · simp only [hsame]
        exact .answered i env _ _ hpc (.removing _)
      · simp only [hrem]
        exact .portClosed i env args port op _ hpc hport hopen
  | drainingPorts =>
      obtain rfl := Option.some.inj h
      exact .portsDrained i env hpc
  | done resp => simp at h

/-- Every step of the system is one of these. -/
theorem step_steps {e : LogEvent} (h : w.step e = some w') : Steps w e w' := by
  unfold step at h
  cases e with
  | call i cmd =>
      dsimp only at h
      split at h
      · simp at h
      · rename_i hnew
        obtain rfl := Option.some.inj h
        exact .called i cmd hnew
  | advance i env =>
      obtain ⟨pc, hpc, hadvance⟩ := Option.bind_eq_some_iff.mp h
      exact advance_steps hpc hadvance
  | timeOut i =>
      dsimp only at h
      split at h
      · rename_i port log closing hpc
        obtain rfl := Option.some.inj h
        exact .timedOut i port log closing hpc
      · simp at h
  | createFile id ok =>
      obtain ⟨l', hl', rfl⟩ := Option.map_eq_some_iff.mp h
      obtain ⟨task', rfl, hmove⟩ := Logs.createFile_moves (m := w.serial) hl'
      exact .moved id _ task' hmove
  | observeCancel id =>
      obtain ⟨l', hl', rfl⟩ := Option.map_eq_some_iff.mp h
      obtain ⟨task', rfl, hmove⟩ := Logs.observeCancel_moves (m := w.serial) hl'
      exact .moved id _ task' hmove
  | recv id =>
      obtain ⟨l', hl', rfl⟩ := Option.map_eq_some_iff.mp h
      obtain ⟨task', rfl, hmove⟩ := Logs.recv_moves hl'
      exact .moved id _ task' hmove
  | write id ok =>
      obtain ⟨l', hl', rfl⟩ := Option.map_eq_some_iff.mp h
      obtain ⟨task', rfl, hmove⟩ | ⟨entry, kw, lines, hpc, hmatched, hl'⟩ :=
        Logs.write_cases (m := w.serial) hl'
      · exact .moved id _ task' hmove
      · exact .matched id ok entry kw lines l' hpc hmatched hl'
  | expire t =>
      obtain ⟨l', hl', rfl⟩ := Option.map_eq_some_iff.mp h
      exact .expired t l' hl'
  | deliver k entry =>
      obtain ⟨m', hm', rfl⟩ := Option.map_eq_some_iff.mp h
      exact .delivered k entry m' hm'
  | endReadTask k =>
      obtain ⟨m', hm', rfl⟩ := Option.map_eq_some_iff.mp h
      exact .readEnded k m' hm'

/-- The changes of one step, without who made it. -/
inductive Changes (m : SerialManager) (l : Logs) : Logs → Prop
  | same : Changes m l l
  | registered (port : String) (rx : Receiver) (filePath : String) (keyword : Option String)
      (duration : Option ℕ) (hfree : l.table.lookup port = none) :
      Changes m l (l.register port rx filePath keyword duration)
  | updated (port : String) (log : LogState) (hlog : l.table.lookup port = some log)
      (keyword : Option (Option String)) (secs : Option ℕ) :
      Changes m l (l.update port log hlog keyword secs)
  | removed (port : String) (log : LogState) (hlog : l.table.lookup port = some log) :
      Changes m l (l.remove port log)
  | drained : Changes m l l.drain
  | moved (id : LogId) (e : LogEvent) (task' : LogTask) (hmove : l.TaskMoves m id e task') :
      Changes m l (l.setTask id task')
  | matched (id : LogId) (entry : RxEntry) (kw : String) (lines : List String)
      (hpc : (l.tasks id).pc = .writing entry) (hmatched : l.matched id entry = some kw) :
      Changes m l ((l.setTask id { l.tasks id with pc := .ended, lines := lines }).announce id
        (keywordStopped (l.tasks id).portName kw (l.tasks id).filePath))
  | expired (t : TimerId) (l' : Logs) (hexpire : l.expire t = some l') : Changes m l l'

theorem logs_endStop (w : LogWorld) (i : CallId) (port : String) (log : LogState)
    (closing : Option Value) : (w.endStop i port log closing).logs = w.logs := by
  cases closing <;> rfl

theorem Steps.changes {e : LogEvent} (h : Steps w e w') : Changes w.serial w.logs w'.logs := by
  cases h with
  | called i cmd hnew => exact .same
  | answered i env pc resp hpc hworking => exact .same
  | opened i env args port config resp hpc hclosed => exact .same
  | subscribed i env args port rx hpc hrx => exact .same
  | registered i env args port rx filePath keyword duration resp hpc hlocked hfree =>
      exact .registered port rx filePath keyword duration hfree
  | updated i env args port log hlog keyword secs resp hpc hlocked =>
      exact .updated port log hlog keyword secs
  | stopBegun i env cmd port log closing hpc hclosing hlocked hlog => exact .removed port log hlog
  | unlogged i env args port hpc hport hlocked hfree => exact .same
  | stopEnded i env port log closing hpc hended =>
      rw [logs_endStop]
      exact .same
  | timedOut i port log closing hpc =>
      rw [logs_endStop]
      exact .same
  | portClosed i env args port op resp hpc hport hopen => exact .same
  | drained i env hpc hlocked => exact .drained
  | portsDrained i env hpc => exact .same
  | moved id e task' hmove => exact .moved id e task' hmove
  | matched id ok entry kw lines l' hpc hmatched hl' =>
      subst hl'
      exact .matched id entry kw lines hpc hmatched
  | expired t l' hexpire => exact .expired t l' hexpire
  | delivered k entry m' hdeliver => exact .same
  | readEnded k m' hend => exact .same

end LogWorld

/-- What every change of the logs preserves holds in every reachable state. -/
theorem logs_invariant {P : Logs → Prop} (base : P .new)
    (preserved : ∀ m l l', P l → LogWorld.Changes m l l' → P l')
    {es : List LogEvent} {w : LogWorld} (hrun : logging.run es = some w) : P w.logs :=
  logging.run_invariant (P := fun w => P w.logs) base
    (fun _ _ _ hw hstep => preserved _ _ _ hw (LogWorld.step_steps hstep).changes) hrun

end Commmon

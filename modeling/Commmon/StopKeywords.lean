/-
# The stop keyword of a new log and of an updated one

`start_log` and `update_log` read the same parameter, each in its own way. What
follows, the log task and its notifications, depends on the keyword alone: two
worlds that differ only in the keyword of a log take the same steps until that
log writes an entry. The two commands set different keywords for the empty text
only. It ends a log that is started with it at the first entry, and an update
with it removes the keyword.
-/

import Commmon.LogProgress
import Commmon.LogTimers

set_option autoImplicit false

namespace Commmon

namespace LogWorld

/-- What can be told of a log: its lines, where its task stands, and what has been
announced. -/
structure LogView where
  lines : List String
  pc : LogPc
  notified : List LogStopped

def view (id : LogId) (w : LogWorld) : LogView :=
  ⟨(w.logs.tasks id).lines, (w.logs.tasks id).pc, w.logs.notified⟩

/-- The same world with another keyword for a log, and other calls. -/
def patched (id : LogId) (kw : Option String) (calls : CallId → Option CallPc) (w : LogWorld) :
    LogWorld :=
  { w with logs := w.logs.setKeyword id (some kw), calls := calls }

variable {id : LogId} {kw : Option String} {calls : CallId → Option CallPc}

@[simp]
theorem view_patched (w : LogWorld) : (w.patched id kw calls).view id = w.view id := rfl

@[simp]
theorem tasks_setKeyword (l : Logs) (keyword : Option (Option String)) :
    (l.setKeyword id keyword).tasks = l.tasks := by
  cases keyword <;> rfl

@[simp]
theorem cancelled_setKeyword (l : Logs) (keyword : Option (Option String)) :
    (l.setKeyword id keyword).cancelled = l.cancelled := by
  cases keyword <;> rfl

@[simp]
theorem timers_setKeyword (l : Logs) (keyword : Option (Option String)) :
    (l.setKeyword id keyword).timers = l.timers := by
  cases keyword <;> rfl

variable {l : Logs} {id' : LogId}

private theorem matched_setKeyword_of_ne (hne : id' ≠ id) (entry : RxEntry) :
    (l.setKeyword id (some kw)).matched id' entry = l.matched id' entry := by
  simp [Logs.matched, Logs.setKeyword, Function.update_of_ne hne]

private theorem createFile_setKeyword {ok : Bool} :
    (l.setKeyword id (some kw)).createFile id' ok =
      (l.createFile id' ok).map fun l' => l'.setKeyword id (some kw) := by
  unfold Logs.createFile
  rw [tasks_setKeyword]
  cases (l.tasks id').pc <;> rfl

private theorem observeCancel_setKeyword :
    (l.setKeyword id (some kw)).observeCancel id' =
      (l.observeCancel id').map fun l' => l'.setKeyword id (some kw) := by
  unfold Logs.observeCancel
  rw [tasks_setKeyword, cancelled_setKeyword]
  cases (l.tasks id').pc with
  | selecting => cases l.cancelled id' <;> rfl
  | _ => rfl

private theorem recv_setKeyword {m : SerialManager} :
    (l.setKeyword id (some kw)).recv m id' =
      (l.recv m id').map fun l' => l'.setKeyword id (some kw) := by
  unfold Logs.recv
  rw [tasks_setKeyword]
  cases (l.tasks id').pc with
  | selecting =>
      obtain ⟨received, rx⟩ := m.tryRecv (l.tasks id').rx
      cases received <;> rfl
  | _ => rfl

/-- Another log's task writes as if nothing had been changed. -/
theorem write_setKeyword {ok : Bool} (hne : id' ≠ id) :
    (l.setKeyword id (some kw)).write id' ok =
      (l.write id' ok).map fun l' => l'.setKeyword id (some kw) := by
  unfold Logs.write
  rw [tasks_setKeyword]
  cases (l.tasks id').pc with
  | writing entry =>
      simp only [matched_setKeyword_of_ne hne]
      cases l.matched id' entry <;> rfl
  | _ => rfl

private theorem expire_setKeyword {t : TimerId} :
    (l.setKeyword id (some kw)).expire t =
      (l.expire t).map fun l' => l'.setKeyword id (some kw) := by
  unfold Logs.expire
  rw [timers_setKeyword]
  split_ifs <;> rfl

/-- The keyword of a log matters to its writes only. -/
theorem step_patched {e : LogEvent} (hactor : e.actor = none) (hno : ∀ ok, e ≠ .write id ok)
    (w : LogWorld) :
    (w.patched id kw calls).step e = (w.step e).map (patched id kw calls) := by
  cases e with
  | call | advance | timeOut => simp [LogEvent.actor] at hactor
  | createFile id' ok =>
      simp only [step, patched, createFile_setKeyword, Option.map_map]
      rfl
  | observeCancel id' =>
      simp only [step, patched, observeCancel_setKeyword, Option.map_map]
      rfl
  | recv id' =>
      simp only [step, patched, recv_setKeyword, Option.map_map]
      rfl
  | write id' ok =>
      have hne : id' ≠ id := by
        rintro rfl
        exact hno ok rfl
      simp only [step, patched, write_setKeyword hne, Option.map_map]
      rfl
  | expire t =>
      simp only [step, patched, expire_setKeyword, Option.map_map]
      rfl
  | deliver k entry =>
      simp only [step, patched, Option.map_map]
      rfl
  | endReadTask k =>
      simp only [step, patched, Option.map_map]
      rfl

def withCalls (calls : CallId → Option CallPc) (w : LogWorld) : LogWorld :=
  { w with calls := calls }

/-- Nothing but the calls looks at the calls. -/
theorem step_withCalls {e : LogEvent} (hactor : e.actor = none) (w : LogWorld) :
    (w.withCalls calls).step e = (w.step e).map (withCalls calls) := by
  cases e with
  | call | advance | timeOut => simp [LogEvent.actor] at hactor
  | _ =>
      simp only [step, withCalls, Option.map_map]
      rfl

/-- The log whose task takes a step. -/
def taskOf : LogEvent → Option LogId
  | .createFile id _ | .observeCancel id | .recv id | .write id _ => some id
  | _ => none

variable {w w' : LogWorld} {e : LogEvent}

/-- A task that has ended takes no step. -/
theorem taskOf_ne_of_ended (hstep : w.step e = some w') (hended : (w.logs.tasks id).pc = .ended) :
    taskOf e ≠ some id := by
  intro htask
  cases e with
  | createFile id' ok | observeCancel id' | recv id' | write id' ok =>
      obtain rfl := Option.some.inj htask
      simp [step, Logs.createFile, Logs.observeCancel, Logs.recv, Logs.write, hended] at hstep
  | _ => cases htask

/-- Only its own steps change a task. -/
theorem tasks_of_step (hactor : e.actor = none) (hstep : w.step e = some w')
    (htask : taskOf e ≠ some id) : w'.logs.tasks id = w.logs.tasks id := by
  cases step_steps hstep with
  | moved id' e task' hmove =>
      have hne : id ≠ id' := by
        rintro rfl
        cases hmove <;> exact htask rfl
      exact Function.update_of_ne hne _ _
  | matched id' ok entry kw lines l' hpc hmatched hl' =>
      have hne : id ≠ id' := by
        rintro rfl
        exact htask rfl
      subst hl'
      exact Function.update_of_ne hne _ _
  | expired t l' hexpire =>
      obtain ⟨-, rfl⟩ := Logs.expire_eq_some hexpire
      rfl
  | delivered | readEnded => rfl
  | called | answered | opened | subscribed | registered | updated | stopBegun | unlogged
  | stopEnded | timedOut | portClosed | drained | portsDrained => cases hactor

/-- A log that has ended stays as it is, and no step of the run is its task's. -/
theorem ended_of_run {es : List LogEvent} :
    ∀ {w w' : LogWorld}, (∀ e ∈ es, e.actor = none) → (w.logs.tasks id).pc = .ended →
      logging.runFrom w es = some w' →
      (w'.logs.tasks id).pc = .ended ∧ ∀ e ∈ es, taskOf e ≠ some id := by
  induction es with
  | nil =>
      intro w w' _ hended hrun
      obtain rfl := Option.some.inj hrun
      exact ⟨hended, by simp⟩
  | cons e es ih =>
      intro w w' hactors hended hrun
      obtain ⟨hactor, hrest⟩ := List.forall_mem_cons.mp hactors
      obtain ⟨m, hstep, hrun'⟩ := logging.runFrom_cons_eq_some.mp hrun
      have htask : taskOf e ≠ some id := taskOf_ne_of_ended hstep hended
      obtain ⟨hended', htasks⟩ := ih hrest (tasks_of_step hactor hstep htask ▸ hended) hrun'
      exact ⟨hended', List.forall_mem_cons.mpr ⟨htask, htasks⟩⟩

private theorem tasks_of_run {es : List LogEvent} {w w' : LogWorld}
    (hactors : ∀ e ∈ es, e.actor = none)
    (htasks : ∀ e ∈ es, taskOf e ≠ some id) (hrun : logging.runFrom w es = some w') :
    w'.logs.tasks id = w.logs.tasks id := by
  refine logging.runFrom_invariant_on
    (P := fun u => u.logs.tasks id = w.logs.tasks id)
    (A := fun e => e.actor = none ∧ taskOf e ≠ some id) ?_
    (fun e he => ⟨hactors e he, htasks e he⟩) rfl hrun
  exact fun s e t he hs hstep => (tasks_of_step he.1 hstep he.2).trans hs

private theorem matched_setKeyword_self (entry : RxEntry) :
    (l.setKeyword id (some kw)).matched id entry =
    kw.filter fun kw => Logs.contains (Utf8Lossy.decode entry.data) kw := by
  simp [Logs.matched, Logs.setKeyword]

/-- Every text contains the empty one. -/
theorem step_write_empty {entry : RxEntry} (hpc : (w.logs.tasks id).pc = .writing entry)
    (ok : Bool) : ∃ w', (w.patched id (some "") calls).step (.write id ok) = some w' ∧
      (w'.logs.tasks id).pc = .ended := by
  have hmatched : (w.logs.setKeyword id (some (some ""))).matched id entry = some "" := by
    simp [matched_setKeyword_self, Logs.contains]
  simp only [step, patched, Logs.write, tasks_setKeyword, hpc, hmatched, Option.map_some]
  exact ⟨_, rfl, by simp [Logs.announce, Logs.setTask]⟩

private theorem step_write_none {entry : RxEntry} (hpc : (w.logs.tasks id).pc = .writing entry)
    (ok : Bool) : ∃ w', (w.patched id none calls).step (.write id ok) = some w' ∧
      (w'.logs.tasks id).pc = .selecting := by
  have hmatched : (w.logs.setKeyword id (some none)).matched id entry = none := by
    simp [matched_setKeyword_self]
  simp only [step, patched, Logs.write, tasks_setKeyword, hpc, hmatched, Option.map_some]
  exact ⟨_, rfl, by simp [Logs.setTask]⟩

/-- A task that has no entry writes none. -/
theorem step_write_idle (hpc : ∀ entry, (w.logs.tasks id).pc ≠ .writing entry) (ok : Bool) :
    (w.patched id kw calls).step (.write id ok) = none := by
  simp only [step, patched, Logs.write, tasks_setKeyword]
  cases h : (w.logs.tasks id).pc with
  | writing entry => exact absurd h (hpc entry)
  | _ => rfl

section Runs

variable {es : List LogEvent} (calls' : CallId → Option CallPc)

/-- Without a write of the log, its keyword cannot be told. -/
theorem view_of_unwritten (kw' : Option String) (hactors : ∀ e ∈ es, e.actor = none)
    (hno : ∀ ok, .write id ok ∉ es) (w : LogWorld) :
    (logging.runFrom (w.patched id kw calls) es).map (view id) =
      (logging.runFrom (w.patched id kw' calls') es).map (view id) := by
  have hes : ∀ e ∈ es, e.actor = none ∧ ∀ ok, e ≠ .write id ok := by
    intro e he
    exact ⟨hactors e he, fun ok heq => hno ok (heq ▸ he)⟩
  rw [logging.runFrom_map (fun s e h => step_patched h.1 h.2 s) hes,
    logging.runFrom_map (fun s e h => step_patched h.1 h.2 s) hes, Option.map_map, Option.map_map]
  rfl

/-- The calls cannot be told either. -/
theorem view_of_calls (hactors : ∀ e ∈ es, e.actor = none) (w : LogWorld) :
    (logging.runFrom (w.withCalls calls) es).map (view id) =
      (logging.runFrom (w.withCalls calls') es).map (view id) := by
  rw [logging.runFrom_map (fun s e h => step_withCalls h s) hactors,
    logging.runFrom_map (fun s e h => step_withCalls h s) hactors, Option.map_map, Option.map_map]
  rfl

/-- A log that has ended and one that has not are never the same again. -/
theorem view_ne_of_ended {wa wb : LogWorld} (hactors : ∀ e ∈ es, e.actor = none)
    (hended : (wa.logs.tasks id).pc = .ended) (hlive : (wb.logs.tasks id).pc ≠ .ended)
    (hsome : (logging.runFrom wa es).isSome ∨ (logging.runFrom wb es).isSome) :
    (logging.runFrom wa es).map (view id) ≠ (logging.runFrom wb es).map (view id) := by
  intro heq
  obtain ⟨wa', wb', ha, hb⟩ : ∃ wa' wb', logging.runFrom wa es = some wa' ∧
      logging.runFrom wb es = some wb' := by
    cases ha : logging.runFrom wa es <;> cases hb : logging.runFrom wb es <;>
      simp [ha, hb] at hsome heq ⊢
  obtain ⟨hended', htasks⟩ := ended_of_run hactors hended ha
  have hsame := tasks_of_run hactors htasks hb
  rw [ha, hb] at heq
  have hpc : (wa'.logs.tasks id).pc = (wb'.logs.tasks id).pc :=
    congrArg LogView.pc (Option.some.inj heq)
  rw [hended', hsame] at hpc
  exact hlive hpc.symm

/-- An empty keyword and none are told apart by the first entry. With the empty
keyword it ends the log, without one the log goes on. -/
theorem view_of_written (hactors : ∀ e ∈ es, e.actor = none) {ok : Bool}
    (hwrite : .write id ok ∈ es) :
    ∀ {w : LogWorld}, ((logging.runFrom (w.patched id (some "") calls) es).isSome ∨
      (logging.runFrom (w.patched id none calls') es).isSome) →
      (logging.runFrom (w.patched id (some "") calls) es).map (view id) ≠
        (logging.runFrom (w.patched id none calls') es).map (view id) := by
  induction es with
  | nil => cases hwrite
  | cons e es ih =>
      intro w hsome
      obtain ⟨hactor, hrest⟩ := List.forall_mem_cons.mp hactors
      by_cases he : ∃ ok, e = .write id ok
      · obtain ⟨ok, rfl⟩ := he
        by_cases hpc : ∃ entry, (w.logs.tasks id).pc = .writing entry
        · obtain ⟨entry, hpc⟩ := hpc
          obtain ⟨wa, ha, hended⟩ :
              ∃ w', (w.patched id (some "") calls).step (.write id ok) = some w' ∧
                (w'.logs.tasks id).pc = .ended :=
            step_write_empty hpc ok
          obtain ⟨wb, hb, hselecting⟩ :
              ∃ w', (w.patched id none calls').step (.write id ok) = some w' ∧
                (w'.logs.tasks id).pc = .selecting :=
            step_write_none hpc ok
          simp only [StepSystem.runFrom, logging, ha, hb, Option.bind_some] at hsome ⊢
          exact view_ne_of_ended hrest hended (by simp [hselecting]) hsome
        · have hidle : ∀ {kw calls}, logging.step (w.patched id kw calls) (.write id ok) = none :=
            step_write_idle (fun entry h => hpc ⟨entry, h⟩) ok
          simp [StepSystem.runFrom, hidle] at hsome
      · have hno : ∀ ok, e ≠ .write id ok := fun ok h => he ⟨ok, h⟩
        have hmem : .write id ok ∈ es := by
          obtain heq | hmem := List.mem_cons.mp hwrite
          · exact absurd heq.symm (hno ok)
          · exact hmem
        have hstep : ∀ {kw calls}, logging.step (w.patched id kw calls) e =
            (logging.step w e).map (patched id kw calls) := step_patched hactor hno w
        simp only [StepSystem.runFrom, hstep] at hsome ⊢
        cases hm : logging.step w e with
        | none => simp [hm] at hsome
        | some m =>
            simp only [hm, Option.map_some, Option.bind_some] at hsome ⊢
            exact ih hrest hmem hsome

end Runs

/-- A call of `start_log`, from its request to its answer. -/
def startEvents (i : CallId) (env env' : Logs.LogEnv) (args : Value) : List LogEvent :=
  [.call i (.startLog args), .advance i env, .advance i env']

/-- A call of `update_log`. -/
def updateEvents (j : CallId) (env : Logs.LogEnv) (args : Value) : List LogEvent :=
  [.call j (.updateLog args), .advance j env]

private theorem register_keyword (l : Logs) (port : String) (rx : Receiver) (filePath : String)
    (kw : Option String) (duration : Option ℕ) : l.register port rx filePath kw duration =
      (l.register port rx filePath none duration).setKeyword l.freshLog (some kw) := by
  simp [Logs.register, Logs.setKeyword]

section Started

variable {port : String} {op : OpenPort} {i : CallId}

/-- A log that is started without a keyword. -/
def started (w : LogWorld) (port : String) (op : OpenPort) (more : List (String × Value))
    (env : Logs.LogEnv) : LogWorld :=
  { w with logs := (w.logs.startLog port ⟨op.tx, (w.serial.channels op.tx).tail⟩
      (logArgs port more) env).1 }

/-- With a keyword, the same log with that keyword. -/
theorem run_startEvents (hopen : w.serial.ports.lookup port = some op) (hlocked : w.locked = none)
    (hi : w.calls i = none) (env env' : Logs.LogEnv) (more : List (String × Value)) :
    ∃ calls, logging.runFrom w (startEvents i env env' (logArgs port more)) =
        some ((w.started port op more env').withCalls calls) ∧
      ∀ j, j ≠ i → calls j = w.calls j := by
  let rx : Receiver := ⟨op.tx, (w.serial.channels op.tx).tail⟩
  have hsubscribe : w.serial.subscribe port = some rx :=
    SerialManager.subscribe_eq_some.mpr ⟨op, hopen, rfl⟩
  have hport : (logArgs port more).strArg "port" = some port := rfl
  let w₁ : LogWorld := w.setCall i (.start (.startLog (logArgs port more)))
  let w₂ : LogWorld := w₁.setCall i (.register port rx (logArgs port more))
  let w₃ : LogWorld := { w₂ with logs := (w.started port op more env').logs }.answer i
    (w.logs.startLog port rx (logArgs port more) env').2
  have h₁ : logging.step w (.call i (.startLog (logArgs port more))) = some w₁ := by
    simp only [logging, step, hi, w₁]
  have h₂ : logging.step w₁ (.advance i env) = some w₂ := by
    simp [logging, step, advance, start, startOn, hport, hsubscribe, w₁, w₂]
  have h₃ : logging.step w₂ (.advance i env') = some w₃ := by
    simp [logging, step, advance, whenUnlocked, hlocked, started, rx, w₁, w₂, w₃]
  refine ⟨w₃.calls, ?_, fun j hj => ?_⟩
  · simp only [startEvents, StepSystem.runFrom, h₁, h₂, h₃, Option.bind_some]
    rfl
  · simp [w₁, w₂, w₃, Function.update_of_ne hj]

/-- The parameter decides the keyword of a new log, and nothing else. -/
theorem started_keyword (hfree : w.logs.table.lookup port = none) (env : Logs.LogEnv)
    {more : List (String × Value)} (hmore : more.lookup "stopKeyword" = none) (v : Value)
    (calls : CallId → Option CallPc) :
    (w.started port op (("stopKeyword", v) :: more) env).withCalls calls =
      (w.started port op more env).patched w.logs.freshLog v.asStr calls := by
  have hget : ∀ key, key ≠ "stopKeyword" →
      (logArgs port (("stopKeyword", v) :: more)).get key = (logArgs port more).get key := by
    intro key hkey
    have hbeq : (key == "stopKeyword") = false := beq_eq_false_iff_ne.mpr hkey
    simp only [logArgs, Value.get, List.lookup_cons, hbeq]
  have hpath : (logArgs port (("stopKeyword", v) :: more)).strArg "filePath" =
      (logArgs port more).strArg "filePath" := by
    rw [Value.strArg, Value.strArg, hget _ (by decide)]
  have hnew : (logArgs port (("stopKeyword", v) :: more)).strArg "stopKeyword" = v.asStr := by
    simp [Value.strArg, logArgs, Value.get, List.lookup_cons]
  have hnone : (logArgs port more).strArg "stopKeyword" = none := by
    simp [Value.strArg, logArgs, Value.get, List.lookup_cons, hmore]
  simp only [started, withCalls, patched, Logs.startLog, hfree, Option.isSome_none,
    Bool.false_eq_true, if_false, hpath, hnew, hnone, hget "duration" (by decide)]
  rw [register_keyword]

private theorem updateLog_keyword {log : LogState} (hlog : l.table.lookup port = some log)
    (v : Value) : (l.updateLog port (logArgs port [("stopKeyword", v)])).1 =
      l.setKeyword log.id (some (Logs.newKeyword v)) := by
  have hkeyword : (logArgs port [("stopKeyword", v)]).get "stopKeyword" = some v := by
    simp [logArgs, Value.get, List.lookup_cons]
  have hduration : (logArgs port [("stopKeyword", v)]).get "duration" = none := by
    simp [logArgs, Value.get, List.lookup_cons]
  simp [Logs.updateLog_of_lookup _ hlog, Logs.update, Logs.restartTimer, hkeyword, hduration]

/-- An update sets the keyword of the log. -/
theorem run_updateEvents (op : OpenPort) (hlocked : w.locked = none)
    (hfree : w.logs.table.lookup port = none) (env env' : Logs.LogEnv)
    (more : List (String × Value)) (v : Value) {j : CallId} {calls : CallId → Option CallPc}
    (hj : calls j = none) :
    ∃ calls', logging.runFrom ((w.started port op more env).withCalls calls)
        (updateEvents j env' (logArgs port [("stopKeyword", v)])) =
      some ((w.started port op more env).patched w.logs.freshLog (Logs.newKeyword v) calls') := by
  have hlog : ∃ log, (w.started port op more env).logs.table.lookup port = some log ∧
      log.id = w.logs.freshLog := by
    simp only [started, Logs.startLog, hfree, Option.isSome_none, Bool.false_eq_true, if_false]
    exact ⟨_, by rw [Logs.lookup_register, if_pos rfl], rfl⟩
  obtain ⟨log, hlog, hid⟩ := hlog
  let args : Value := logArgs port [("stopKeyword", v)]
  let w₀ : LogWorld := (w.started port op more env).withCalls calls
  let w₁ : LogWorld := w₀.setCall j (.start (.updateLog args))
  let w₂ : LogWorld := { w₁ with logs := (w₀.logs.updateLog port args).1 }.answer j
    (w₀.logs.updateLog port args).2
  have hport : args.strArg "port" = some port := rfl
  have h₁ : logging.step w₀ (.call j (.updateLog args)) = some w₁ := by
    simp only [logging, step, withCalls, hj, w₀, w₁]
  have h₂ : logging.step w₁ (.advance j env') = some w₂ := by
    have hlocked' : w₀.locked = none := hlocked
    simp [logging, step, advance, start, startOn, whenUnlocked, hport, hlocked', w₁, w₂]
  have hrun : logging.runFrom w₀ (updateEvents j env' args) = some w₂ := by
    simp only [updateEvents, StepSystem.runFrom, h₁, h₂, Option.bind_some]
  have hset : (w₀.logs.updateLog port args).1 =
      (w.started port op more env).logs.setKeyword w.logs.freshLog (some (Logs.newKeyword v)) :=
    hid ▸ updateLog_keyword hlog v
  refine ⟨w₂.calls, hrun.trans ?_⟩
  simp only [w₂, hset]
  rfl

/-- The world after a log has been started with the parameter. -/
def startedWith (i : CallId) (env env' : Logs.LogEnv) (port : String)
    (more : List (String × Value)) (v : Value) : List LogEvent :=
  startEvents i env env' (logArgs port (("stopKeyword", v) :: more))

/-- The world after a log has been started without it and then updated with it. -/
def startedThenUpdated (i j : CallId) (env env' env'' : Logs.LogEnv) (port : String)
    (more : List (String × Value)) (v : Value) : List LogEvent :=
  startEvents i env env' (logArgs port more) ++
    updateEvents j env'' (logArgs port [("stopKeyword", v)])

/-- When `start_log` and `update_log` agree on the stop keyword. Let a port be
open and have no log, and let log tasks, timers and ports take any steps after the
commands. Then the two logs have the same lines, end at the same point and send the
same notifications exactly if the parameter is not the empty text, or the log has
not written an entry. -/
theorem started_eq_updated_iff (hopen : w.serial.ports.lookup port = some op)
    (hlocked : w.locked = none) (hfree : w.logs.table.lookup port = none) {i j : CallId}
    (hi : w.calls i = none) (hj : w.calls j = none) (hij : j ≠ i) (env env' env'' : Logs.LogEnv)
    {more : List (String × Value)} (hmore : more.lookup "stopKeyword" = none) (v : Value)
    {es : List LogEvent} (hactors : ∀ e ∈ es, e.actor = none)
    (hsome : (logging.runFrom w (startedWith i env env' port more v ++ es)).isSome ∨
      (logging.runFrom w (startedThenUpdated i j env env' env'' port more v ++ es)).isSome) :
    (logging.runFrom w (startedWith i env env' port more v ++ es)).map (view w.logs.freshLog) =
        (logging.runFrom w (startedThenUpdated i j env env' env'' port more v ++ es)).map
          (view w.logs.freshLog) ↔
      v.asStr ≠ some "" ∨ ∀ ok, .write w.logs.freshLog ok ∉ es := by
  obtain ⟨calls, hstart, -⟩ :=
    run_startEvents hopen hlocked hi env env' (("stopKeyword", v) :: more)
  obtain ⟨calls₀, hstart₀, hcalls₀⟩ := run_startEvents hopen hlocked hi env env' more
  obtain ⟨calls', hupdate⟩ := run_updateEvents op hlocked hfree env' env'' more v
    ((hcalls₀ j hij).trans hj)
  rw [started_keyword hfree env' hmore] at hstart
  simp only [startedWith, startedThenUpdated, StepSystem.runFrom_append, hstart, hstart₀,
    Option.bind_some, hupdate] at hsome ⊢
  by_cases hempty : v.asStr = some ""
  · have hnew : Logs.newKeyword v = none := if_pos hempty
    rw [hnew, hempty] at hsome ⊢
    by_cases hno : ∀ ok, .write w.logs.freshLog ok ∉ es
    · exact iff_of_true (view_of_unwritten calls' none hactors hno _) (Or.inr hno)
    · obtain ⟨ok, hwrite⟩ := not_forall_not.mp hno
      exact iff_of_false (view_of_written calls' hactors hwrite hsome) (by simpa using hno)
  · have hnew : Logs.newKeyword v = v.asStr := if_neg hempty
    let u : LogWorld := (w.started port op more env').patched w.logs.freshLog v.asStr calls
    rw [hnew]
    exact iff_of_true (view_of_calls calls' hactors u) (Or.inl hempty)

end Started

end LogWorld

open LogWorld (startedWith startedThenUpdated view)

/-- An open port without a log. -/
def openedPort : List LogEvent := logCall 0 (.openPort (logArgs "P" [])) 1

/-- The file is made, an entry arrives, and the log's task receives and writes it. -/
def firstEntry : List LogEvent :=
  [.createFile 0 true, .deliver 0 ⟨"t", [79, 75]⟩, .recv 0, .write 0 true]

/-- Where the task of the first log stands. -/
def firstPc (w : LogWorld) : LogPc := (view 0 w).pc

private theorem openedPort_told : (logging.run openedPort).any (fun w =>
    (w.serial.ports.lookup "P").isSome && w.locked.isNone &&
      (w.logs.table.lookup "P").isNone && (w.calls 1).isNone && (w.calls 2).isNone &&
      w.logs.freshLog == 0 &&
      (logging.runFrom w (startedWith 1 logEnv logEnv "P" [] (.string "") ++ firstEntry)).isSome &&
      !((logging.runFrom w
          (startedWith 1 logEnv logEnv "P" [] (.string "") ++ firstEntry)).map firstPc ==
        (logging.runFrom w (startedThenUpdated 1 2 logEnv logEnv logEnv "P" [] (.string "") ++
          firstEntry)).map firstPc)) = true := by
  decide +kernel

/-- What the run reaches, as propositions. -/
theorem exists_openedPort : ∃ w op, logging.run openedPort = some w ∧
    w.serial.ports.lookup "P" = some op ∧ w.locked = none ∧ w.logs.table.lookup "P" = none ∧
    w.calls 1 = none ∧ w.calls 2 = none ∧ w.logs.freshLog = 0 ∧
    (logging.runFrom w
      (startedWith 1 logEnv logEnv "P" [] (.string "") ++ firstEntry)).isSome ∧
    (logging.runFrom w
        (startedWith 1 logEnv logEnv "P" [] (.string "") ++ firstEntry)).map firstPc ≠
      (logging.runFrom w (startedThenUpdated 1 2 logEnv logEnv logEnv "P" [] (.string "") ++
        firstEntry)).map firstPc := by
  obtain ⟨w, hw, htest⟩ := (Option.any_eq_true _ _).mp openedPort_told
  simp only [Bool.and_eq_true, Option.isNone_iff_eq_none, beq_iff_eq, Bool.not_eq_true',
    beq_eq_false_iff_ne] at htest
  obtain ⟨⟨⟨⟨⟨⟨⟨hopen, hlocked⟩, hfree⟩, hi⟩, hj⟩, hfresh⟩, hsome⟩, htold⟩ := htest
  obtain ⟨op, hop⟩ := Option.isSome_iff_exists.mp hopen
  exact ⟨w, op, hw, hop, hlocked, hfree, hi, hj, hfresh, hsome, htold⟩

private theorem firstEntry_served : ∀ e ∈ firstEntry, e.actor = none := by decide

/-- The theorem for the empty text and one entry. -/
theorem started_eq_updated_iff_first : ∃ w, logging.run openedPort = some w ∧
    ((logging.runFrom w (startedWith 1 logEnv logEnv "P" [] (.string "") ++ firstEntry)).map
        (view w.logs.freshLog) =
      (logging.runFrom w (startedThenUpdated 1 2 logEnv logEnv logEnv "P" [] (.string "") ++
        firstEntry)).map (view w.logs.freshLog) ↔
      (Value.string "").asStr ≠ some "" ∨ ∀ ok, .write w.logs.freshLog ok ∉ firstEntry) := by
  obtain ⟨w, op, hw, hop, hlocked, hfree, hi, hj, -, hsome, -⟩ := exists_openedPort
  exact ⟨w, hw, LogWorld.started_eq_updated_iff hop hlocked hfree hi hj (by decide) logEnv logEnv
    logEnv rfl (.string "") firstEntry_served (Or.inl hsome)⟩

/-- A log that is started with the empty text ends at the first entry, and one that
is updated with it goes on. -/
theorem started_not_always_updated :
    ¬ ∀ (pre : List LogEvent) (w : LogWorld) (port : String) (i j : CallId)
      (env env' env'' : Logs.LogEnv) (more : List (String × Value)) (v : Value)
      (es : List LogEvent), logging.run pre = some w →
      (w.serial.ports.lookup port).isSome → w.locked = none → w.logs.table.lookup port = none →
      w.calls i = none → w.calls j = none → j ≠ i → more.lookup "stopKeyword" = none →
      (∀ e ∈ es, e.actor = none) →
      (logging.runFrom w (startedWith i env env' port more v ++ es)).isSome →
        (logging.runFrom w (startedWith i env env' port more v ++ es)).map
            (view w.logs.freshLog) =
          (logging.runFrom w (startedThenUpdated i j env env' env'' port more v ++ es)).map
            (view w.logs.freshLog) := by
  intro hupdated
  obtain ⟨w, op, hw, hop, hlocked, hfree, hi, hj, hfresh, hsome, htold⟩ := exists_openedPort
  have hopen : (w.serial.ports.lookup "P").isSome := by rw [hop]; rfl
  have hsame := hupdated openedPort w "P" 1 2 logEnv logEnv logEnv [] (.string "") firstEntry hw
    hopen hlocked hfree hi hj (by decide) rfl firstEntry_served hsome
  rw [hfresh] at hsame
  have hpc := congrArg (Option.map LogWorld.LogView.pc) hsame
  rw [Option.map_map, Option.map_map] at hpc
  exact htold hpc

end Commmon

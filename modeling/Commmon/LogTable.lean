/-
# The log table and the running log tasks

A command that takes a log out of the table waits for the log's task. A task
that ends by itself, at a keyword, a cancellation by its timer, a closed channel
or a file that cannot be created, tells the table nothing. As long as no task
does, and no wait is given up, the table has exactly the logs whose tasks run,
but for those that a command is just stopping.
-/

import Commmon.LogStops

set_option autoImplicit false

namespace Commmon

open Broadcast

namespace Logs

/-- The log of the port is in the table, and its task runs. -/
def Recording (l : Logs) (port : String) : Prop :=
  ∃ log, l.table.lookup port = some log ∧ (l.tasks log.id).portName = port ∧
    (l.tasks log.id).pc ≠ .ended

/-- The task of a log was given the port and the file that the table has. -/
def Named (l : Logs) : Prop :=
  ∀ port log, l.table.lookup port = some log →
    (l.tasks log.id).portName = port ∧ (l.tasks log.id).filePath = log.filePath

variable {l l' : Logs}

theorem TaskMoves.named {m : SerialManager} {id : LogId} {e : LogEvent} {task' : LogTask}
    (h : l.TaskMoves m id e task') :
    task'.portName = (l.tasks id).portName ∧ task'.filePath = (l.tasks id).filePath := by
  cases h <;> exact ⟨rfl, rfl⟩

theorem Named.setTask (h : l.Named) {id : LogId} {task' : LogTask}
    (hname : task'.portName = (l.tasks id).portName ∧ task'.filePath = (l.tasks id).filePath) :
    (l.setTask id task').Named := by
  intro port log hlog
  by_cases hid : log.id = id
  · simpa [Logs.setTask, hid, hname.1, hname.2] using h port log hlog
  · simpa [Logs.setTask, hid] using h port log hlog

theorem Named.changes {m : SerialManager} (h : l.Named) (hchanges : LogWorld.Changes m l l') :
    l'.Named := by
  cases hchanges with
  | same => exact h
  | registered port rx filePath keyword duration hfree =>
      intro q log hlog
      have htasks := l.tasks_register port rx filePath keyword duration
      rw [lookup_register] at hlog
      rw [htasks]
      split_ifs at hlog with hq
      · obtain rfl := Option.some.inj hlog
        simp [hq]
      · rw [Function.update_of_ne (Nat.ne_of_lt (l.id_lt q log hlog))]
        exact h q log hlog
  | updated port log hlog keyword secs =>
      intro q x hx
      have htasks := tasks_update hlog keyword secs
      rw [lookup_update] at hx
      rw [htasks]
      split_ifs at hx with hq
      · obtain rfl := Option.some.inj hx
        exact hq ▸ h port log hlog
      · exact h q x hx
  | removed port log hlog =>
      intro q x hx
      rw [lookup_remove] at hx
      split_ifs at hx
      exact h q x hx
  | drained =>
      intro q x hx
      simp [lookup_drain] at hx
  | moved id e task' hmove => exact h.setTask hmove.named
  | matched id entry kw lines hpc hmatched =>
      have htask : (l.setTask id { l.tasks id with pc := .ended, lines := lines }).Named :=
        h.setTask ⟨rfl, rfl⟩
      exact htask
  | expired t _ hexpire =>
      obtain ⟨-, rfl⟩ := expire_eq_some hexpire
      exact h

private theorem registered_register {port : String} (rx : Receiver) (filePath : String)
    (keyword : Option String) (duration : Option ℕ) (hfree : l.table.lookup port = none)
    (id : LogId) : (l.register port rx filePath keyword duration).Registered id ↔
      id = l.freshLog ∨ l.Registered id := by
  simp only [Registered, lookup_register]
  constructor
  · rintro ⟨q, log, hlog, rfl⟩
    split_ifs at hlog with hq
    · obtain rfl := Option.some.inj hlog
      exact Or.inl rfl
    · exact Or.inr ⟨q, log, hlog, rfl⟩
  · rintro (rfl | ⟨q, log, hlog, rfl⟩)
    · exact ⟨port, _, if_pos rfl, rfl⟩
    · have hq : q ≠ port := by
        rintro rfl
        simp [hfree] at hlog
      exact ⟨q, log, by rw [if_neg hq, hlog], rfl⟩

private theorem registered_update {port : String} {log : LogState}
    (hlog : l.table.lookup port = some log) (keyword : Option (Option String))
    (secs : Option ℕ) (id : LogId) :
    (l.update port log hlog keyword secs).Registered id ↔ l.Registered id := by
  simp only [Registered, lookup_update]
  constructor
  · rintro ⟨q, x, hx, rfl⟩
    split_ifs at hx with hq
    · obtain rfl := Option.some.inj hx
      exact ⟨port, log, hlog, rfl⟩
    · exact ⟨q, x, hx, rfl⟩
  · rintro ⟨q, x, hx, rfl⟩
    by_cases hq : q = port
    · subst hq
      obtain rfl := Option.some.inj (hlog.symm.trans hx)
      exact ⟨q, _, if_pos rfl, rfl⟩
    · exact ⟨q, x, by rw [if_neg hq, hx], rfl⟩

private theorem registered_remove {port : String} {log : LogState}
    (hlog : l.table.lookup port = some log) (id : LogId) :
    (l.remove port log).Registered id ↔ l.Registered id ∧ id ≠ log.id := by
  simp only [Registered, lookup_remove]
  constructor
  · rintro ⟨q, x, hx, rfl⟩
    split_ifs at hx with hq
    exact ⟨⟨q, x, hx, rfl⟩, fun hid => hq (l.id_inj q port x log hx hlog hid)⟩
  · rintro ⟨⟨q, x, hx, rfl⟩, hne⟩
    have hq : q ≠ port := by
      rintro rfl
      exact hne (congrArg LogState.id (Option.some.inj (hx.symm.trans hlog)))
    exact ⟨q, x, by rw [if_neg hq, hx], rfl⟩

end Logs

private theorem named_of_run {es : List LogEvent} {w : LogWorld} (hrun : logging.run es = some w) :
    w.logs.Named :=
  logs_invariant (fun port log h => by simp [Logs.new] at h)
    (fun _ _ _ h hchanges => h.changes hchanges) hrun

namespace LogWorld

variable {w w' : LogWorld} {e : LogEvent}

/-- No log task ends by itself while the table has its log, and no command gives
up waiting for one. -/
def Attended (s : LogWorld) : LogEvent → Prop
  | .createFile id ok => s.logs.Registered id → ok = true
  | .observeCancel id => ¬ s.logs.Registered id
  | .recv id => s.logs.Registered id → ∀ rx, s.serial.tryRecv (s.logs.tasks id).rx ≠ (.closed, rx)
  | .write id _ => s.logs.Registered id →
      ∀ entry, (s.logs.tasks id).pc = .writing entry → s.logs.matched id entry = none
  | .timeOut i => ∀ port log closing, s.calls i = some (.waiting port log closing) →
      (s.logs.tasks log.id).pc = .ended
  | _ => True

/-- A command has taken the log out of the table and waits for its task. -/
def Stopping (w : LogWorld) (id : LogId) : Prop :=
  ∃ i port log closing, w.calls i = some (.waiting port log closing) ∧ log.id = id

structure Reflects (w : LogWorld) : Prop where
  running : ∀ id, w.logs.Registered id → (w.logs.tasks id).pc ≠ .ended
  registered : ∀ id, (w.logs.tasks id).pc ≠ .ended → w.logs.Registered id ∨ w.Stopping id
  serving : ∀ i, w.calls i ≠ some (.start .closeAll) ∧ w.calls i ≠ some .drainingPorts

private theorem Stopping.of_calls {id : LogId} (h : w.Stopping id) {i : CallId}
    (hnot : ∀ port log closing, w.calls i = some (.waiting port log closing) → log.id ≠ id)
    (hcalls : ∀ j, j ≠ i → w'.calls j = w.calls j) : w'.Stopping id := by
  obtain ⟨j, port, log, closing, hj, hid⟩ := h
  have hne : j ≠ i := by
    rintro rfl
    exact hnot port log closing hj hid
  exact ⟨j, port, log, closing, by rw [hcalls j hne, hj], hid⟩

/-- A call moves on, and the logs stay as they are. -/
theorem Reflects.setCall (h : w.Reflects) {i : CallId} {pc : CallPc}
    (hlogs : w'.logs = w.logs) (hcalls : w'.calls = Function.update w.calls i (some pc))
    (hwait : ∀ port log closing, w.calls i = some (.waiting port log closing) →
      (w.logs.tasks log.id).pc = .ended)
    (hserving : pc ≠ .start .closeAll ∧ pc ≠ .drainingPorts) : w'.Reflects := by
  refine ⟨fun id => ?_, fun id hid => ?_, fun j => ?_⟩
  · rw [hlogs]
    exact h.running id
  · rw [hlogs] at hid ⊢
    refine (h.registered id hid).imp_right fun hstop => hstop.of_calls (i := i) ?_ ?_
    · rintro port log closing hpc rfl
      exact hid (hwait port log closing hpc)
    · intro j hj
      rw [hcalls, Function.update_of_ne hj]
  · rw [hcalls]
    by_cases hj : j = i
    · subst hj
      simpa using hserving
    · rw [Function.update_of_ne hj]
      exact h.serving j

/-- A task that is not in the table, or does not end, takes a step. -/
theorem Reflects.setTask (h : w.Reflects) {id : LogId} {task' : LogTask}
    (hpc : (w.logs.tasks id).pc ≠ .ended)
    (hended : w.logs.Registered id → task'.pc ≠ .ended) (hcalls : w'.calls = w.calls)
    (htable : w'.logs.table = w.logs.table)
    (htasks : w'.logs.tasks = Function.update w.logs.tasks id task') : w'.Reflects := by
  have hregistered : ∀ id', w'.logs.Registered id' ↔ w.logs.Registered id' := fun id' => by
    simp only [Logs.Registered, htable]
  refine ⟨fun id' hid' => ?_, fun id' hid' => ?_, fun i => by rw [hcalls]; exact h.serving i⟩
  · rw [hregistered] at hid'
    rw [htasks]
    by_cases heq : id' = id
    · subst heq
      simpa using hended hid'
    · rw [Function.update_of_ne heq]
      exact h.running id' hid'
  · have hold : (w.logs.tasks id').pc ≠ .ended := by
      by_cases heq : id' = id
      · exact heq ▸ hpc
      · rwa [htasks, Function.update_of_ne heq] at hid'
    rw [hregistered, Stopping, hcalls]
    exact h.registered id' hold

theorem Reflects.registered_step (h : w.Reflects) {i : CallId} {port : String} {rx : Receiver}
    {args : Value} {resp : Response} (filePath : String) (keyword : Option String)
    (duration : Option ℕ) (hpc : w.calls i = some (.register port rx args))
    (hfree : w.logs.table.lookup port = none) :
    ({ w with logs := w.logs.register port rx filePath keyword duration }.answer i
      resp).Reflects := by
  have htasks := w.logs.tasks_register port rx filePath keyword duration
  refine ⟨fun id hid => ?_, fun id hid => ?_, fun j => ?_⟩
  · obtain rfl | hold := (Logs.registered_register rx filePath keyword duration hfree id).mp hid
    · simp [htasks]
    · have hlt : id ≠ w.logs.freshLog := by
        obtain ⟨q, log, hlog, rfl⟩ := hold
        exact Nat.ne_of_lt (w.logs.id_lt q log hlog)
      simpa [htasks, hlt] using h.running id hold
  · by_cases hfresh : id = w.logs.freshLog
    · exact Or.inl ((Logs.registered_register rx filePath keyword duration hfree id).mpr
        (Or.inl hfresh))
    · have hrun : (w.logs.tasks id).pc ≠ .ended := by
        simpa [htasks, hfresh] using hid
      refine (h.registered id hrun).imp (fun hreg => ?_) fun hstop => ?_
      · exact (Logs.registered_register rx filePath keyword duration hfree id).mpr (Or.inr hreg)
      · exact hstop.of_calls (i := i) (fun _ _ _ hwait => by simp [hpc] at hwait)
          fun j hj => Function.update_of_ne hj _ _
  · by_cases hj : j = i
    · simp [hj]
    · simpa [hj] using h.serving j

theorem Reflects.stopBegun_step (h : w.Reflects) {i : CallId} {cmd : LogCommand}
    {port : String} {log : LogState} (closing : Option Value)
    (hpc : w.calls i = some (.start cmd)) (hlog : w.logs.table.lookup port = some log) :
    ({ w with logs := w.logs.remove port log, locked := some i }.setCall i
      (.waiting port log closing)).Reflects := by
  refine ⟨fun id hid => ?_, fun id hid => ?_, fun j => ?_⟩
  · exact h.running id ((Logs.registered_remove hlog id).mp hid).1
  · by_cases heq : id = log.id
    · exact Or.inr ⟨i, port, log, closing, by simp, heq.symm⟩
    · refine (h.registered id hid).imp (fun hreg => ?_) fun hstop => ?_
      · exact (Logs.registered_remove hlog id).mpr ⟨hreg, heq⟩
      · exact hstop.of_calls (i := i) (fun _ _ _ hwait => by simp [hpc] at hwait)
          fun j hj => Function.update_of_ne hj _ _
  · by_cases hj : j = i
    · simp [hj]
    · simpa [hj] using h.serving j

theorem Reflects.updated_step (h : w.Reflects) {i : CallId} {args : Value} {port : String}
    {log : LogState} {resp : Response} (hlog : w.logs.table.lookup port = some log)
    (keyword : Option (Option String)) (secs : Option ℕ)
    (hpc : w.calls i = some (.start (.updateLog args))) :
    ({ w with logs := w.logs.update port log hlog keyword secs }.answer i resp).Reflects := by
  have htasks := Logs.tasks_update hlog keyword secs
  have hsame : ({ w with logs := w.logs.update port log hlog keyword secs } :
      LogWorld).Reflects := by
    refine ⟨fun id hid => ?_, fun id hid => ?_, h.serving⟩
    · rw [htasks]
      exact h.running id ((Logs.registered_update hlog keyword secs id).mp hid)
    · rw [htasks] at hid
      exact (h.registered id hid).imp_left (Logs.registered_update hlog keyword secs id).mpr
  exact hsame.setCall (i := i) rfl rfl (fun _ _ _ hwait => by simp [hpc] at hwait) (by simp)

/-- One attended step. -/
theorem Reflects.step (h : w.Reflects) (hsteps : Steps w e w') (hattended : w.Attended e)
    (hops : ∀ i, e ≠ .call i .closeAll) : w'.Reflects := by
  cases hsteps with
  | called i cmd hnew =>
      refine h.setCall (i := i) rfl rfl (fun _ _ _ hwait => by simp [hnew] at hwait) ?_
      refine ⟨?_, by simp⟩
      rintro heq
      obtain rfl : cmd = .closeAll := by simpa using heq
      exact hops i rfl
  | answered i env pc resp hpc hworking =>
      refine h.setCall (i := i) rfl rfl (fun _ _ _ hwait => ?_) (by simp)
      obtain rfl := Option.some.inj (hpc.symm.trans hwait)
      nomatch hworking
  | opened i env args port config resp hpc hclosed =>
      exact h.setCall (i := i) rfl rfl (fun _ _ _ hwait => by simp [hpc] at hwait) (by simp)
  | subscribed i env args port rx hpc hrx =>
      exact h.setCall (i := i) rfl rfl (fun _ _ _ hwait => by simp [hpc] at hwait) (by simp)
  | registered i env args port rx filePath keyword duration resp hpc hlocked hfree =>
      exact h.registered_step filePath keyword duration hpc hfree
  | updated i env args port log hlog keyword secs resp hpc hlocked =>
      exact h.updated_step hlog keyword secs hpc
  | stopBegun i env cmd port log closing hpc hclosing hlocked hlog =>
      exact h.stopBegun_step closing hpc hlog
  | unlogged i env args port hpc hport hlocked hfree =>
      exact h.setCall (i := i) rfl rfl (fun _ _ _ hwait => by simp [hpc] at hwait) (by simp)
  | stopEnded i env port log closing hpc hended =>
      cases closing <;>
        exact h.setCall (i := i) rfl rfl
          (fun _ _ _ hwait => by
            obtain ⟨-, rfl, -⟩ : _ ∧ log = _ ∧ _ := by simpa using hpc.symm.trans hwait
            exact hended)
          (by simp)
  | timedOut i port log closing hpc =>
      have hended := hattended port log closing hpc
      cases closing <;>
        exact h.setCall (i := i) rfl rfl
          (fun _ _ _ hwait => by
            obtain ⟨-, rfl, -⟩ : _ ∧ log = _ ∧ _ := by simpa using hpc.symm.trans hwait
            exact hended)
          (by simp)
  | portClosed i env args port op resp hpc hport hopen =>
      exact h.setCall (i := i) rfl rfl (fun _ _ _ hwait => by simp [hpc] at hwait) (by simp)
  | drained i env hpc hlocked => exact absurd hpc (h.serving i).1
  | portsDrained i env hpc => exact absurd hpc (h.serving i).2
  | moved id e task' hmove =>
      refine h.setTask hmove.pc_ne (fun hreg => ?_) rfl rfl rfl
      cases hmove with
      | created hpc => simp
      | uncreated hpc => exact absurd (hattended hreg) (by decide)
      | cancelled hpc hcancel => exact absurd hreg hattended
      | received pos entry rx hpc hrecv => simp
      | lagged missed rx hpc hrecv => simp [hpc]
      | closed rx hpc hrecv => exact absurd hrecv (hattended hreg rx)
      | wrote ok entry hpc hmatched => simp
  | matched id ok entry kw lines l' hpc hmatched hl' =>
      have hrunning : (w.logs.tasks id).pc ≠ .ended := by simp [hpc]
      refine h.setTask hrunning (fun hreg => ?_) rfl (by rw [hl']; rfl) (by rw [hl']; rfl)
      exact absurd hmatched (by simp [hattended hreg entry hpc])
  | expired t l' hexpire =>
      obtain ⟨-, rfl⟩ := Logs.expire_eq_some hexpire
      exact ⟨h.running, h.registered, h.serving⟩
  | delivered k entry m' hdeliver => exact ⟨h.running, h.registered, h.serving⟩
  | readEnded k m' hend => exact ⟨h.running, h.registered, h.serving⟩

private theorem reflects_init : logging.init.Reflects where
  running id h := by
    obtain ⟨port, log, hlog, -⟩ := h
    simp [logging, Logs.new] at hlog
  registered id h := by simp [logging, Logs.new] at h
  serving i := by simp [logging]

end LogWorld

/-- When the table reflects the running logs. On a run in which no log task
ends by itself while its log is in the table, and no command gives up waiting for
one, the logs in the table are always running, and when no call is under way they
are all that run. Then a log is refused, updated or shown only while it is really
being recorded. -/
theorem table_reflects {es : List LogEvent} {w : LogWorld} (hrun : logging.run es = some w)
    (hops : ∀ i, .call i .closeAll ∉ es)
    (hattended : logging.Along (fun s e _ => s.Attended e) logging.init es) :
    (w.Quiescent → ∀ id, w.logs.Registered id ↔ (w.logs.tasks id).pc ≠ .ended) ∧
    (∀ port rx args env, (w.logs.startLog port rx args env).2 =
      .ofError s!"{port}의 로그가 이미 실행 중입니다." → w.logs.Recording port) ∧
    (∀ port args, (w.logs.updateLog port args).2.ok = true → w.logs.Recording port) ∧
    ∀ port, (∃ fields, w.logs.logInfo port = .object fields) → w.logs.Recording port := by
  have hreflects : w.Reflects :=
    logging.runFrom_invariant_along (A := fun e => ∀ i, e ≠ .call i .closeAll)
      (fun s e t hop hatt hs hstep => hs.step (LogWorld.step_steps hstep) hatt hop)
      (fun e he i heq => hops i (heq ▸ he)) hattended LogWorld.reflects_init hrun
  have hrecording : ∀ port, (w.logs.table.lookup port).isSome → w.logs.Recording port := by
    intro port hsome
    obtain ⟨log, hlog⟩ := Option.isSome_iff_exists.mp hsome
    exact ⟨log, hlog, (named_of_run hrun port log hlog).1,
      hreflects.running log.id ⟨port, log, hlog, rfl⟩⟩
  refine ⟨fun hquiet id => ⟨hreflects.running id, fun hid => ?_⟩, ?_, ?_, ?_⟩
  · apply (hreflects.registered id hid).resolve_right
    rintro ⟨i, port, log, closing, hi, -⟩
    obtain hnone | ⟨resp, hdone⟩ := hquiet i
    · simp [hnone] at hi
    · simp [hdone] at hi
  · intro port rx args env hrefused
    apply hrecording
    by_contra hfree
    simp [Logs.startLog, hfree, Response.successMsg, Response.ofError] at hrefused
  · intro port args hok
    apply hrecording
    unfold Logs.updateLog at hok
    split at hok
    · simp at hok
    · rename_i log hlog
      simp [hlog]
  · rintro port ⟨fields, hfields⟩
    apply hrecording
    unfold Logs.logInfo at hfields
    split at hfields
    · simp at hfields
    · rename_i log hlog
      simp [hlog]

/-- A call that has not been made stays so in a step that does not make it. -/
theorem LogWorld.Steps.calls_eq_none {w w' : LogWorld} {e : LogEvent} {i : CallId}
    (h : LogWorld.Steps w e w') (hnone : w.calls i = none) (hlabel : ∀ cmd, e ≠ .call i cmd) :
    w'.calls i = none := by
  have hset : ∀ {j pc pc'}, w.calls j = some pc →
      Function.update w.calls j (some pc') i = none := by
    intro j pc pc' hj
    have hne : i ≠ j := by
      rintro rfl
      simp [hnone] at hj
    rw [Function.update_of_ne hne, hnone]
  cases h with
  | called j cmd hnew =>
      have hne : i ≠ j := fun heq => hlabel cmd (heq ▸ rfl)
      simp [hne, hnone]
  | stopEnded j env port log closing hpc hended => cases closing <;> exact hset hpc
  | timedOut j port log closing hpc => cases closing <;> exact hset hpc
  | answered _ _ _ _ hpc | opened _ _ _ _ _ _ hpc | subscribed _ _ _ _ _ hpc
  | registered _ _ _ _ _ _ _ _ _ hpc | updated _ _ _ _ _ _ _ _ _ hpc
  | stopBegun _ _ _ _ _ _ hpc | unlogged _ _ _ _ hpc | portClosed _ _ _ _ _ _ hpc
  | drained _ _ hpc | portsDrained _ _ hpc => exact hset hpc
  | moved | matched | expired | delivered | readEnded => exact hnone

/-- Only calls with small numbers are made on the run, and of those none is under
way. -/
def idleBelow (n : ℕ) (es : List LogEvent) (w : LogWorld) : Bool :=
  (es.all fun
    | .call i _ => decide (i < n)
    | _ => true) &&
  (List.range n).all fun i =>
    match w.calls i with
    | none | some (.done _) => true
    | _ => false

theorem quiescent_of_idleBelow {es : List LogEvent} {w : LogWorld} {n : ℕ}
    (hrun : logging.run es = some w) (h : idleBelow n es w = true) : w.Quiescent := by
  simp only [idleBelow, Bool.and_eq_true, List.all_eq_true, List.mem_range] at h
  obtain ⟨hlabels, hidle⟩ := h
  intro i
  by_cases hi : i < n
  · have htest := hidle i hi
    split at htest
    · rename_i hnone
      exact Or.inl hnone
    · rename_i resp hdone
      exact Or.inr ⟨resp, hdone⟩
    · exact absurd htest (by decide)
  · refine Or.inl (logging.runFrom_invariant_on (P := fun w => w.calls i = none)
      (A := fun e => ∀ cmd, e ≠ .call i cmd)
      (fun s e t hlabel hs hstep => (LogWorld.step_steps hstep).calls_eq_none hs hlabel)
      (fun e he cmd heq => ?_) rfl hrun)
    subst heq
    exact hi (by simpa using hlabels _ he)

/-- A log whose keyword arrives: its task ends, and its entry stays. -/
def matchedLog : List LogEvent :=
  logCall 0 (.openPort (logArgs "P" [])) 1 ++
    logCall 1 (.startLog (logArgs "P" [("stopKeyword", .string "OK")])) 2 ++
    [.createFile 0 true, .deliver 0 ⟨"t", [79, 75]⟩, .recv 0, .write 0 true]

def staleEntry (es : List LogEvent) (w : LogWorld) : Bool :=
  idleBelow 2 es w && ((w.logs.table.lookup "P").any fun log => log.id == 0) &&
    decide ((w.logs.tasks 0).pc = .ended)

private theorem matchedLog_stale : (logging.run matchedLog).any (staleEntry matchedLog) = true := by
  decide +kernel

/-- With no call under way, the table may have a log whose task has ended. -/
theorem not_always_reflects :
    ¬ ∀ es w, logging.run es = some w → (∀ i, .call i .closeAll ∉ es) → w.Quiescent →
      ∀ id, w.logs.Registered id ↔ (w.logs.tasks id).pc ≠ .ended := by
  intro hreflects
  obtain ⟨w, hw, htest⟩ := (Option.any_eq_true _ _).mp matchedLog_stale
  simp only [staleEntry, Bool.and_eq_true, decide_eq_true_eq] at htest
  obtain ⟨⟨hidle, hany⟩, hended⟩ := htest
  obtain ⟨log, hlog, hid⟩ := (Option.any_eq_true _ _).mp hany
  have hops : ∀ i, .call i .closeAll ∉ matchedLog := by
    simp [matchedLog, logCall]
  exact (hreflects matchedLog w hw hops (quiescent_of_idleBelow hw hidle) 0).mp
    ⟨"P", log, hlog, beq_iff_eq.mp hid⟩ hended

/-- A log that has created its file. -/
def recordingLog : List LogEvent :=
  logCall 0 (.openPort (logArgs "P" [])) 1 ++ logCall 1 (.startLog (logArgs "P" [])) 2 ++
    [.createFile 0 true, .deliver 0 ⟨"t", [79, 75]⟩]

private theorem recordingLog_idle : (logging.run recordingLog).any (fun w =>
    idleBelow 2 recordingLog w && decide ((w.logs.tasks 0).pc = .selecting)) = true := by
  decide +kernel

/-- The theorem on a run without a stop. -/
theorem table_reflects_recording : ∃ w, logging.run recordingLog = some w ∧
    w.logs.Registered 0 := by
  obtain ⟨w, hw, htest⟩ := (Option.any_eq_true _ _).mp recordingLog_idle
  simp only [Bool.and_eq_true, decide_eq_true_eq] at htest
  obtain ⟨hidle, hpc⟩ := htest
  have hattended : logging.Along (fun s e _ => s.Attended e) logging.init recordingLog := by
    refine logging.along_of_labels (fun e he s t => ?_) _
    simp only [recordingLog, logCall, List.replicate, List.mem_append, List.mem_cons,
      List.not_mem_nil, or_false] at he
    obtain ((rfl | rfl) | (rfl | rfl | rfl)) | (rfl | rfl) := he
    all_goals simp [LogWorld.Attended]
  have hops : ∀ i, .call i .closeAll ∉ recordingLog := by
    simp [recordingLog, logCall]
  refine ⟨w, hw, ((table_reflects hw hops hattended).1
    (quiescent_of_idleBelow hw hidle) 0).mpr ?_⟩
  simp [hpc]

end Commmon

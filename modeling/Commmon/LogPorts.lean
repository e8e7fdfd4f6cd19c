/-
# Logs and the ports they record

`start_log` looks at the port under one lock and puts its log into the table
under another; `close_port` takes the log out under one and the port under
another. A close that runs between the two halves of a start, or a start whose
second half runs between the two halves of a close, leaves a log without its
port. Nothing else does.
-/

import Commmon.LogTable

set_option autoImplicit false

namespace Commmon

open Broadcast

/-- A receive does not change the channel of the receiver. -/
theorem SerialManager.tryRecv_chan (m : SerialManager) (rx : Receiver) :
    (m.tryRecv rx).2.chan = rx.chan := rfl

theorem Logs.TaskMoves.chan {l : Logs} {m : SerialManager} {id : LogId} {e : LogEvent}
    {task' : LogTask} (h : l.TaskMoves m id e task') :
    task'.rx.chan = (l.tasks id).rx.chan := by
  cases h with
  | received pos entry rx hpc hrecv =>
      have hrx := m.tryRecv_chan (l.tasks id).rx
      rwa [hrecv] at hrx
  | lagged missed rx hpc hrecv =>
      have hrx := m.tryRecv_chan (l.tasks id).rx
      rwa [hrecv] at hrx
  | created | uncreated | cancelled | closed | wrote => rfl

namespace LogWorld

variable {w w' : LogWorld} {e : LogEvent}

/-- A `close_port` of the port, or `close_all`, has stopped the port's log and not
yet taken the port. -/
def Closing (w : LogWorld) (port : String) : Prop :=
  ∃ i, (∃ args, w.calls i = some (.removing args) ∧ args.strArg "port" = some port) ∨
    w.calls i = some .drainingPorts

/-- A log that is put into the table records the current opening of a port that
nobody is closing. -/
def Steady (s : LogWorld) : LogEvent → Prop
  | .advance i _ => ∀ port rx args, s.calls i = some (.register port rx args) →
      s.logs.table.lookup port = none →
      (∃ op, s.serial.ports.lookup port = some op ∧ op.tx = rx.chan) ∧ ¬ s.Closing port
  | _ => True

/-- Every log's port is open with the channel that the log records. -/
def Backed (w : LogWorld) : Prop :=
  ∀ port log, w.logs.table.lookup port = some log →
    ∃ op, w.serial.ports.lookup port = some op ∧ (w.logs.tasks log.id).rx.chan = op.tx

structure Kept (w : LogWorld) : Prop where
  backed : w.Backed
  closing : ∀ port log, w.logs.table.lookup port = some log → ¬ w.Closing port
  locked : ∀ i port log closing, w.calls i = some (.waiting port log closing) →
    w.locked = some i ∧ w.logs.table.lookup port = none ∧
      ∀ args, closing = some args → args.strArg "port" = some port

theorem kept_init : logging.init.Kept where
  backed port log h := by simp [logging, Logs.new] at h
  closing port log h := by simp [logging, Logs.new] at h
  locked i port log closing h := by simp [logging] at h

/-- A call moves on without a close, and the logs and the open ports stay as they
are. -/
theorem Kept.setCall (h : w.Kept) {i : CallId} {pc : CallPc} (hbacked : w'.Backed)
    (htable : w'.logs.table = w.logs.table) (hlocked : w'.locked = w.locked)
    (hcalls : w'.calls = Function.update w.calls i (some pc))
    (hclosing : ∀ port log, w.logs.table.lookup port = some log →
      pc ≠ .drainingPorts ∧ ∀ args, pc = .removing args → args.strArg "port" ≠ some port)
    (hwait : ∀ port log closing, pc ≠ .waiting port log closing) : w'.Kept := by
  refine ⟨hbacked, fun port log hlog hclose => ?_, fun j port log closing hj => ?_⟩
  · rw [htable] at hlog
    obtain ⟨j, hj⟩ := hclose
    rw [hcalls] at hj
    by_cases hji : j = i
    · subst hji
      simp only [Function.update_self, Option.some.injEq] at hj
      obtain ⟨args, hpc, hport⟩ | hpc := hj
      · exact (hclosing port log hlog).2 args hpc hport
      · exact (hclosing port log hlog).1 hpc
    · rw [Function.update_of_ne hji] at hj
      exact h.closing port log hlog ⟨j, hj⟩
  · rw [hcalls] at hj
    by_cases hji : j = i
    · subst hji
      simp only [Function.update_self, Option.some.injEq] at hj
      exact absurd hj (hwait port log closing)
    · rw [Function.update_of_ne hji] at hj
      rw [hlocked, htable]
      exact h.locked j port log closing hj

/-- Without a lock nobody waits for a log task. -/
theorem Kept.not_waiting (h : w.Kept) (hlocked : w.locked = none) (i : CallId) (port : String)
    (log : LogState) (closing : Option Value) : w.calls i ≠ some (.waiting port log closing) := by
  intro hi
  exact absurd (h.locked i port log closing hi).1 (by simp [hlocked])

/-- A second half of `start_log`. -/
theorem Kept.registered_step (h : w.Kept) {i : CallId} {port : String} {rx : Receiver}
    {resp : Response} (filePath : String) (keyword : Option String) (duration : Option ℕ)
    (hlocked : w.locked = none)
    (hopen : ∃ op, w.serial.ports.lookup port = some op ∧ op.tx = rx.chan)
    (hsteady : ¬ w.Closing port) :
    ({ w with logs := w.logs.register port rx filePath keyword duration }.answer i
      resp).Kept := by
  have htasks := w.logs.tasks_register port rx filePath keyword duration
  have hclosing : ∀ q, ¬ w.Closing q →
      ¬ ({ w with logs := w.logs.register port rx filePath keyword duration }.answer i
        resp).Closing q := by
    rintro q hq ⟨j, hj⟩
    refine hq ⟨j, ?_⟩
    by_cases hji : j = i
    · simp [hji] at hj
    · simpa [hji] using hj
  refine ⟨fun q x hx => ?_, fun q x hx => ?_, fun j q x c hj => ?_⟩
  · simp only [answer_eq, logs_setCall, Logs.lookup_register, htasks] at hx ⊢
    split_ifs at hx with hq
    · obtain rfl := Option.some.inj hx
      obtain ⟨op, hop, htx⟩ := hopen
      exact ⟨op, hq ▸ hop, by simpa using htx.symm⟩
    · rw [Function.update_of_ne (Nat.ne_of_lt (w.logs.id_lt q x hx))]
      exact h.backed q x hx
  · simp only [answer_eq, logs_setCall, Logs.lookup_register] at hx
    split_ifs at hx with hq
    · exact hclosing q (hq ▸ hsteady)
    · exact hclosing q (h.closing q x hx)
  · by_cases hji : j = i
    · simp [hji] at hj
    · exact absurd (by simpa [hji] using hj) (h.not_waiting hlocked j q x c)

/-- A log leaves the table, and its call begins to wait. -/
theorem Kept.stopBegun_step (h : w.Kept) {i : CallId} {cmd : LogCommand} {port : String}
    {log : LogState} {closing : Option Value} (hpc : w.calls i = some (.start cmd))
    (hclosing : ∀ args, closing = some args → args.strArg "port" = some port)
    (hlocked : w.locked = none) :
    ({ w with logs := w.logs.remove port log, locked := some i }.setCall i
      (.waiting port log closing)).Kept := by
  refine ⟨fun q x hx => ?_, fun q x hx => ?_, fun j q x c hj => ?_⟩
  · simp only [logs_setCall, Logs.lookup_remove] at hx
    split_ifs at hx with hq
    exact h.backed q x hx
  · simp only [logs_setCall, Logs.lookup_remove] at hx
    split_ifs at hx with hq
    rintro ⟨j, hj⟩
    refine h.closing q x hx ⟨j, ?_⟩
    by_cases hji : j = i
    · simp [hji] at hj
    · simpa [hji] using hj
  · by_cases hji : j = i
    · subst hji
      obtain ⟨rfl, rfl, rfl⟩ : port = q ∧ log = x ∧ closing = c := by simpa using hj
      exact ⟨rfl, by simp [Logs.lookup_remove], hclosing⟩
    · exact absurd (by simpa [hji] using hj) (h.not_waiting hlocked j q x c)

/-- A log that is updated stays the port's log, with its receiver. -/
theorem Kept.updated_step (h : w.Kept) {port : String} {log : LogState}
    (hlog : w.logs.table.lookup port = some log) (keyword : Option (Option String))
    (secs : Option ℕ) (hlocked : w.locked = none) :
    ({ w with logs := w.logs.update port log hlog keyword secs } : LogWorld).Kept := by
  have htasks := Logs.tasks_update hlog keyword secs
  have hold : ∀ q x, (w.logs.update port log hlog keyword secs).table.lookup q = some x →
      ∃ x', w.logs.table.lookup q = some x' ∧ x'.id = x.id := by
    intro q x hx
    rw [Logs.lookup_update] at hx
    split_ifs at hx with hq
    · obtain rfl := Option.some.inj hx
      exact ⟨log, hq ▸ hlog, rfl⟩
    · exact ⟨x, hx, rfl⟩
  refine ⟨fun q x hx => ?_, fun q x hx => ?_, fun j q x c hj => ?_⟩
  · obtain ⟨x', hx', hid⟩ := hold q x hx
    rw [htasks, ← hid]
    exact h.backed q x' hx'
  · obtain ⟨x', hx', -⟩ := hold q x hx
    exact h.closing q x' hx'
  · exact absurd hj (h.not_waiting hlocked j q x c)

/-- A wait is over, and a `close_port` goes on to the port. -/
theorem Kept.endStop_step (h : w.Kept) {i : CallId} {port : String} {log : LogState}
    {closing : Option Value} (hpc : w.calls i = some (.waiting port log closing)) :
    (w.endStop i port log closing).Kept := by
  obtain ⟨hlocked, hfree, hport⟩ := h.locked i port log closing hpc
  have hother : ∀ j q x c, j ≠ i → w.calls j ≠ some (.waiting q x c) := by
    intro j q x c hji hj
    have hlocked' := (h.locked j q x c hj).1
    exact hji (Option.some.inj (hlocked'.symm.trans hlocked))
  have hcalls : (w.endStop i port log closing).calls = Function.update w.calls i
      ((closing.map CallPc.removing).or (some (.done (some (.success (.value (.object
        [("port", .string port), ("file", .string log.filePath)]))))))) := by
    cases closing <;> rfl
  have hserial : (w.endStop i port log closing).serial = w.serial := by
    cases closing <;> rfl
  refine ⟨fun q x hx => ?_, fun q x hx => ?_, fun j q x c hj => ?_⟩
  · rw [logs_endStop] at hx ⊢
    rw [hserial]
    exact h.backed q x hx
  · rw [logs_endStop] at hx
    rintro ⟨j, hj⟩
    rw [hcalls] at hj
    by_cases hji : j = i
    · subst hji
      cases closing with
      | none => simp at hj
      | some args =>
          obtain rfl : port = q := by simpa [hport args rfl] using hj
          simp [hfree] at hx
    · exact h.closing q x hx ⟨j, by simpa [hji] using hj⟩
  · rw [hcalls] at hj
    by_cases hji : j = i
    · subst hji
      cases closing <;> simp at hj
    · exact absurd (by simpa [hji] using hj) (hother j q x c hji)

/-- One steady step. -/
theorem Kept.step (h : w.Kept) (hsteps : Steps w e w') (hsteady : w.Steady e) : w'.Kept := by
  cases hsteps with
  | called i cmd hnew => exact h.setCall h.backed rfl rfl rfl (by simp) (by simp)
  | answered i env pc resp hpc hworking =>
      exact h.setCall h.backed rfl rfl rfl (by simp) (by simp)
  | opened i env args port config resp hpc hclosed =>
      refine h.setCall (fun q x hx => ?_) rfl rfl rfl (by simp) (by simp)
      obtain ⟨op, hop, htx⟩ := h.backed q x hx
      have hq : q ≠ port := by
        rintro rfl
        simp [hclosed] at hop
      exact ⟨op, by simpa [hq] using hop, htx⟩
  | subscribed i env args port rx hpc hrx =>
      exact h.setCall h.backed rfl rfl rfl (by simp) (by simp)
  | registered i env args port rx filePath keyword duration resp hpc hlocked hfree =>
      obtain ⟨hopen, hclose⟩ := hsteady port rx args hpc hfree
      exact h.registered_step filePath keyword duration hlocked hopen hclose
  | updated i env args port log hlog keyword secs resp hpc hlocked =>
      have hkept := h.updated_step hlog keyword secs hlocked
      exact hkept.setCall hkept.backed rfl rfl rfl (by simp) (by simp)
  | stopBegun i env cmd port log closing hpc hclosing hlocked hlog =>
      exact h.stopBegun_step hpc hclosing hlocked
  | unlogged i env args port hpc hport hlocked hfree =>
      refine h.setCall h.backed rfl rfl rfl (fun q x hx => ⟨by simp, ?_⟩) (by simp)
      rintro args' heq hq
      obtain rfl : args = args' := by simpa using heq
      obtain rfl := Option.some.inj (hport.symm.trans hq)
      simp [hfree] at hx
  | stopEnded i env port log closing hpc hended => exact h.endStop_step hpc
  | timedOut i port log closing hpc => exact h.endStop_step hpc
  | portClosed i env args port op resp hpc hport hopen =>
      refine h.setCall (fun q x hx => ?_) rfl rfl rfl (by simp) (by simp)
      have hq : q ≠ port := by
        rintro rfl
        exact h.closing q x hx ⟨i, Or.inl ⟨args, hpc, hport⟩⟩
      obtain ⟨op', hop', htx⟩ := h.backed q x hx
      exact ⟨op', by simpa [hq] using hop', htx⟩
  | drained i env hpc hlocked =>
      refine ⟨fun q x hx => ?_, fun q x hx => ?_, fun j q x c hj => ?_⟩
      · simp [Logs.lookup_drain] at hx
      · simp [Logs.lookup_drain] at hx
      · by_cases hji : j = i
        · simp [hji] at hj
        · exact absurd (by simpa [hji] using hj) (h.not_waiting hlocked j q x c)
  | portsDrained i env hpc =>
      have hempty : ∀ q x, w.logs.table.lookup q ≠ some x := fun q x hx =>
        h.closing q x hx ⟨i, Or.inr hpc⟩
      exact h.setCall (fun q x hx => absurd hx (hempty q x)) rfl rfl rfl
        (fun q x hx => absurd hx (hempty q x)) (by simp)
  | moved id e task' hmove =>
      refine ⟨fun q x hx => ?_, h.closing, h.locked⟩
      obtain ⟨op, hop, htx⟩ := h.backed q x hx
      refine ⟨op, hop, ?_⟩
      by_cases hid : x.id = id
      · simpa [Logs.setTask, hid, hmove.chan] using htx
      · simpa [Logs.setTask, hid] using htx
  | matched id ok entry kw lines l' hpc hmatched hl' =>
      subst hl'
      refine ⟨fun q x hx => ?_, h.closing, h.locked⟩
      obtain ⟨op, hop, htx⟩ := h.backed q x hx
      refine ⟨op, hop, ?_⟩
      by_cases hid : x.id = id
      · simpa [Logs.setTask, Logs.announce, hid] using htx
      · simpa [Logs.setTask, Logs.announce, hid] using htx
  | expired t l' hexpire =>
      obtain ⟨-, rfl⟩ := Logs.expire_eq_some hexpire
      exact ⟨h.backed, h.closing, h.locked⟩
  | delivered k entry m' hdeliver =>
      obtain rfl := SerialManager.deliver_eq_some hdeliver
      exact ⟨h.backed, h.closing, h.locked⟩
  | readEnded k m' hend =>
      unfold SerialManager.endReadTask at hend
      split_ifs at hend
      obtain rfl := Option.some.inj hend
      exact ⟨h.backed, h.closing, h.locked⟩

end LogWorld

/-- When every log's port stays open. On a run in which `start_log` puts a log
into the table only while the opening it checked is still the current one and no
close of the port is half done, every log in the table records an open port, on
the channel of its current opening. -/
theorem logs_backed {es : List LogEvent} {w : LogWorld} (hrun : logging.run es = some w)
    (hsteady : logging.Along (fun s e _ => s.Steady e) logging.init es) : w.Backed := by
  have hkept : w.Kept :=
    logging.runFrom_invariant_along (A := fun _ => True)
      (fun s e t _ hsteady hs hstep => hs.step (LogWorld.step_steps hstep) hsteady)
      (fun _ _ => trivial) hsteady LogWorld.kept_init hrun
  exact hkept.backed

private theorem LogWorld.steady_of_calls {w : LogWorld} {i : CallId} {env : Logs.LogEnv}
    (h : ∀ port rx args, w.calls i ≠ some (.register port rx args)) : w.Steady (.advance i env) :=
  fun port rx args hpc => absurd hpc (h port rx args)

/-- Nobody closes the port on the run with one log. -/
theorem recordingLog_steady :
    logging.Along (fun s e _ => s.Steady e) logging.init recordingLog := by
  intro t ht
  obtain rfl := Option.some.inj ht
  refine ⟨trivial, fun t ht => ?_⟩
  obtain rfl := Option.some.inj ht
  refine ⟨LogWorld.steady_of_calls (by simp), fun t ht => ?_⟩
  obtain rfl := Option.some.inj ht
  refine ⟨trivial, fun t ht => ?_⟩
  obtain rfl := Option.some.inj ht
  refine ⟨LogWorld.steady_of_calls (by simp), fun t ht => ?_⟩
  obtain rfl := Option.some.inj ht
  refine ⟨?_, fun t ht => ⟨trivial, fun t ht => ⟨trivial, trivial⟩⟩⟩
  -- the second half of `start_log` finds the port open, and no other call
  intro port rx args hpc hfree
  obtain ⟨rfl, rfl, rfl⟩ : "P" = port ∧ _ = rx ∧ _ = args := by simpa using hpc
  refine ⟨⟨_, rfl, rfl⟩, ?_⟩
  rintro ⟨j, hj⟩
  by_cases h0 : j = 0 <;> by_cases h1 : j = 1 <;> simp_all [logging]

private theorem recordingLog_registered : (logging.run recordingLog).any (fun w =>
    (w.logs.table.lookup "P").isSome) = true := by
  decide +kernel

/-- The theorem on a run with a log. -/
theorem logs_backed_recording : ∃ w log op, logging.run recordingLog = some w ∧
    w.logs.table.lookup "P" = some log ∧ w.serial.ports.lookup "P" = some op ∧
    (w.logs.tasks log.id).rx.chan = op.tx := by
  obtain ⟨w, hw, htest⟩ := (Option.any_eq_true _ _).mp recordingLog_registered
  obtain ⟨log, hlog⟩ := Option.isSome_iff_exists.mp htest
  obtain ⟨op, hop, htx⟩ := logs_backed hw recordingLog_steady "P" log hlog
  exact ⟨w, log, op, hw, hlog, hop, htx⟩

/-- One client starts a log while another closes the port. -/
def closedMeanwhile : List LogEvent :=
  logCall 0 (.openPort (logArgs "P" [])) 1 ++ logCall 1 (.startLog (logArgs "P" [])) 1 ++
    logCall 2 (.closePort (logArgs "P" [])) 2 ++ [.advance 1 logEnv]

private theorem closedMeanwhile_unbacked : (logging.run closedMeanwhile).any (fun w =>
    idleBelow 3 closedMeanwhile w && (w.logs.table.lookup "P").isSome &&
      (w.serial.ports.lookup "P").isNone) = true := by
  decide +kernel

/-- With no call under way, the table may have a log of a port that is not open. -/
theorem not_always_backed :
    ¬ ∀ es w, logging.run es = some w → w.Quiescent → w.Backed := by
  intro hbacked
  obtain ⟨w, hw, htest⟩ := (Option.any_eq_true _ _).mp closedMeanwhile_unbacked
  simp only [Bool.and_eq_true] at htest
  obtain ⟨⟨hidle, hsome⟩, hnone⟩ := htest
  obtain ⟨log, hlog⟩ := Option.isSome_iff_exists.mp hsome
  obtain ⟨op, hop, -⟩ := hbacked _ w hw (quiescent_of_idleBelow hw hidle) "P" log hlog
  simp [hop] at hnone

end Commmon

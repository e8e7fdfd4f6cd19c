/-
# Calls on the serial manager come to their end

A call that holds the log table waits for one second at most, so the table is
free again after one step at the latest. A `port_status` and a `close_all` are
then answered after a step or two of their own.
-/

import Commmon.LogSteps

set_option autoImplicit false

namespace Commmon

/-- The call that a step belongs to. -/
def LogEvent.actor : LogEvent → Option CallId
  | .call i _ | .advance i _ | .timeOut i => some i
  | _ => none

namespace LogWorld

variable {w w' : LogWorld} {e : LogEvent} {i : CallId}

/-- Who holds the log table waits for a log task. -/
def Held (w : LogWorld) : Prop :=
  ∀ i, w.locked = some i → ∃ port log closing, w.calls i = some (.waiting port log closing)

theorem held_init : Held logging.init := by
  intro i hlocked
  simp [logging] at hlocked

/-- A call that does not wait takes a step, and the lock stays as it is. -/
theorem Held.setCall {pc : CallPc} (h : w.Held) (pc' : CallPc) (hlocked : w'.locked = w.locked)
    (hcalls : w'.calls = w.calls) (hpc : w.calls i = some pc)
    (hnot : ∀ port log closing, pc ≠ .waiting port log closing) : (w'.setCall i pc').Held := by
  intro j hj
  rw [locked_setCall, hlocked] at hj
  obtain ⟨port, log, closing, hwait⟩ := h j hj
  have hji : j ≠ i := by
    rintro rfl
    exact hnot port log closing (Option.some.inj (hpc.symm.trans hwait))
  exact ⟨port, log, closing, by rw [calls_setCall, Function.update_of_ne hji, hcalls, hwait]⟩

theorem Held.step (h : w.Held) (hstep : w.step e = some w') : w'.Held := by
  cases step_steps hstep with
  | called i cmd hnew =>
      intro j hj
      obtain ⟨port, log, closing, hwait⟩ := h j hj
      have hji : j ≠ i := by
        rintro rfl
        simp [hnew] at hwait
      exact ⟨port, log, closing, by rw [calls_setCall, Function.update_of_ne hji, hwait]⟩
  | answered i env pc resp hpc hworking =>
      exact h.setCall _ rfl rfl hpc (by cases hworking <;> simp)
  | opened i env args port config resp hpc hclosed => exact h.setCall _ rfl rfl hpc (by simp)
  | subscribed i env args port rx hpc hrx => exact h.setCall _ rfl rfl hpc (by simp)
  | registered i env args port rx filePath keyword duration resp hpc hlocked hfree =>
      exact h.setCall _ rfl rfl hpc (by simp)
  | updated i env args port log hlog keyword secs resp hpc hlocked =>
      exact h.setCall _ rfl rfl hpc (by simp)
  | stopBegun i env cmd port log closing hpc hclosing hlocked hlog =>
      intro j hj
      obtain rfl : i = j := by simpa using hj
      exact ⟨port, log, closing, by simp⟩
  | unlogged i env args port hpc hport hlocked hfree => exact h.setCall _ rfl rfl hpc (by simp)
  | stopEnded i env port log closing hpc hended =>
      intro j hj
      unfold endStop at hj
      split at hj <;> simp at hj
  | timedOut i port log closing hpc =>
      intro j hj
      unfold endStop at hj
      split at hj <;> simp at hj
  | portClosed i env args port op resp hpc hport hopen =>
      exact h.setCall _ rfl rfl hpc (by simp)
  | drained i env hpc hlocked => exact h.setCall _ rfl rfl hpc (by simp)
  | portsDrained i env hpc => exact h.setCall _ rfl rfl hpc (by simp)
  | moved | matched | expired | delivered | readEnded => exact h

/-- A step touches no call but its own. -/
theorem calls_of_step (hstep : w.step e = some w') (hne : e.actor ≠ some i) :
    w'.calls i = w.calls i := by
  have hown : ∀ {j : CallId}, e.actor = some j → i ≠ j := by
    rintro j hj rfl
    exact hne hj
  cases step_steps hstep with
  | timedOut j port log closing hpc =>
      unfold endStop
      split <;> simp [Function.update_of_ne (hown rfl)]
  | stopEnded j env port log closing hpc hended =>
      unfold endStop
      split <;> simp [Function.update_of_ne (hown rfl)]
  | called j | answered j | opened j | subscribed j | registered j | updated j | stopBegun j
  | unlogged j | portClosed j | drained j | portsDrained j =>
      simp [Function.update_of_ne (hown rfl)]
  | moved | matched | expired | delivered | readEnded => rfl

theorem calls_of_call {cmd : LogCommand} (hstep : w.step (.call i cmd) = some w') :
    w'.calls i = some (.start cmd) := by
  simp only [step] at hstep
  split at hstep
  · simp at hstep
  · obtain rfl := Option.some.inj hstep
    simp

/-- A call that does not wait stays where it is, or takes its next step. -/
theorem calls_cases {pc : CallPc} (hstep : w.step e = some w') (hpc : w.calls i = some pc)
    (hnot : ∀ port log closing, pc ≠ .waiting port log closing) :
    w'.calls i = some pc ∨ ∃ env, w.advance i env pc = some w' := by
  by_cases hactor : e.actor = some i
  · cases e with
    | call j cmd =>
        obtain rfl : j = i := by simpa [LogEvent.actor] using hactor
        simp [step, hpc] at hstep
    | advance j env =>
        obtain rfl : j = i := by simpa [LogEvent.actor] using hactor
        exact Or.inr ⟨env, by simpa [step, hpc] using hstep⟩
    | timeOut j =>
        obtain rfl : j = i := by simpa [LogEvent.actor] using hactor
        cases pc with
        | waiting port log closing => exact absurd rfl (hnot port log closing)
        | _ => simp [step, hpc] at hstep
    | _ => simp [LogEvent.actor] at hactor
  · exact Or.inl ((calls_of_step hstep hactor).trans hpc)

/-- Finitely many calls have been made. -/
def Bounded (w : LogWorld) : Prop := ∃ n : ℕ, ∀ i : ℕ, n ≤ i → w.calls i = none

theorem bounded_init : Bounded logging.init := ⟨0, fun _ _ => rfl⟩

theorem Bounded.step (h : w.Bounded) (hstep : w.step e = some w') : w'.Bounded := by
  obtain ⟨n, hn⟩ := h
  refine ⟨max n (e.actor.getD 0 + 1), fun i hi => ?_⟩
  have hactor : e.actor ≠ some i := by
    intro heq
    rw [heq, Option.getD_some] at hi
    exact absurd ((le_max_right n (i + 1)).trans hi) (Nat.not_succ_le_self i)
  rw [calls_of_step hstep hactor]
  exact hn i ((le_max_left _ _).trans hi)

/-- One more call can be made. -/
theorem Bounded.exists_call (h : w.Bounded) :
    ∃ n, ∀ cmd, w.step (.call n cmd) = some (w.setCall n (.start cmd)) := by
  obtain ⟨n, hn⟩ := h
  exact ⟨n, fun cmd => by simp [LogWorld.step, hn n le_rfl]⟩

/-- A call for the ports has one step of its own. -/
theorem step_portStatus (hstep : w.step e = some w') (hpc : w.calls i = some (.start .portStatus)) :
    w'.calls i = some (.start .portStatus) ∨ ∃ resp, w'.calls i = some (.done (some resp)) := by
  obtain hsame | ⟨env, hadvance⟩ := calls_cases hstep hpc (by simp)
  · exact Or.inl hsame
  · simp only [advance, start] at hadvance
    split_ifs at hadvance
    obtain ⟨-, rfl⟩ := whenUnlocked_eq_some hadvance
    exact Or.inr ⟨w.logs.portStatus w.serial env, by simp⟩

/-- A `close_all` under way, or ended. -/
inductive Draining : CallPc → Prop
  | start : Draining (.start .closeAll)
  | drainingPorts : Draining .drainingPorts
  | done : Draining (.done none)

theorem step_draining {pc : CallPc} (hstep : w.step e = some w') (hpc : w.calls i = some pc)
    (hdraining : Draining pc) : ∃ pc', w'.calls i = some pc' ∧ Draining pc' := by
  obtain hsame | ⟨env, hadvance⟩ := calls_cases hstep hpc (by cases hdraining <;> simp)
  · exact ⟨pc, hsame, hdraining⟩
  · cases hdraining with
    | start =>
        obtain ⟨-, rfl⟩ := whenUnlocked_eq_some hadvance
        exact ⟨_, by simp, .drainingPorts⟩
    | drainingPorts =>
        obtain rfl := Option.some.inj hadvance
        exact ⟨_, by simp, .done⟩
    | done => simp [advance] at hadvance

theorem step_done {resp : Option Response} (hstep : w.step e = some w')
    (hpc : w.calls i = some (.done resp)) : w'.calls i = some (.done resp) := by
  obtain hsame | ⟨env, hadvance⟩ := calls_cases hstep hpc (by simp)
  · exact hsame
  · simp [advance] at hadvance

end LogWorld

/-- Neither a new call nor something that a port does. -/
def LogEvent.IsInternal : LogEvent → Prop
  | .call _ _ | .deliver _ _ | .endReadTask _ => False
  | _ => True

namespace LogWorld

variable {w : LogWorld} {i : CallId}

/-- The log table comes free, and calls that do not wait stay where they are. -/
theorem Held.unlocks (h : w.Held) :
    ∃ w', logging.ReachesBy LogEvent.IsInternal w w' ∧ w'.locked = none ∧
      ∀ i pc, w.calls i = some pc → (∀ port log closing, pc ≠ .waiting port log closing) →
        w'.calls i = some pc := by
  cases hlocked : w.locked with
  | none => exact ⟨w, .refl w, hlocked, fun i pc hpc _ => hpc⟩
  | some j =>
      obtain ⟨port, log, closing, hwait⟩ := h j hlocked
      have hstep : logging.step w (.timeOut j) = some (w.endStop j port log closing) := by
        simp [logging, LogWorld.step, hwait]
      refine ⟨_, .of_step hstep trivial, ?_, fun i pc hpc hnot => ?_⟩
      · unfold endStop
        split <;> simp
      · have hij : i ≠ j := by
          rintro rfl
          exact hnot port log closing (Option.some.inj (hpc.symm.trans hwait))
        unfold endStop
        split <;> simp [Function.update_of_ne hij, hpc]

/-- The operating system's answers to a call that asks for the ports. -/
def statusEnv (w : LogWorld) : Logs.LogEnv :=
  ⟨.ok (), "", fun name => name, w.serial.ports.keys, fun _ => 0⟩

theorem Held.portStatus_completes (h : w.Held) (hpc : w.calls i = some (.start .portStatus)) :
    ∃ w' resp, logging.ReachesBy LogEvent.IsInternal w w' ∧
      w'.calls i = some (.done (some resp)) := by
  obtain ⟨m, hreach, hlocked, hkept⟩ := h.unlocks
  have hm := hkept i _ hpc (by simp)
  have hstep : logging.step m (.advance i m.statusEnv) =
      some (m.answer i (m.logs.portStatus m.serial m.statusEnv)) := by
    simp [logging, LogWorld.step, hm, advance, start, whenUnlocked, hlocked, statusEnv]
  exact ⟨_, m.logs.portStatus m.serial m.statusEnv, hreach.trans (.of_step hstep trivial),
    by simp⟩

theorem Held.closeAll_completes {pc : CallPc} (h : w.Held) (hpc : w.calls i = some pc)
    (hdraining : Draining pc) :
    ∃ w', logging.ReachesBy LogEvent.IsInternal w w' ∧ w'.calls i = some (.done none) := by
  have hports : ∀ {m : LogWorld}, m.calls i = some .drainingPorts →
      logging.step m (.advance i m.statusEnv) =
        some ({ m with serial := m.serial.closeAll }.setCall i (.done none)) := by
    intro m hm
    simp [logging, LogWorld.step, hm, advance]
  cases hdraining with
  | start =>
      obtain ⟨m, hreach, hlocked, hkept⟩ := h.unlocks
      have hm := hkept i _ hpc (by simp)
      have hstep : logging.step m (.advance i m.statusEnv) =
          some ({ m with logs := m.logs.drain }.setCall i .drainingPorts) := by
        simp [logging, LogWorld.step, hm, advance, LogWorld.start, whenUnlocked, hlocked]
      exact ⟨_, (hreach.trans (.of_step hstep trivial)).trans
        (.of_step (hports (by simp)) trivial), by simp⟩
  | drainingPorts => exact ⟨_, .of_step (hports hpc) trivial, by simp⟩
  | done => exact ⟨w, .refl w, hpc⟩

end LogWorld

end Commmon

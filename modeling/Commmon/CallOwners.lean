/-
# Whose call it is

A call on the serial manager or the monitor is made by one connection, or by the
clean-up, and nobody else takes its steps. So whoever holds the log table or the
handle of the monitor is a connection that waits for its own call, or the
clean-up.
-/

import Commmon.Locks
import Commmon.ProcessSteps

set_option autoImplicit false

namespace Commmon

/-- Neither of the clean-up nor of a `port_status` of the monitor. -/
def CallPc.Serving : CallPc → Prop
  | .start .portStatus | .start .closeAll | .drainingPorts | .done none => False
  | _ => True

private theorem LogWorld.Draining.not_serving {pc : CallPc} (h : LogWorld.Draining pc) :
    ¬ pc.Serving := by
  cases h <;> exact id

namespace LogWorld

variable {w w' : LogWorld} {i : CallId} {env : Logs.LogEnv} {pc : CallPc}

/-- After its step the call waits only if it took the log table in it. -/
theorem need_of_waiting (hadvance : w.advance i env pc = some w') {port : String} {log : LogState}
    {closing : Option Value} (hwait : w'.calls i = some (.waiting port log closing)) :
    pc.need = some .logs := by
  cases pc with
  | start cmd =>
      cases cmd with
      | openPort args =>
          obtain rfl := Option.some.inj hadvance
          simp at hwait
      | closePort args =>
          obtain ⟨resp, rfl⟩ | ⟨port, hport, -⟩ := startOn_eq_some hadvance
          · simp at hwait
          · simp [CallPc.need, LogCommand.need, hport]
      | startLog args =>
          obtain ⟨resp, rfl⟩ | ⟨port, -, hnext⟩ := startOn_eq_some hadvance
          · simp at hwait
          · split at hnext
            · obtain rfl := Option.some.inj hnext
              simp at hwait
            · obtain rfl := Option.some.inj hnext
              simp at hwait
      | updateLog args =>
          obtain ⟨resp, rfl⟩ | ⟨port, hport, -⟩ := startOn_eq_some hadvance
          · simp at hwait
          · simp [CallPc.need, LogCommand.need, hport]
      | stopLog args =>
          obtain ⟨resp, rfl⟩ | ⟨port, hport, -⟩ := startOn_eq_some hadvance
          · simp at hwait
          · simp [CallPc.need, LogCommand.need, hport]
      | portStatus => rfl
      | closeAll => rfl
  | register port rx args => rfl
  | waiting port log closing =>
      simp only [advance] at hadvance
      split_ifs at hadvance
      obtain rfl := Option.some.inj hadvance
      unfold endStop at hwait
      split at hwait <;> simp at hwait
  | removing args =>
      obtain rfl := Option.some.inj hadvance
      simp at hwait
  | drainingPorts =>
      obtain rfl := Option.some.inj hadvance
      simp at hwait
  | done resp => simp [advance] at hadvance

private theorem serving_setCall (w : LogWorld) (i : CallId) {pc : CallPc} (h : pc.Serving) :
    ∃ pc', (w.setCall i pc).calls i = some pc' ∧ pc'.Serving :=
  ⟨pc, by simp, h⟩

private theorem serving_endStop (w : LogWorld) (i : CallId) (port : String) (log : LogState)
    (closing : Option Value) :
    ∃ pc, (w.endStop i port log closing).calls i = some pc ∧ pc.Serving := by
  unfold endStop
  split
  · exact serving_setCall _ i trivial
  · exact serving_setCall _ i trivial

private theorem advance_serving (hpc : w.calls i = some pc) (hserving : pc.Serving)
    (hadvance : w.advance i env pc = some w') :
    ∃ pc', w'.calls i = some pc' ∧ pc'.Serving := by
  cases advance_steps hpc hadvance with
  | answered | opened | subscribed | registered | updated | stopBegun | unlogged | portClosed =>
      exact serving_setCall _ i trivial
  | stopEnded _ _ port log closing => exact serving_endStop w i port log closing
  | drained _ _ hdrain =>
      obtain rfl := Option.some.inj (hpc.symm.trans hdrain)
      exact hserving.elim
  | portsDrained _ _ hdrain =>
      obtain rfl := Option.some.inj (hpc.symm.trans hdrain)
      exact hserving.elim
  | moved id e task' hmove => cases hmove

/-- A call of a connection stays one. -/
theorem step_serving {e : LogEvent} (hstep : w.step e = some w') (hpc : w.calls i = some pc)
    (hserving : pc.Serving) : ∃ pc', w'.calls i = some pc' ∧ pc'.Serving := by
  by_cases hactor : e.actor = some i
  · cases e with
    | call j cmd =>
        obtain rfl : j = i := by simpa [LogEvent.actor] using hactor
        simp [LogWorld.step, hpc] at hstep
    | advance j env =>
        obtain rfl : j = i := by simpa [LogEvent.actor] using hactor
        exact advance_serving hpc hserving (by simpa [LogWorld.step, hpc] using hstep)
    | timeOut j =>
        obtain rfl : j = i := by simpa [LogEvent.actor] using hactor
        cases pc with
        | waiting port log closing =>
            obtain rfl : w.endStop j port log closing = w' := by
              simpa [LogWorld.step, hpc] using hstep
            exact serving_endStop w j port log closing
        | _ => simp [LogWorld.step, hpc] at hstep
    | _ => simp [LogEvent.actor] at hactor
  · exact ⟨pc, (calls_of_step hstep hactor).trans hpc, hserving⟩

/-- A call waits, or it did before, or it took the log table in this step. -/
theorem step_waiting {e : LogEvent} (hstep : w.step e = some w') {port : String} {log : LogState}
    {closing : Option Value} (hwait : w'.calls i = some (.waiting port log closing)) :
    w.calls i = some (.waiting port log closing) ∨
      (∃ env, e = .advance i env) ∧ (w.calls i).bind CallPc.need = some .logs := by
  by_cases hactor : e.actor = some i
  · cases e with
    | call j cmd =>
        obtain rfl : j = i := by simpa [LogEvent.actor] using hactor
        simp [calls_of_call hstep] at hwait
    | advance j env =>
        obtain rfl : j = i := by simpa [LogEvent.actor] using hactor
        obtain ⟨pc, hpc, hadvance⟩ := Option.bind_eq_some_iff.mp hstep
        exact Or.inr ⟨⟨env, rfl⟩, by simpa [hpc] using need_of_waiting hadvance hwait⟩
    | timeOut j =>
        obtain rfl : j = i := by simpa [LogEvent.actor] using hactor
        cases step_steps hstep with
        | timedOut _ port log closing hpc =>
            unfold endStop at hwait
            split at hwait <;> simp at hwait
        | moved id e task' hmove => cases hmove
    | _ => simp [LogEvent.actor] at hactor
  · exact Or.inl ((calls_of_step hstep hactor).symm.trans hwait)

end LogWorld

/-- No request is a `port_status` of the monitor alone. -/
theorem route_ne_portStatus (req : Request) : route req ≠ .monitor .portStatus := by
  unfold route
  split <;> simp

namespace DaemonState

variable {w w' : DaemonState} {e : HostEvent} {i : CallId} {k : Service × CallId}

/-- What happens to a call on the monitor. -/
inductive CallMoves (w : DaemonState) (i : CallId) : HostEvent → Option MonitorPc → Prop
  | same (e : HostEvent) : CallMoves w i e (w.calls i)
  | made (cmd : MonitorCommand) (hnew : w.calls i = none) :
      CallMoves w i (.call i cmd) (some (.start cmd))
  | entered (bound : Except String Unit) (cmd : MonitorCommand) (pc : MonitorPc)
      (hpc : w.calls i = some (.start cmd)) (hsection : ∀ cmd, pc ≠ .start cmd) :
      CallMoves w i (.advance i bound) (some pc)
  | answered (bound : Except String Unit) (pc : MonitorPc) (resp : Response)
      (hpc : w.calls i = some pc) : CallMoves w i (.advance i bound) (some (.done resp))

theorem step_call (hstep : w.step e = some w') (i : CallId) : CallMoves w i e (w'.calls i) := by
  have hset : ∀ {j : CallId} {pc : MonitorPc}, CallMoves w j e (some pc) →
      CallMoves w i e (Function.update w.calls j (some pc) i) := by
    intro j pc hmoves
    obtain rfl | hij := eq_or_ne i j
    · rwa [Function.update_self]
    · rw [Function.update_of_ne hij]
      exact .same e
  cases (step_steps hstep).2 with
  | called j cmd hnew hcmd => exact hset (.made cmd hnew)
  | asked j s hnew hs => exact hset (.made _ hnew)
  | answered j bound cmd resp hpc => exact hset (.answered bound _ resp hpc)
  | binding j bound args hpc hfree hnone => exact hset (.entered bound _ _ hpc (by simp))
  | bound j bound port hpc =>
      cases bound with
      | ok _ => exact hset (.answered _ _ _ hpc)
      | error e => exact hset (.answered _ _ _ hpc)
  | stopBegun j bound handle hpc hfree hsome => exact hset (.entered bound _ _ hpc (by simp))
  | stopped j bound hpc hreturned => exact hset (.answered bound _ _ hpc)
  | managed | interrupted | cleanBegun | cleanUnneeded | cleanStopped | exited | moved | left
  | served => exact .same _

/-- The manager stays as it is, or takes the step, or is called. -/
theorem step_serial (hstep : w.step e = some w') :
    w'.serial = w.serial ∨ (∃ le, e = .serial le ∧ w.serial.step le = some w'.serial) ∨
      ∃ j cmd, w.serial.step (.call j cmd) = some w'.serial := by
  cases (step_steps hstep).2 with
  | managed le s hs => exact Or.inr (Or.inl ⟨le, rfl, hs⟩)
  | asked j s hnew hs => exact Or.inr (Or.inr ⟨j, _, hs⟩)
  | cleanUnneeded j s hlocking hfree hs => exact Or.inr (Or.inr ⟨j, _, hs⟩)
  | cleanStopped j s hstopping hreturned hs => exact Or.inr (Or.inr ⟨j, _, hs⟩)
  | bound j bound port hpc =>
      cases bound with
      | ok _ => exact Or.inl rfl
      | error e => exact Or.inl rfl
  | called | answered | binding | stopBegun | stopped | interrupted | cleanBegun | exited | moved
  | left | served => exact Or.inl rfl

/-- A connection has made the call. -/
def Attends (w : DaemonState) : Service × CallId → Prop
  | (.manager, i) => ∃ pc, w.serial.calls i = some pc ∧ pc.Serving
  | (.monitor, i) => ∃ pc, w.calls i = some pc ∧ pc ≠ .start .portStatus

/-- The call keeps the lock of its service while it gives way. -/
def Occupies (w : DaemonState) : Service × CallId → Prop
  | (.manager, i) => ∃ port log closing, w.serial.calls i = some (.waiting port log closing)
  | (.monitor, i) => w.Holds (.call i)

/-- The lock that the call needs for its next step. -/
def callNeed (w : DaemonState) : Service × CallId → Option Lock
  | (.manager, i) => (w.serial.calls i).bind CallPc.need
  | (.monitor, i) => (w.calls i).bind MonitorPc.need

end DaemonState

/-- The lock that a call may keep. -/
def Service.lock : Service → Lock
  | .manager => .logs
  | .monitor => .monitor

namespace DaemonState

variable {w w' : DaemonState} {e : HostEvent} {i : CallId} {k : Service × CallId}

private theorem attends_step (hstep : w.step e = some w') (h : w.Attends k) : w'.Attends k := by
  obtain ⟨_ | _, i⟩ := k
  · obtain ⟨pc, hpc, hserving⟩ := h
    obtain hsame | ⟨le, -, hs⟩ | ⟨j, cmd, hs⟩ := step_serial hstep
    · exact ⟨pc, by rw [hsame, hpc], hserving⟩
    · exact LogWorld.step_serving hs hpc hserving
    · exact LogWorld.step_serving hs hpc hserving
  · obtain ⟨pc, hpc, hne⟩ := h
    have hmoves := step_call hstep i
    generalize hnext : w'.calls i = next at hmoves
    cases hmoves with
    | same e => exact ⟨pc, hnext.trans hpc, hne⟩
    | made cmd hnew => simp [hpc] at hnew
    | entered bound cmd pc' hstart hsection => exact ⟨pc', hnext, hsection _⟩
    | answered bound pc' resp hold => exact ⟨_, hnext, by simp⟩

theorem holds_call : w.Holds (.call i) ↔
    w.calls i = some .stopping ∨ ∃ port, w.calls i = some (.binding port) := by
  simp [Holds, Stopping]

/-- A call keeps its lock, or it did before, or it took the lock in this step. -/
theorem occupies_step (hstep : w.step e = some w') (h : w'.Occupies k) :
    w.Occupies k ∨ e.caller = some k ∧ w.callNeed k = some k.1.lock := by
  obtain ⟨_ | _, i⟩ := k
  · obtain ⟨port, log, closing, hwait⟩ := h
    obtain hsame | ⟨le, rfl, hs⟩ | ⟨j, cmd, hs⟩ := step_serial hstep
    · exact Or.inl ⟨port, log, closing, by rw [← hsame, hwait]⟩
    · obtain hbefore | ⟨⟨env, rfl⟩, hneed⟩ := LogWorld.step_waiting hs hwait
      · exact Or.inl ⟨port, log, closing, hbefore⟩
      · exact Or.inr ⟨rfl, hneed⟩
    · obtain hbefore | ⟨⟨env, he⟩, -⟩ := LogWorld.step_waiting hs hwait
      · exact Or.inl ⟨port, log, closing, hbefore⟩
      · simp at he
  · have hmoves := step_call hstep i
    have hholds : w'.Holds (.call i) := h
    rw [holds_call] at hholds
    generalize w'.calls i = next at hmoves hholds
    cases hmoves with
    | same e => exact Or.inl (holds_call.mpr hholds)
    | made cmd hnew => simp at hholds
    | entered bound cmd pc' hstart hsection =>
        exact Or.inr ⟨rfl, by simp [callNeed, hstart, MonitorPc.need, Service.lock]⟩
    | answered bound pc' resp hold => simp at hholds

private theorem caller_of_isFree (hfree : w.isFree e = true) (hcaller : e.caller = some k) :
    (∃ le, e = .serial le) ∧ ∃ j, w.cleanup = .closing j ∧ k = (.manager, j) := by
  unfold isFree at hfree
  replace hfree := (Bool.and_eq_true_iff.mp hfree).2
  split at hfree
  · rename_i j env j' hclosing
    obtain rfl : j = j' := by simpa using hfree
    obtain rfl : (.manager, j) = k := by simpa [HostEvent.caller] using hcaller
    exact ⟨⟨_, rfl⟩, j, hclosing, rfl⟩
  · simp [hcaller] at hfree

/-- A step that belongs to no connection lets no call keep a lock. -/
theorem Attended.free_occupies (h : w.Attended) (hfree : w.isFree e = true)
    (hstep : w.step e = some w') (hoccupies : w'.Occupies k) : w.Occupies k := by
  obtain hbefore | ⟨hcaller, -⟩ := occupies_step hstep hoccupies
  · exact hbefore
  · obtain ⟨⟨le, rfl⟩, j, hclosing, rfl⟩ := caller_of_isFree hfree hcaller
    have hclosing' : w'.cleanup = .closing j := by
      cases (step_steps hstep).2 with
      | managed | moved => exact hclosing
    obtain ⟨pc, hpc, hdraining⟩ := (h.step hstep).closing j hclosing'
    obtain ⟨port, log, closing, hwait⟩ := hoccupies
    obtain rfl := Option.some.inj (hpc.symm.trans hwait)
    exact (hdraining.not_serving trivial).elim

theorem caller_of_begins (h : e.begins = true) : e.caller = none := by
  unfold HostEvent.begins at h
  split at h
  · rfl
  · rfl
  · simp at h

/-- A call that is made keeps no lock, and lets no other keep one. -/
theorem occupies_of_begins (hbegins : e.begins = true) (hstep : w.step e = some w')
    (hoccupies : w'.Occupies k) : w.Occupies k := by
  obtain hbefore | ⟨hcaller, -⟩ := occupies_step hstep hoccupies
  · exact hbefore
  · simp [caller_of_begins hbegins] at hcaller

/-- The call of a request is a new one. -/
theorem callEvent_step {req : Request} (hcall : Process.callEvent req i = some e)
    (hstep : w.step e = some w') :
    e.begins = true ∧ ∃ k, (Stage.calling req i).call = some k ∧ ¬ w.Attends k ∧ w'.Attends k := by
  unfold Process.callEvent at hcall
  split at hcall
  · rename_i cmd hroute
    obtain rfl := Option.some.inj hcall
    rw [step_of_live (step_steps hstep).1] at hstep
    simp only [live] at hstep
    split_ifs at hstep with hdirect
    obtain ⟨s, hs, rfl⟩ := Option.map_eq_some_iff.mp hstep
    refine ⟨rfl, (.manager, i), by simp [Stage.call, hroute], ?_, ?_⟩
    · rintro ⟨pc, hpc, -⟩
      simp [LogWorld.step, hpc] at hs
    · refine ⟨_, LogWorld.calls_of_call hs, ?_⟩
      cases cmd with
      | portStatus | closeAll => simp [isDirect] at hdirect
      | _ => trivial
  · rename_i cmd hroute
    obtain rfl := Option.some.inj hcall
    rw [step_of_live (step_steps hstep).1] at hstep
    simp only [live] at hstep
    split at hstep
    · simp at hstep
    · rename_i hcmd
      exact absurd hroute (route_ne_portStatus req)
    · rename_i hnew hcmd
      obtain rfl := Option.some.inj hstep
      refine ⟨rfl, (.monitor, i), by simp [Stage.call, hroute], ?_, ?_⟩
      · rintro ⟨pc, hpc, -⟩
        simp [hnew] at hpc
      · exact ⟨_, Function.update_self .., by simpa using hcmd⟩
  · simp at hcall

/-- Who is said to hold the mutex is in a section that it guards. -/
def Manned (w : DaemonState) : Prop := ∀ p, w.holder = some p → w.Holds p

private theorem manned_init : Manned hosting.init := by
  intro p hp
  simp [hosting] at hp

/-- A call goes on that is in no section. -/
theorem Manned.setCall {pc : MonitorPc} (h : w.Manned) (hnot : ¬ w.Holds (.call i)) :
    Manned (w.setCall i pc) := by
  intro p hp
  have hpi : p ≠ .call i := by
    rintro rfl
    exact hnot (h _ hp)
  obtain hstopping | ⟨j, port, rfl, hbinding⟩ := h p hp
  · cases p with
    | call j =>
        have hji : j ≠ i := fun heq => hpi (congrArg _ heq)
        exact Or.inl ((Function.update_of_ne hji _ _).trans hstopping)
    | cleanup => exact Or.inl hstopping
  · have hji : j ≠ i := fun heq => hpi (congrArg _ heq)
    exact Or.inr ⟨j, port, rfl, (Function.update_of_ne hji _ _).trans hbinding⟩

/-- The clean-up goes on that is in no section. -/
theorem Manned.setCleanup {pc : CleanupPc} (h : w.Manned) (hnot : w.cleanup ≠ .stopping) :
    Manned { w with cleanup := pc } := by
  intro p hp
  obtain hstopping | hbinding := h p hp
  · cases p with
    | call j => exact Or.inl hstopping
    | cleanup => exact absurd hstopping hnot
  · exact Or.inr hbinding

private theorem Manned.of_free (hfree : w.holder = none) : w.Manned := by
  intro p hp
  simp [hfree] at hp

theorem Manned.step (h : w.Manned) (hstep : w.step e = some w') : w'.Manned := by
  cases (step_steps hstep).2 with
  | managed | moved | left | served => exact h
  | called i cmd hnew hcmd => exact h.setCall (by simp [holds_call, hnew])
  | asked i s hnew hs =>
      have hm : Manned { w with serial := s } := h
      exact hm.setCall (by simp [holds_call, hnew])
  | answered i bound cmd resp hpc => exact h.setCall (by simp [holds_call, hpc])
  | binding i bound args hpc hfree hnone =>
      intro p hp
      obtain rfl := Option.some.inj hp
      exact Or.inr ⟨i, _, rfl, Function.update_self ..⟩
  | bound i bound port hpc =>
      cases bound with
      | ok _ => exact .of_free rfl
      | error e => exact .of_free rfl
  | stopBegun i bound handle hpc hfree hsome =>
      intro p hp
      obtain rfl := Option.some.inj hp
      exact Or.inl (Function.update_self ..)
  | stopped i bound hpc hreturned => exact .of_free rfl
  | interrupted hidle => exact h.setCleanup (by simp [hidle])
  | cleanBegun i handle hlocking hfree hsome =>
      intro p hp
      obtain rfl := Option.some.inj hp
      exact Or.inl rfl
  | cleanUnneeded i s hlocking hfree hs => exact .of_free hfree
  | cleanStopped i s hstopping hreturned hs => exact .of_free rfl
  | exited i j hclosing => exact h.setCleanup (by simp [hclosing])

/-- Finitely many calls have been made on the monitor. -/
def Bounded (w : DaemonState) : Prop := ∃ n : ℕ, ∀ i : ℕ, n ≤ i → w.calls i = none

theorem Bounded.step (h : w.Bounded) (hstep : w.step e = some w') : w'.Bounded := by
  obtain ⟨n, hn⟩ := h
  have hnext : ∀ i : ℕ, n ≤ i → (∀ cmd, e ≠ .call i cmd) → w'.calls i = none := by
    intro i hi he
    have hmoves := step_call hstep i
    generalize w'.calls i = next at hmoves
    cases hmoves with
    | same e => exact hn i hi
    | made cmd hnew => exact absurd rfl (he cmd)
    | entered bound cmd pc hpc hsection => simp [hn i hi] at hpc
    | answered bound pc resp hpc => simp [hn i hi] at hpc
  by_cases hcall : ∃ (j : ℕ) (cmd : MonitorCommand), e = .call j cmd
  · obtain ⟨j, cmd, rfl⟩ := hcall
    refine ⟨max n (j + 1), fun i hi => hnext i ((le_max_left _ _).trans hi) fun cmd' heq => ?_⟩
    obtain rfl := (HostEvent.call.inj heq).1
    exact Nat.not_succ_le_self j ((le_max_right n (j + 1)).trans hi)
  · exact ⟨n, fun i hi => hnext i hi fun cmd heq => hcall ⟨i, cmd, heq⟩⟩

/-- Everything that holds of the shared state by itself. -/
structure Orderly (w : DaemonState) : Prop where
  attended : w.Attended
  guarded : w.Guarded
  manned : w.Manned
  bounded : w.Bounded

private theorem orderly_init : Orderly hosting.init where
  attended := attended_init
  guarded := guarded_init
  manned := manned_init
  bounded := ⟨0, fun _ _ => rfl⟩

theorem Orderly.step (h : w.Orderly) (hstep : w.step e = some w') : w'.Orderly where
  attended := h.attended.step hstep
  guarded := h.guarded.step hstep
  manned := h.manned.step hstep
  bounded := h.bounded.step hstep

end DaemonState

section Turns

variable {w : DaemonState} {c : ClientId} {e : ProcessEvent} {s s' : Stage}
  {k : Service × CallId}

/-- A call is one of a request that is routed to its service. -/
theorem Stage.call_cases (h : s.call = some k) :
    ∃ req i, s = .calling req i ∧ ((∃ cmd, route req = .manager cmd ∧ k = (.manager, i)) ∨
      ∃ cmd, route req = .monitor cmd ∧ k = (.monitor, i)) := by
  unfold Stage.call at h
  split at h
  · rename_i req i
    split at h
    · rename_i cmd hroute
      exact ⟨req, i, rfl, Or.inl ⟨cmd, hroute, (Option.some.inj h).symm⟩⟩
    · rename_i cmd hroute
      exact ⟨req, i, rfl, Or.inr ⟨cmd, hroute, (Option.some.inj h).symm⟩⟩
    · simp at h
  · simp at h

theorem Stage.call_manager {i : CallId} (h : s.call = some (.manager, i)) :
    ∃ req cmd, s = .calling req i ∧ route req = .manager cmd := by
  obtain ⟨req, j, rfl, ⟨cmd, hroute, hk⟩ | ⟨cmd, -, hk⟩⟩ := Stage.call_cases h
  · obtain rfl : i = j := congrArg Prod.snd hk
    exact ⟨req, cmd, rfl, hroute⟩
  · simp at hk

theorem Stage.call_monitor {i : CallId} (h : s.call = some (.monitor, i)) :
    ∃ req cmd, s = .calling req i ∧ route req = .monitor cmd := by
  obtain ⟨req, j, rfl, ⟨cmd, -, hk⟩ | ⟨cmd, hroute, hk⟩⟩ := Stage.call_cases h
  · simp at hk
  · obtain rfl : i = j := congrArg Prod.snd hk
    exact ⟨req, cmd, rfl, hroute⟩

/-- No step of a connection alone makes a call. -/
theorem Turns.calling {req : Request} {i : CallId} (h : Turns w c e s s')
    (hs' : s' = .calling req i) : s = s' := by
  cases h with
  | same => rfl
  | _ => simp at hs'

/-- A call that keeps its lock stays with its connection. -/
theorem Turns.call (h : Turns w c e s s') (hs : s.call = some k) (hoccupies : w.Occupies k) :
    s'.call = some k := by
  obtain ⟨req, i, hstage, -⟩ := Stage.call_cases hs
  cases h with
  | same => exact hs
  | line | parsed | located | listing | listed => simp at hstage
  | answered e s hnot => exact absurd hstage (hnot _ _)
  | resumed req i hdone =>
      obtain ⟨cmd, resp, hroute, hdone⟩ | ⟨cmd, resp, hroute, hdone⟩ := hdone
      · obtain rfl : (.manager, i) = k := by simpa [Stage.call, hroute] using hs
        obtain ⟨port, log, closing, hwait⟩ := hoccupies
        simp [hdone] at hwait
      · obtain rfl : (.monitor, i) = k := by simpa [Stage.call, hroute] using hs
        have hholds : w.Holds (.call i) := hoccupies
        simp [DaemonState.holds_call, hdone] at hholds

end Turns

namespace Process

variable {w w' : Process} {e : ProcessEvent} {c : ClientId} {k : Service × CallId}

/-- The calls of the shared state belong to the connections. -/
structure Tied (w : Process) : Prop where
  orderly : w.host.Orderly
  routed : ∀ c x req i, w.conns c = some x → x.stage = .calling req i →
    ∃ k, x.stage.call = some k
  attends : ∀ c x k, w.conns c = some x → x.stage.call = some k → w.host.Attends k
  unique : ∀ c d x y k, w.conns c = some x → w.conns d = some y → x.stage.call = some k →
    y.stage.call = some k → c = d
  owned : ∀ k, w.host.Occupies k → ∃ c x, w.conns c = some x ∧ x.stage.call = some k

theorem tied_init : Tied process.init where
  orderly := DaemonState.orderly_init
  routed c x req i hx := by simp [process] at hx
  attends c x k hx := by simp [process] at hx
  unique c d x y k hx := by simp [process] at hx
  owned k hoccupies := by
    obtain ⟨_ | _, i⟩ := k
    · obtain ⟨port, log, closing, hwait⟩ := hoccupies
      simp [process, hosting, logging] at hwait
    · exact absurd hoccupies (DaemonState.not_holds_init _)

private theorem conns_setConn (w : Process) (c d : ClientId) (x : Conn) :
    (w.setConn c x).conns d = if d = c then some x else w.conns d :=
  Function.update_apply _ _ _ _

/-- The shared state takes a step. -/
theorem Tied.host {he : HostEvent} {h : DaemonState} (hw : w.Tied)
    (hstep : w.host.step he = some h)
    (howned : ∀ k, h.Occupies k → ∃ c x, w.conns c = some x ∧ x.stage.call = some k) :
    Tied { w with host := h } where
  orderly := hw.orderly.step hstep
  routed := hw.routed
  attends c x k hx hcall := DaemonState.attends_step hstep (hw.attends c x k hx hcall)
  unique := hw.unique
  owned := howned

/-- A connection moves on. Its call, if it makes one, is nobody else's. -/
theorem Tied.update {x : Conn} (hw : w.Tied)
    (hrouted : ∀ req i, x.stage = .calling req i → ∃ k, x.stage.call = some k)
    (hattends : ∀ k, x.stage.call = some k → w.host.Attends k)
    (hunique : ∀ d y k, d ≠ c → w.conns d = some y → x.stage.call = some k →
      y.stage.call ≠ some k)
    (hkept : ∀ y k, w.conns c = some y → y.stage.call = some k → w.host.Occupies k →
      x.stage.call = some k) : Tied (w.setConn c x) := by
  have hconn : ∀ d y, (w.setConn c x).conns d = some y →
      (d = c ∧ y = x) ∨ d ≠ c ∧ w.conns d = some y := by
    intro d y hy
    rw [conns_setConn] at hy
    split_ifs at hy with hd
    · exact Or.inl ⟨hd, (Option.some.inj hy).symm⟩
    · exact Or.inr ⟨hd, hy⟩
  refine ⟨hw.orderly, fun d y req i hy hcalling => ?_, fun d y k hy hcall => ?_,
    fun d d' y y' k hy hy' hcall hcall' => ?_, fun k hoccupies => ?_⟩
  · obtain ⟨-, rfl⟩ | ⟨-, hy⟩ := hconn d y hy
    · exact hrouted req i hcalling
    · exact hw.routed d y req i hy hcalling
  · obtain ⟨-, rfl⟩ | ⟨-, hy⟩ := hconn d y hy
    · exact hattends k hcall
    · exact hw.attends d y k hy hcall
  · obtain ⟨rfl, rfl⟩ | ⟨hd, hold⟩ := hconn d y hy
    · obtain ⟨rfl, -⟩ | ⟨hd', hold'⟩ := hconn d' y' hy'
      · rfl
      · exact absurd hcall' (hunique d' y' k hd' hold' hcall)
    · obtain ⟨rfl, rfl⟩ | ⟨-, hold'⟩ := hconn d' y' hy'
      · exact absurd hcall (hunique d y k hd hold hcall')
      · exact hw.unique d d' y y' k hold hold' hcall hcall'
  · obtain ⟨d, y, hy, hcall⟩ := hw.owned k hoccupies
    by_cases hd : d = c
    · subst hd
      exact ⟨d, x, by simp [conns_setConn], hkept y k hy hcall hoccupies⟩
    · exact ⟨d, y, by simpa [conns_setConn, hd] using hy, hcall⟩

theorem Tied.step (hw : w.Tied) (hstep : w.step e = some w') : w'.Tied := by
  cases (step_steps hstep).2 with
  | hosted e h hfree hh =>
      refine hw.host hh fun k hoccupies => hw.owned k ?_
      exact hw.orderly.attended.free_occupies hfree hh hoccupies
  | connected c handler hnew =>
      apply hw.update (by simp) (by simp [Stage.call]) (by simp [Stage.call])
      intro y k hy
      simp [hnew] at hy
  | turned e c x x' hx hturns =>
      have hsame : ∀ k, x'.stage.call = some k → x.stage = x'.stage := by
        intro k hcall
        obtain ⟨req, i, hcalling, -⟩ := Stage.call_cases hcall
        exact hturns.calling hcalling
      refine hw.update (fun req i hcalling => ?_) (fun k hcall => ?_)
        (fun d y k hd hy hcall hcall' => ?_) fun y k hy hcall => ?_
      · have hstage := hturns.calling hcalling
        exact hstage ▸ hw.routed c x req i hx (hstage.trans hcalling)
      · exact hw.attends c x k hx ((hsame k hcall).symm ▸ hcall)
      · exact hd (hw.unique d c y x k hy hx hcall' ((hsame k hcall).symm ▸ hcall))
      · obtain rfl := Option.some.inj (hx.symm.trans hy)
        exact hturns.call hcall
  | called c i handler req e h hx hcall hh =>
      obtain ⟨hbegins, k, hk, hnew, hattends⟩ := DaemonState.callEvent_step hcall hh
      have hhost : Tied { w with host := h } := hw.host hh fun k' hoccupies =>
        hw.owned k' (DaemonState.occupies_of_begins hbegins hh hoccupies)
      refine hhost.update (fun _ _ _ => ⟨k, ?_⟩) (fun k' hcall => ?_)
        (fun d y k' hd hy hcall hcall' => ?_) fun y k' hy hcall => ?_
      · simpa using hk
      · obtain rfl := Option.some.inj (hk.symm.trans hcall)
        exact hattends
      · obtain rfl := Option.some.inj (hk.symm.trans hcall)
        exact hnew (hw.attends d y k hy hcall')
      · obtain rfl := Option.some.inj (hx.symm.trans hy)
        simp [Stage.call] at hcall
  | owned c e x k h hx hcall hcaller hh =>
      apply hw.host hh
      intro k' hoccupies
      obtain hbefore | ⟨hcaller', -⟩ := DaemonState.occupies_step hh hoccupies
      · exact hw.owned k' hbefore
      · obtain rfl := Option.some.inj (hcaller.symm.trans hcaller')
        exact ⟨c, x, hx, hcall⟩

theorem tied {es : List ProcessEvent} (hrun : process.run es = some w) : w.Tied :=
  process.run_invariant tied_init (fun _ _ _ h hstep => h.step hstep) hrun

end Process

end Commmon

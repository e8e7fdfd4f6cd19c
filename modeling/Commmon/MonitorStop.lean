/-
# Stopping the monitor

Who stops the monitor holds its mutex until the server task has returned, and the
server returns when it sends nothing any more. The page ends by itself. The event
stream of a browser does not: its loop neither ends nor looks at the token, so
with a browser connected the stop waits until the browser leaves, and everybody
who needs the mutex waits with it.
-/

import Commmon.LogProgress
import Commmon.MonitorServer

set_option autoImplicit false

namespace Commmon

/-! ## What a step can do -/

namespace MonitorServer

variable {s s' : MonitorServer}

/-- A change of one connection. -/
inductive Moves (s : MonitorServer) : MonitorServer → Prop
  | connected (h : ℕ) (hnew : s.conns.lookup h = none) (hrunning : s.returned = false) :
      Moves s (s.setBody h .idle)
  | requested (h : ℕ) (b : Body) (hidle : s.conns.lookup h = some .idle) : Moves s (s.setBody h b)
  | streamed (h : ℕ) (x x' : SseStream) (hx : s.conns.lookup h = some (.events x)) :
      Moves s (s.setBody h (.events x'))
  | finished (h : ℕ) (hhtml : s.conns.lookup h = some .html) : Moves s (s.setBody h .idle)

private theorem connect_moves {h : ℕ} (hs : s.connect h = some s') : s.Moves s' := by
  unfold connect at hs
  split at hs
  · rename_i hrunning hnew
    obtain rfl := Option.some.inj hs
    exact .connected h hnew hrunning
  · simp at hs

private theorem request_moves {h : ℕ} {events : Bool} (hs : s.request h events = some s') :
    s.Moves s' := by
  unfold request at hs
  split at hs
  · rename_i hidle
    obtain rfl := Option.some.inj hs
    exact .requested h _ hidle
  · simp at hs

private theorem stream_moves {m : SerialManager} {h : ℕ} {order : List String}
    (hs : s.stream m h order = some s') : s.Moves s' := by
  unfold stream at hs
  split at hs
  · rename_i x hx
    obtain ⟨x', -, rfl⟩ := Option.map_eq_some_iff.mp hs
    exact .streamed h x x' hx
  · simp at hs

private theorem finish_moves {h : ℕ} (hs : s.finish h = some s') : s.Moves s' := by
  unfold finish at hs
  split at hs
  · rename_i hhtml
    obtain rfl := Option.some.inj hs
    exact .finished h hhtml
  · simp at hs

@[simp] theorem cancelled_setBody (s : MonitorServer) (h : ℕ) (b : Body) :
    (s.setBody h b).cancelled = s.cancelled := rfl

@[simp] theorem returned_setBody (s : MonitorServer) (h : ℕ) (b : Body) :
    (s.setBody h b).returned = s.returned := rfl

theorem Moves.cancelled (h : s.Moves s') : s'.cancelled = s.cancelled := by
  cases h <;> rfl

theorem Moves.returned (h : s.Moves s') : s'.returned = s.returned := by
  cases h <;> rfl

private theorem lookup_setBody (s : MonitorServer) (h k : ℕ) (b : Body) :
    (s.setBody h b).conns.lookup k = if k = h then some b else s.conns.lookup k :=
  Table.lookup_insert _ _ _ _

/-- A stream goes on as long as its browser stays. -/
theorem Moves.streaming (h : s.Moves s') (hs : s.Streaming) : s'.Streaming := by
  obtain ⟨k, y, hy⟩ := hs
  have hother : ∀ {j : ℕ} (b : Body), k ≠ j → (s.setBody j b).Streaming := by
    intro j b hkj
    exact ⟨k, y, by rw [lookup_setBody, if_neg hkj, hy]⟩
  cases h with
  | connected j hnew =>
      apply hother _
      rintro rfl
      simp [hnew] at hy
  | requested j b hidle =>
      apply hother _
      rintro rfl
      simp [hidle] at hy
  | streamed j x x' hx =>
      obtain rfl | hkj := eq_or_ne k j
      · exact ⟨k, x', by simp [lookup_setBody]⟩
      · exact hother _ hkj
  | finished j hhtml =>
      apply hother _
      rintro rfl
      simp [hhtml] at hy

/-- A server that has returned has no connections. -/
def Ended (s : MonitorServer) : Prop := s.returned = true → ∀ h, s.conns.lookup h = none

theorem Moves.ended (h : s.Moves s') (hs : s.Ended) : s'.Ended := by
  intro hreturned
  have hnone := hs (h.returned ▸ hreturned)
  cases h with
  | connected j hnew hrunning => simp [hrunning] at hreturned
  | requested j b hidle => simp [hnone j] at hidle
  | streamed j x x' hx => simp [hnone j] at hx
  | finished j hhtml => simp [hnone j] at hhtml

/-- The server does not return while it streams. -/
theorem Streaming.not_drained (hs : s.Streaming) : ¬ s.Drained := by
  intro hdrained
  obtain ⟨h, x, hx⟩ := hs
  simp [hdrained h (Table.mem_keys_of_lookup hx)] at hx

end MonitorServer

namespace DaemonState

variable {w w' : DaemonState} {e : HostEvent} {i : CallId}

/-- Who did what in a step. -/
inductive Steps (w : DaemonState) : HostEvent → DaemonState → Prop
  | managed (e : LogEvent) (s : LogWorld) (hs : w.serial.step e = some s) :
      Steps w (.serial e) { w with serial := s }
  | called (i : CallId) (cmd : MonitorCommand) (hnew : w.calls i = none)
      (hcmd : cmd ≠ .portStatus) : Steps w (.call i cmd) (w.setCall i (.start cmd))
  | asked (i : CallId) (s : LogWorld) (hnew : w.calls i = none)
      (hs : w.serial.step (.call i .portStatus) = some s) :
      Steps w (.call i .portStatus) ({ w with serial := s }.setCall i (.start .portStatus))
  | answered (i : CallId) (bound : Except String Unit) (cmd : MonitorCommand) (resp : Response)
      (hpc : w.calls i = some (.start cmd)) : Steps w (.advance i bound) (w.answer i resp)
  | binding (i : CallId) (bound : Except String Unit) (args : Value)
      (hpc : w.calls i = some (.start (.openMonitor args))) (hfree : w.holder = none)
      (hnone : w.monitor = none) :
      Steps w (.advance i bound)
        ({ w with holder := some (.call i) }.setCall i (.binding (httpPort args)))
  | bound (i : CallId) (bound : Except String Unit) (port : ℕ)
      (hpc : w.calls i = some (.binding port)) : Steps w (.advance i bound) (w.bind i port bound)
  | stopBegun (i : CallId) (bound : Except String Unit) (handle : MonitorHandle)
      (hpc : w.calls i = some (.start .closeMonitor)) (hfree : w.holder = none)
      (hsome : w.monitor = some handle) :
      Steps w (.advance i bound) ((w.beginStop (.call i)).setCall i .stopping)
  | stopped (i : CallId) (bound : Except String Unit) (hpc : w.calls i = some .stopping)
      (hreturned : w.server.returned = true) :
      Steps w (.advance i bound) ({ w with holder := none }.answer i closed)
  | interrupted (hidle : w.cleanup = .idle) : Steps w .sigint { w with cleanup := .locking }
  | cleanBegun (i : CallId) (handle : MonitorHandle) (hlocking : w.cleanup = .locking)
      (hfree : w.holder = none) (hsome : w.monitor = some handle) :
      Steps w (.clean i) { w.beginStop .cleanup with cleanup := .stopping }
  | cleanUnneeded (i : CallId) (s : LogWorld) (hlocking : w.cleanup = .locking)
      (hfree : w.holder = none) (hs : w.serial.step (.call i .closeAll) = some s) :
      Steps w (.clean i) { w with serial := s, cleanup := .closing i }
  | cleanStopped (i : CallId) (s : LogWorld) (hstopping : w.cleanup = .stopping)
      (hreturned : w.server.returned = true) (hs : w.serial.step (.call i .closeAll) = some s) :
      Steps w (.clean i) { w with holder := none, serial := s, cleanup := .closing i }
  | exited (i j : CallId) (hclosing : w.cleanup = .closing j) :
      Steps w (.clean i) { w with cleanup := .exited }
  | moved (e : HostEvent) (s : MonitorServer) (hmoves : w.server.Moves s) :
      Steps w e { w with server := s }
  | left (h : ℕ) (s : MonitorServer) (hs : w.server.leave h = some s) :
      Steps w (.leave h) { w with server := s }
  | served (s : MonitorServer) (hs : w.server.serverReturn = some s) :
      Steps w .serverReturn { w with server := s }

theorem advance_steps {bound : Except String Unit} {pc : MonitorPc} (hpc : w.calls i = some pc)
    (h : w.advance i bound pc = some w') : Steps w (.advance i bound) w' := by
  cases pc with
  | start cmd =>
      simp only [advance] at h
      split_ifs at h with hfree
      cases cmd with
      | portStatus =>
          simp only [start] at h
          split at h
          · obtain rfl := Option.some.inj h
            exact .answered i bound _ _ hpc
          · simp at h
      | openMonitor args =>
          simp only [start] at h
          split at h
          · obtain rfl := Option.some.inj h
            exact .answered i bound _ _ hpc
          · rename_i hnone
            obtain rfl := Option.some.inj h
            exact .binding i bound args hpc hfree hnone
      | closeMonitor =>
          simp only [start] at h
          split at h
          · rename_i handle hsome
            obtain rfl := Option.some.inj h
            exact .stopBegun i bound handle hpc hfree hsome
          · obtain rfl := Option.some.inj h
            exact .answered i bound _ _ hpc
  | binding port =>
      obtain rfl := Option.some.inj h
      exact .bound i bound port hpc
  | stopping =>
      simp only [advance] at h
      split_ifs at h with hreturned
      obtain rfl := Option.some.inj h
      exact .stopped i bound hpc hreturned
  | done resp => simp [advance] at h

private theorem clean_steps (h : w.clean i = some w') : Steps w (.clean i) w' := by
  unfold clean at h
  split at h
  · rename_i hlocking
    split_ifs at h with hfree
    split at h
    · rename_i handle hsome
      obtain rfl := Option.some.inj h
      exact .cleanBegun i handle hlocking hfree hsome
    · obtain ⟨s, hs, rfl⟩ := Option.map_eq_some_iff.mp h
      exact .cleanUnneeded i s hlocking hfree hs
  · rename_i hstopping
    split_ifs at h with hreturned
    obtain ⟨s, hs, rfl⟩ := Option.map_eq_some_iff.mp h
    exact .cleanStopped i s hstopping hreturned hs
  · rename_i j hclosing
    split at h
    · obtain rfl := Option.some.inj h
      exact .exited i j hclosing
    · simp at h
  · simp at h

private theorem live_steps (h : w.live e = some w') : Steps w e w' := by
  cases e with
  | serial e =>
      simp only [live] at h
      split_ifs at h
      obtain ⟨s, hs, rfl⟩ := Option.map_eq_some_iff.mp h
      exact .managed e s hs
  | call i cmd =>
      simp only [live] at h
      split at h
      · simp at h
      · rename_i hnew
        obtain ⟨s, hs, rfl⟩ := Option.map_eq_some_iff.mp h
        exact .asked i s hnew hs
      · rename_i hnew hcmd
        obtain rfl := Option.some.inj h
        exact .called i _ hnew hcmd
  | advance i bound =>
      obtain ⟨pc, hpc, hadvance⟩ := Option.bind_eq_some_iff.mp h
      exact advance_steps hpc hadvance
  | sigint =>
      simp only [live] at h
      split at h
      · rename_i hidle
        obtain rfl := Option.some.inj h
        exact .interrupted hidle
      · simp at h
  | clean i => exact clean_steps h
  | connect k =>
      obtain ⟨s, hs, rfl⟩ := Option.map_eq_some_iff.mp h
      exact .moved _ s (MonitorServer.connect_moves hs)
  | request k events =>
      obtain ⟨s, hs, rfl⟩ := Option.map_eq_some_iff.mp h
      exact .moved _ s (MonitorServer.request_moves hs)
  | leave k =>
      obtain ⟨s, hs, rfl⟩ := Option.map_eq_some_iff.mp h
      exact .left k s hs
  | stream k order =>
      obtain ⟨s, hs, rfl⟩ := Option.map_eq_some_iff.mp h
      exact .moved _ s (MonitorServer.stream_moves hs)
  | finish k =>
      obtain ⟨s, hs, rfl⟩ := Option.map_eq_some_iff.mp h
      exact .moved _ s (MonitorServer.finish_moves hs)
  | serverReturn =>
      obtain ⟨s, hs, rfl⟩ := Option.map_eq_some_iff.mp h
      exact .served s hs

/-- Every step is one of these, and none is taken after the exit. -/
theorem step_steps (h : w.step e = some w') : w.cleanup ≠ .exited ∧ Steps w e w' := by
  unfold step at h
  split at h
  · simp at h
  · rename_i hlive
    exact ⟨hlive, live_steps h⟩

/-! ## The calls on the manager -/

@[simp] theorem calls_setCall (w : DaemonState) (i : CallId) (pc : MonitorPc) :
    (w.setCall i pc).calls = Function.update w.calls i (some pc) := rfl

@[simp] theorem answer_eq (w : DaemonState) (i : CallId) (resp : Response) :
    w.answer i resp = w.setCall i (.done resp) := rfl

/-- How far the calls are that a monitor command or the clean-up has made. -/
structure Attended (w : DaemonState) : Prop where
  held : w.serial.Held
  bounded : w.serial.Bounded
  asked : ∀ i, w.calls i = some (.start .portStatus) →
    w.serial.calls i = some (.start .portStatus) ∨
      ∃ resp, w.serial.calls i = some (.done (some resp))
  closing : ∀ i, w.cleanup = .closing i → ∃ pc, w.serial.calls i = some pc ∧ LogWorld.Draining pc

theorem attended_init : Attended hosting.init where
  held := LogWorld.held_init
  bounded := LogWorld.bounded_init
  asked i h := by simp [hosting] at h
  closing i h := by simp [hosting] at h

/-- The manager takes a step. -/
theorem Attended.managed {e : LogEvent} {s : LogWorld} (h : w.Attended)
    (hs : w.serial.step e = some s) : Attended { w with serial := s } where
  held := h.held.step hs
  bounded := h.bounded.step hs
  asked i hi := by
    obtain hstart | ⟨resp, hdone⟩ := h.asked i hi
    · exact LogWorld.step_portStatus hs hstart
    · exact Or.inr ⟨resp, LogWorld.step_done hs hdone⟩
  closing i hi := by
    obtain ⟨pc, hpc, hdraining⟩ := h.closing i hi
    exact LogWorld.step_draining hs hpc hdraining

/-- Neither asking for the ports nor closing them. -/
theorem Attended.of_eq (h : w.Attended) (hserial : w'.serial = w.serial)
    (hcalls : ∀ i, w'.calls i = some (.start .portStatus) → w.calls i = some (.start .portStatus))
    (hcleanup : ∀ i, w'.cleanup = .closing i → w.cleanup = .closing i) : w'.Attended where
  held := hserial ▸ h.held
  bounded := hserial ▸ h.bounded
  asked i hi := hserial ▸ h.asked i (hcalls i hi)
  closing i hi := hserial ▸ h.closing i (hcleanup i hi)

/-- The clean-up makes its call. -/
theorem Attended.closeAll {s : LogWorld} (h : w.Attended)
    (hs : w.serial.step (.call i .closeAll) = some s) :
    Attended { w with serial := s, cleanup := .closing i } := by
  have hm := h.managed hs
  refine ⟨hm.held, hm.bounded, hm.asked, fun j hj => ?_⟩
  obtain rfl : i = j := by simpa using hj
  exact ⟨.start .closeAll, LogWorld.calls_of_call hs, .start⟩

theorem Attended.step (h : w.Attended) (hstep : w.step e = some w') : w'.Attended := by
  have hother : ∀ {i : CallId} {pc : MonitorPc} (j : CallId), pc ≠ .start .portStatus →
      Function.update w.calls i (some pc) j = some (.start .portStatus) →
      w.calls j = some (.start .portStatus) := by
    intro i pc j hpc hj
    obtain rfl | hji := eq_or_ne j i
    · exact absurd (by simpa using hj) hpc
    · rwa [Function.update_of_ne hji] at hj
  cases (step_steps hstep).2 with
  | managed e s hs => exact h.managed hs
  | called i cmd hnew hcmd =>
      exact h.of_eq rfl (fun j => hother j (by simpa using hcmd)) fun _ => id
  | asked i s hnew hs =>
      have hm := h.managed hs
      refine ⟨hm.held, hm.bounded, fun j hj => ?_, hm.closing⟩
      obtain rfl | hji := eq_or_ne j i
      · exact Or.inl (LogWorld.calls_of_call hs)
      · exact hm.asked j (by simpa [Function.update_of_ne hji] using hj)
  | answered i bound cmd resp hpc => exact h.of_eq rfl (fun j => hother j (by simp)) fun _ => id
  | binding i bound args hpc hfree hnone =>
      exact h.of_eq rfl (fun j => hother j (by simp)) fun _ => id
  | bound i bound port hpc =>
      cases bound with
      | ok _ => exact h.of_eq rfl (fun j => hother j (by simp)) fun _ => id
      | error e => exact h.of_eq rfl (fun j => hother j (by simp)) fun _ => id
  | stopBegun i bound handle hpc hfree hsome =>
      exact h.of_eq rfl (fun j => hother j (by simp)) fun _ => id
  | stopped i bound hpc hreturned => exact h.of_eq rfl (fun j => hother j (by simp)) fun _ => id
  | interrupted hidle => exact h.of_eq rfl (fun _ => id) (by simp)
  | cleanBegun i handle hlocking hfree hsome => exact h.of_eq rfl (fun _ => id) (by simp)
  | cleanUnneeded i s hlocking hfree hs => exact h.closeAll hs
  | cleanStopped i s hstopping hreturned hs =>
      have hreleased : Attended { w with holder := none } :=
        h.of_eq rfl (fun _ => id) fun _ => id
      exact hreleased.closeAll hs
  | exited i j hclosing => exact h.of_eq rfl (fun _ => id) (by simp)
  | moved e s hmoves => exact h.of_eq rfl (fun _ => id) fun _ => id
  | left k s hs => exact h.of_eq rfl (fun _ => id) fun _ => id
  | served s hs => exact h.of_eq rfl (fun _ => id) fun _ => id

/-! ## The mutex -/

/-- Somebody waits for the server task. -/
def Stopping (w : DaemonState) : Party → Prop
  | .call i => w.calls i = some .stopping
  | .cleanup => w.cleanup = .stopping

/-- Somebody is in a section that the mutex guards. -/
def Holds (w : DaemonState) (p : Party) : Prop :=
  w.Stopping p ∨ ∃ i port, p = .call i ∧ w.calls i = some (.binding port)

/-- One at most is in such a section, and while it stops the monitor the token is
cancelled. Without a handle, and nobody stopping, no server runs. -/
structure Guarded (w : DaemonState) : Prop where
  holds : ∀ p, w.Holds p → w.holder = some p ∧ w.monitor = none
  cancelled : ∀ p, w.Stopping p → w.server.cancelled = true
  alone : w.monitor = none → (∀ p, ¬ w.Stopping p) → w.server.returned = true

theorem not_holds_init (p : Party) : ¬ hosting.init.Holds p := by
  rintro (hstopping | ⟨i, port, -, hbinding⟩)
  · cases p <;> simp [hosting, Stopping] at hstopping
  · simp [hosting] at hbinding

/-- Nobody is in a section. -/
theorem Guarded.of_not_holds (hnone : ∀ p, ¬ w.Holds p)
    (halone : w.monitor = none → w.server.returned = true) : w.Guarded where
  holds p h := absurd h (hnone p)
  cancelled p h := absurd (Or.inl h) (hnone p)
  alone hmonitor _ := halone hmonitor

theorem guarded_init : Guarded hosting.init := .of_not_holds not_holds_init fun _ => rfl

/-- Nobody is in a section while the mutex is free. -/
theorem Guarded.not_holds (h : w.Guarded) (hfree : w.holder = none) (p : Party) : ¬ w.Holds p := by
  intro hp
  have hholder := (h.holds p hp).1
  simp [hfree] at hholder

/-- Two that are in a section are the same. -/
theorem Guarded.unique (h : w.Guarded) {p q : Party} (hp : w.Holds p) (hq : w.Holds q) : q = p :=
  Option.some.inj ((h.holds q hq).1.symm.trans (h.holds p hp).1)

/-- Nobody enters or leaves a section. -/
theorem Guarded.of_eq (h : w.Guarded) (hholder : w'.holder = w.holder)
    (hmonitor : w'.monitor = w.monitor) (hcancelled : w'.server.cancelled = w.server.cancelled)
    (hreturned : w.server.returned = true → w'.server.returned = true)
    (hholds : ∀ p, w'.Holds p → w.Holds p) (hstopping : ∀ p, w'.Stopping p ↔ w.Stopping p) :
    w'.Guarded where
  holds p hp := hholder ▸ hmonitor ▸ h.holds p (hholds p hp)
  cancelled p hp := hcancelled ▸ h.cancelled p ((hstopping p).mp hp)
  alone hnone hall :=
    hreturned (h.alone (hmonitor ▸ hnone) fun p hp => hall p ((hstopping p).mpr hp))

/-- Another call stands where it did. -/
theorem holds_of_ne {pc : MonitorPc} {p : Party} (hne : p ≠ .call i)
    (hp : Holds (w.setCall i pc) p) : w.Holds p := by
  obtain hstopping | ⟨j, port, rfl, hbinding⟩ := hp
  · cases p with
    | call j =>
        have hji : j ≠ i := fun heq => hne (congrArg _ heq)
        exact Or.inl (by simpa [Stopping, Function.update_of_ne hji] using hstopping)
    | cleanup => exact Or.inl hstopping
  · have hji : j ≠ i := fun heq => hne (congrArg _ heq)
    exact Or.inr ⟨j, port, rfl, by simpa [Function.update_of_ne hji] using hbinding⟩

private theorem stopping_setCall {pc : MonitorPc} {p : Party} (hpc : pc ≠ .stopping)
    (hnot : ¬ w.Stopping (.call i)) : Stopping (w.setCall i pc) p ↔ w.Stopping p := by
  cases p with
  | call j =>
      obtain rfl | hji := eq_or_ne j i
      · simp only [Stopping, calls_setCall, Function.update_self] at hnot ⊢
        simp [hpc, hnot]
      · simp [Stopping, Function.update_of_ne hji]
  | cleanup => rfl

private theorem not_holds_setCall {pc : MonitorPc} (hpc : pc ≠ .stopping)
    (hbinding : ∀ port, pc ≠ .binding port) : ¬ Holds (w.setCall i pc) (.call i) := by
  rintro (hstopping | ⟨j, port, hij, hj⟩)
  · exact hpc (by simpa [Stopping] using hstopping)
  · obtain rfl : i = j := by simpa using hij
    exact hbinding port (by simpa using hj)

/-- A call goes on that is in no section, and enters none. -/
theorem Guarded.setCall {pc : MonitorPc} (h : w.Guarded) (hnot : ¬ w.Stopping (.call i))
    (hpc : pc ≠ .stopping) (hbinding : ∀ port, pc ≠ .binding port) : Guarded (w.setCall i pc) := by
  refine h.of_eq rfl rfl rfl id (fun p hp => ?_) fun p => stopping_setCall hpc hnot
  refine holds_of_ne ?_ hp
  rintro rfl
  exact not_holds_setCall hpc hbinding hp

/-- The call that was in a section has been answered. -/
theorem Guarded.not_holds_answered (h : w.Guarded) (hcall : w.Holds (.call i)) (resp : Response)
    (p : Party) : ¬ Holds (w.setCall i (.done resp)) p := by
  intro hp
  by_cases hpi : p = .call i
  · exact not_holds_setCall (by simp) (by simp) (hpi ▸ hp)
  · exact hpi (h.unique hcall (holds_of_ne hpi hp))

/-- Another party stands where it did. -/
theorem holds_of_cleanup {p : Party} (hne : p ≠ .cleanup) (hp : w'.Holds p)
    (hcalls : w'.calls = w.calls) : w.Holds p := by
  obtain hstopping | ⟨j, port, rfl, hbinding⟩ := hp
  · cases p with
    | call j => exact Or.inl (show w.calls j = _ from hcalls ▸ hstopping)
    | cleanup => exact absurd rfl hne
  · exact Or.inr ⟨j, port, rfl, hcalls ▸ hbinding⟩

theorem holds_cleanup : w.Holds .cleanup ↔ w.cleanup = .stopping := by
  simp [Holds, Stopping]

/-- The clean-up goes on that is in no section, and enters none. -/
theorem Guarded.setCleanup {pc : CleanupPc} (h : w.Guarded) (hnot : w.cleanup ≠ .stopping)
    (hpc : pc ≠ .stopping) : Guarded { w with cleanup := pc } := by
  refine h.of_eq rfl rfl rfl id (fun p hp => ?_) fun p => ?_
  · refine holds_of_cleanup ?_ hp rfl
    rintro rfl
    exact hpc (holds_cleanup.mp hp)
  · cases p with
    | call j => rfl
    | cleanup => simp [Stopping, hnot, hpc]

theorem Guarded.step (h : w.Guarded) (hstep : w.step e = some w') : w'.Guarded := by
  cases (step_steps hstep).2 with
  | managed e s hs => exact h.of_eq rfl rfl rfl id (fun _ => id) fun _ => Iff.rfl
  | called i cmd hnew hcmd => exact h.setCall (by simp [Stopping, hnew]) (by simp) (by simp)
  | asked i s hnew hs =>
      have hm : Guarded { w with serial := s } :=
        h.of_eq rfl rfl rfl id (fun _ => id) fun _ => Iff.rfl
      exact hm.setCall (by simp [Stopping, hnew]) (by simp) (by simp)
  | answered i bound cmd resp hpc =>
      exact h.setCall (by simp [Stopping, hpc]) (by simp) (by simp)
  | binding i bound args hpc hfree hnone =>
      have hnot : ∀ p, ¬ w.Stopping p := fun p hp => h.not_holds hfree p (Or.inl hp)
      refine ⟨fun p hp => ?_, fun p hp => ?_, fun _ _ => h.alone hnone hnot⟩
      · by_cases hpi : p = .call i
        · exact ⟨congrArg some hpi.symm, hnone⟩
        · exact absurd (holds_of_ne hpi hp) (h.not_holds hfree p)
      · exact absurd ((stopping_setCall (by simp) (hnot _)).mp hp) (hnot p)
  | bound i bound port hpc =>
      have hcall : w.Holds (.call i) := Or.inr ⟨i, port, rfl, hpc⟩
      have hreturned : w.server.returned = true := by
        apply h.alone (h.holds _ hcall).2
        intro p hp
        obtain rfl := h.unique hcall (Or.inl hp)
        simp [Stopping, hpc] at hp
      cases bound with
      | ok _ =>
          refine .of_not_holds (fun p hp => h.not_holds_answered hcall _ p hp) fun hopen => ?_
          simp [DaemonState.bind, DaemonState.setCall] at hopen
      | error e => exact .of_not_holds (h.not_holds_answered hcall _) fun _ => hreturned
  | stopBegun i bound handle hpc hfree hsome =>
      refine ⟨fun p hp => ?_, fun _ _ => rfl, fun _ hall => ?_⟩
      · by_cases hpi : p = .call i
        · exact ⟨congrArg some hpi.symm, rfl⟩
        · exact absurd (holds_of_ne hpi hp) (h.not_holds hfree p)
      · exact absurd (by simp [Stopping]) (hall (.call i))
  | stopped i bound hpc hreturned =>
      exact .of_not_holds (h.not_holds_answered (Or.inl hpc) closed) fun _ => hreturned
  | interrupted hidle =>
      exact h.setCleanup (by simp [hidle]) (by simp)
  | cleanBegun i handle hlocking hfree hsome =>
      refine ⟨fun p hp => ?_, fun _ _ => rfl, fun _ hall => absurd rfl (hall .cleanup)⟩
      by_cases hpc : p = .cleanup
      · exact ⟨congrArg some hpc.symm, rfl⟩
      · exact (h.not_holds hfree p (holds_of_cleanup hpc hp rfl)).elim
  | cleanUnneeded i s hlocking hfree hs =>
      have hm : Guarded { w with serial := s } :=
        h.of_eq rfl rfl rfl id (fun _ => id) fun _ => Iff.rfl
      exact hm.setCleanup (by simp [hlocking]) (by simp)
  | cleanStopped i s hstopping hreturned hs =>
      have hcleanup : w.Holds .cleanup := Or.inl hstopping
      have hnone : ∀ p,
          ¬ Holds { w with holder := none, serial := s, cleanup := .closing i } p := by
        intro p hp
        by_cases hpc : p = .cleanup
        · exact absurd (holds_cleanup.mp (hpc ▸ hp)) (by simp)
        · exact hpc (h.unique hcleanup (holds_of_cleanup hpc hp rfl))
      exact .of_not_holds hnone fun _ => hreturned
  | exited i j hclosing => exact h.setCleanup (by simp [hclosing]) (by simp)
  | moved e s hmoves =>
      exact h.of_eq rfl rfl hmoves.cancelled (hmoves.returned ▸ id) (fun _ => id) fun _ => Iff.rfl
  | left k s hs =>
      obtain ⟨b, -, rfl⟩ := Option.map_eq_some_iff.mp hs
      exact h.of_eq rfl rfl rfl id (fun _ => id) fun _ => Iff.rfl
  | served s hs =>
      unfold MonitorServer.serverReturn at hs
      split_ifs at hs
      obtain rfl := Option.some.inj hs
      exact h.of_eq rfl rfl rfl (fun _ => rfl) (fun _ => id) fun _ => Iff.rfl

theorem attended {es : List HostEvent} (hrun : hosting.run es = some w) : w.Attended :=
  hosting.run_invariant attended_init (fun _ _ _ h hstep => h.step hstep) hrun

theorem guarded {es : List HostEvent} (hrun : hosting.run es = some w) : w.Guarded :=
  hosting.run_invariant guarded_init (fun _ _ _ h hstep => h.step hstep) hrun

theorem ended {es : List HostEvent} (hrun : hosting.run es = some w) : w.server.Ended := by
  refine hosting.run_invariant (P := fun w => w.server.Ended) (fun _ _ => rfl) ?_ hrun
  intro w e w' h hstep
  cases (step_steps hstep).2 with
  | managed | called | asked | answered | binding | stopBegun | stopped | interrupted | cleanBegun
  | cleanUnneeded | cleanStopped | exited => exact h
  | bound i bound port hpc =>
      cases bound with
      | ok _ => exact fun _ _ => rfl
      | error e => exact h
  | moved e s hmoves => exact hmoves.ended h
  | left k s hs =>
      obtain ⟨b, -, rfl⟩ := Option.map_eq_some_iff.mp hs
      intro hreturned j
      rw [Table.lookup_erase, h hreturned j, ite_self]
  | served s hs =>
      unfold MonitorServer.serverReturn at hs
      split_ifs at hs
      obtain rfl := Option.some.inj hs
      exact fun _ _ => rfl

/-! ## While a browser is connected -/

/-- The stop of a party waits for a server that is streaming. -/
structure Wedged (p : Party) (w : DaemonState) : Prop where
  stopping : w.Stopping p
  running : w.server.returned = false
  streaming : w.server.Streaming

/-- Only a browser that leaves can change that. -/
theorem Wedged.step {p : Party} (h : w.Wedged p) (hw : w.Guarded) (hstep : w.step e = some w')
    (hstays : ∀ k, e ≠ .leave k) : w'.Wedged p := by
  have hp : w.Holds p := Or.inl h.stopping
  have hheld : w.holder ≠ none := by simp [(hw.holds p hp).1]
  have hcall : ∀ {i : CallId} {pc : MonitorPc}, w.calls i ≠ some .stopping →
      Stopping (w.setCall i pc) p := by
    intro i pc hne
    cases p with
    | call j =>
        have hji : j ≠ i := by
          rintro rfl
          exact hne h.stopping
        exact (Function.update_of_ne hji _ _).trans h.stopping
    | cleanup => exact h.stopping
  have hclean : ∀ {pc : CleanupPc}, w.cleanup ≠ .stopping →
      Stopping { w with cleanup := pc } p := by
    intro pc hne
    cases p with
    | call j => exact h.stopping
    | cleanup => exact absurd h.stopping hne
  cases (step_steps hstep).2 with
  | managed e s hs => exact ⟨h.stopping, h.running, h.streaming⟩
  | called i cmd hnone hcmd => exact ⟨hcall (by simp [hnone]), h.running, h.streaming⟩
  | asked i s hnone hs => exact ⟨hcall (by simp [hnone]), h.running, h.streaming⟩
  | answered i bound cmd resp hpc => exact ⟨hcall (by simp [hpc]), h.running, h.streaming⟩
  | binding i bound args hpc hfree hnone => exact absurd hfree hheld
  | bound i bound port hpc =>
      obtain rfl := hw.unique hp (Or.inr ⟨i, port, rfl, hpc⟩)
      have hstopping : w.calls i = some .stopping := h.stopping
      simp [hpc] at hstopping
  | stopBegun i bound handle hpc hfree hsome => exact absurd hfree hheld
  | stopped i bound hpc hreturned => simp [h.running] at hreturned
  | interrupted hidle => exact ⟨hclean (by simp [hidle]), h.running, h.streaming⟩
  | cleanBegun i handle hlocking hfree hsome => exact absurd hfree hheld
  | cleanUnneeded i s hlocking hfree hs => exact absurd hfree hheld
  | cleanStopped i s hstopping hreturned hs => simp [h.running] at hreturned
  | exited i j hclosing => exact ⟨hclean (by simp [hclosing]), h.running, h.streaming⟩
  | moved e s hmoves =>
      exact ⟨h.stopping, hmoves.returned.trans h.running, hmoves.streaming h.streaming⟩
  | left k s hs => exact absurd rfl (hstays k)
  | served s hs =>
      unfold MonitorServer.serverReturn at hs
      split_ifs at hs with hdrained
      exact absurd hdrained.2.2 h.streaming.not_drained

/-- Whatever else happens, the stop waits. -/
theorem Wedged.stuck {p : Party} {es : List HostEvent} (h : w.Wedged p) (hw : w.Guarded)
    (hstays : ∀ e ∈ es, ∀ k, e ≠ .leave k) (hrun : hosting.runFrom w es = some w') :
    w'.Wedged p :=
  (hosting.runFrom_invariant_on (P := fun w => w.Wedged p ∧ w.Guarded)
    (fun _ _ _ hstay h hstep => ⟨h.1.step h.2 hstep hstay, h.2.step hstep⟩) hstays ⟨h, hw⟩ hrun).1

/-! ## While none is connected -/

theorem step_of_live (hlive : w.cleanup ≠ .exited) (e : HostEvent) : w.step e = w.live e := by
  unfold step
  split
  · rename_i hexited
    exact absurd hexited hlive
  · rfl

theorem live_of_step (h : w.step e = some w') : w.live e = some w' :=
  (step_of_live (step_steps h).1 e).symm.trans h

end DaemonState

/-- What the daemon does by itself: no browser, no client, no signal and no device
has a part in it. -/
def HostEvent.IsDaemon : HostEvent → Prop
  | .serial e => e.IsInternal
  | .advance _ _ | .clean _ | .stream _ _ | .finish _ | .serverReturn => True
  | _ => False

namespace DaemonState

variable {w w' : DaemonState} {e : HostEvent} {i : CallId}

private theorem live_reaches (hlive : w.cleanup ≠ .exited) (hstep : w.live e = some w')
    (he : e.IsDaemon) : hosting.ReachesBy HostEvent.IsDaemon w w' :=
  .of_step ((step_of_live hlive e).trans hstep) he

/-- The manager's own steps are steps of the daemon. -/
theorem managed_reaches {s : LogWorld} (hlive : w.cleanup ≠ .exited)
    (h : logging.ReachesBy LogEvent.IsInternal w.serial s) :
    hosting.ReachesBy HostEvent.IsDaemon w { w with serial := s } := by
  obtain ⟨es, hes, hrun⟩ := h
  induction es generalizing w with
  | nil =>
      obtain rfl := Option.some.inj hrun
      exact .refl w
  | cons e es ih =>
      obtain ⟨m, hstep, hrest⟩ := logging.runFrom_cons_eq_some.mp hrun
      obtain ⟨hinternal, hes⟩ := List.forall_mem_cons.mp hes
      have hdirect : isDirect e = true := by
        cases e with
        | call i cmd => exact hinternal.elim
        | _ => rfl
      have hfirst : w.live (.serial e) = some { w with serial := m } := by
        rw [live, if_pos hdirect]
        exact congrArg (Option.map _) hstep
      exact (live_reaches hlive hfirst hinternal).trans
        (ih (w := { w with serial := m }) hlive hes hrest)

/-- Every page that is being sent comes to its end. -/
theorem pages_end (hlive : w.cleanup ≠ .exited) (ks : List ℕ) :
    ∃ s : MonitorServer, hosting.ReachesBy HostEvent.IsDaemon w { w with server := s } ∧
      s.cancelled = w.server.cancelled ∧ s.returned = w.server.returned ∧
      ∀ k, s.conns.lookup k = some .idle ∨
        s.conns.lookup k = w.server.conns.lookup k ∧ (k ∈ ks → s.conns.lookup k ≠ some .html) := by
  induction ks with
  | nil => exact ⟨w.server, .refl w, rfl, rfl, fun k => Or.inr ⟨rfl, by simp⟩⟩
  | cons j ks ih =>
      obtain ⟨s, hreach, hcancelled, hreturned, hlookup⟩ := ih
      by_cases hhtml : s.conns.lookup j = some .html
      · have hstep : live { w with server := s } (.finish j) =
            some { w with server := s.setBody j .idle } := by
          simp [live, ofServer, MonitorServer.finish, hhtml]
        refine ⟨s.setBody j .idle, hreach.trans (live_reaches hlive hstep trivial), hcancelled,
          hreturned, fun k => ?_⟩
        rw [MonitorServer.lookup_setBody]
        split_ifs with hkj
        · exact Or.inl rfl
        · simpa [hkj] using hlookup k
      · refine ⟨s, hreach, hcancelled, hreturned, fun k => (hlookup k).imp_right fun h => ?_⟩
        refine ⟨h.1, fun hk => ?_⟩
        obtain rfl | hmem := List.mem_cons.mp hk
        · exact hhtml
        · exact h.2 hmem

/-- The server returns, if no browser is being sent the event stream. -/
theorem server_returns {p : Party} (hlive : w.cleanup ≠ .exited) (hw : w.Guarded)
    (hp : w.Stopping p) (hquiet : ¬ w.server.Streaming) :
    ∃ s : MonitorServer, hosting.ReachesBy HostEvent.IsDaemon w { w with server := s } ∧
      s.returned = true := by
  cases hreturned : w.server.returned with
  | true => exact ⟨w.server, .refl w, hreturned⟩
  | false =>
      obtain ⟨s, hreach, hcancelled, hrunning, hlookup⟩ :=
        pages_end (w := w) hlive w.server.conns.keys
      have hdrained : s.Drained := by
        intro k hk
        obtain hidle | ⟨hsame, hpage⟩ := hlookup k
        · exact hidle
        · obtain ⟨b, hb⟩ := Table.exists_lookup_of_mem_keys hk
          cases b with
          | idle => exact hb
          | html => exact absurd hb (hpage (Table.mem_keys_of_lookup (hsame ▸ hb)))
          | events x => exact absurd ⟨k, x, hsame ▸ hb⟩ hquiet
      have hstep : live { w with server := s } .serverReturn =
          some { w with server := { s with returned := true, conns := ∅ } } := by
        have hguard : s.cancelled = true ∧ s.returned = false ∧ s.Drained :=
          ⟨hcancelled.trans (hw.cancelled p hp), hrunning.trans hreturned, hdrained⟩
        simp only [live, ofServer, MonitorServer.serverReturn, if_pos hguard, Option.map_some]
      exact ⟨_, hreach.trans (live_reaches hlive hstep trivial), rfl⟩

/-- What the party that stopped the monitor does next: it answers, or goes on to
the ports and logs. -/
def StopReturned (w : DaemonState) : Party → Prop
  | .call i => w.calls i = some (.done closed)
  | .cleanup => ∃ i, w.cleanup = .closing i

/-- A stop that waits for a streaming server does not return by what the daemon
does. -/
theorem Wedged.never_returns {p : Party} (h : w.Wedged p) (hw : w.Guarded)
    (hreach : hosting.ReachesBy HostEvent.IsDaemon w w') : ¬ w'.StopReturned p := by
  obtain ⟨es, hes, hrun⟩ := hreach
  have hstays : ∀ e ∈ es, ∀ k, e ≠ .leave k := by
    rintro e he k rfl
    exact hes _ he
  have hstopping := (h.stuck hw hstays hrun).stopping
  intro hreturned
  cases p with
  | call i =>
      have hdone : w'.calls i = some (.done closed) := hreturned
      have hwait : w'.calls i = some .stopping := hstopping
      simp [hdone] at hwait
  | cleanup =>
      obtain ⟨i, hclosing⟩ := hreturned
      have hwait : w'.cleanup = .stopping := hstopping
      simp [hclosing] at hwait

/-- Another party stands where it stood. -/
def SameFor (w w' : DaemonState) : Party → Prop
  | .call i => w'.calls i = w.calls i
  | .cleanup => w'.cleanup = w.cleanup

/-- The stop returns, and the mutex is released. -/
theorem stop_returns {p : Party} (hlive : w.cleanup ≠ .exited) (hw : w.Guarded)
    (hserial : w.Attended) (hp : w.Stopping p) (hquiet : ¬ w.server.Streaming) :
    ∃ w', hosting.ReachesBy HostEvent.IsDaemon w w' ∧ w'.StopReturned p ∧ w'.holder = none ∧
      w'.monitor = none ∧ w'.cleanup ≠ .exited ∧ ∀ q, q ≠ p → w.SameFor w' q := by
  obtain ⟨s, hreach, hreturned⟩ := server_returns hlive hw hp hquiet
  have hnone := (hw.holds p (Or.inl hp)).2
  cases p with
  | call i =>
      have hpc : w.calls i = some .stopping := hp
      have hstep : live { w with server := s } (.advance i (.ok ())) =
          some ({ w with server := s, holder := none }.answer i closed) := by
        simp [live, hpc, advance, hreturned]
      refine ⟨_, hreach.trans (live_reaches hlive hstep trivial), by simp [StopReturned], rfl,
        hnone, hlive, fun q hq => ?_⟩
      cases q with
      | call j =>
          have hji : j ≠ i := fun heq => hq (congrArg _ heq)
          simp [SameFor, Function.update_of_ne hji]
      | cleanup => rfl
  | cleanup =>
      have hstopping : w.cleanup = .stopping := hp
      obtain ⟨n, hcall⟩ := hserial.bounded.exists_call
      have hstep : live { w with server := s } (.clean n) =
          some { w with
            server := s, holder := none, serial := w.serial.setCall n (.start .closeAll)
            cleanup := .closing n } := by
        simp [live, clean, hstopping, hreturned, closeAll, hcall]
      refine ⟨_, hreach.trans (live_reaches hlive hstep trivial), ⟨n, rfl⟩, rfl, hnone, by simp,
        fun q hq => ?_⟩
      cases q with
      | call j => rfl
      | cleanup => exact absurd rfl hq

/-- The party has begun something that is not over. -/
def Pending (w : DaemonState) : Party → Prop
  | .call i => ∃ pc, w.calls i = some pc ∧ ∀ resp, pc ≠ .done resp
  | .cleanup => w.cleanup ≠ .idle

def Finished (w : DaemonState) : Party → Prop
  | .call i => ∃ resp, w.calls i = some (.done resp)
  | .cleanup => w.cleanup = .exited

/-- The daemon has steps after which the party is done. -/
def CanFinish (w : DaemonState) (p : Party) : Prop :=
  ∃ w', hosting.ReachesBy HostEvent.IsDaemon w w' ∧ w'.Finished p

/-- The clean-up closes the logs and the ports, and the process exits. -/
theorem closing_finishes (hlive : w.cleanup ≠ .exited) (h : w.Attended)
    (hclosing : w.cleanup = .closing i) : w.CanFinish .cleanup := by
  obtain ⟨pc, hpc, hdraining⟩ := h.closing i hclosing
  obtain ⟨s, hs, hdone⟩ := h.held.closeAll_completes hpc hdraining
  have hstep : live { w with serial := s } (.clean i) =
      some { w with serial := s, cleanup := .exited } := by
    simp [live, clean, hclosing, hdone]
  exact ⟨_, (managed_reaches hlive hs).trans (live_reaches hlive hstep trivial), rfl⟩

/-- While the mutex is free and there is no monitor, every command comes to its
end. -/
theorem command_finishes {cmd : MonitorCommand} (hlive : w.cleanup ≠ .exited) (h : w.Attended)
    (hfree : w.holder = none) (hnone : w.monitor = none) (hpc : w.calls i = some (.start cmd)) :
    w.CanFinish (.call i) := by
  cases cmd with
  | portStatus =>
      have hanswer : ∃ s resp, logging.ReachesBy LogEvent.IsInternal w.serial s ∧
          s.calls i = some (.done (some resp)) := by
        obtain hstart | ⟨resp, hdone⟩ := h.asked i hpc
        · exact h.held.portStatus_completes hstart
        · exact ⟨w.serial, resp, .refl _, hdone⟩
      obtain ⟨s, resp, hs, hdone⟩ := hanswer
      have hstep : live { w with serial := s } (.advance i (.ok ())) =
          some ({ w with serial := s }.answer i (addMonitor resp w.monitor)) := by
        simp [live, hpc, advance, hfree, start, hdone]
      exact ⟨_, (managed_reaches hlive hs).trans (live_reaches hlive hstep trivial),
        addMonitor resp w.monitor, by simp⟩
  | openMonitor args =>
      have hbind : w.live (.advance i (.ok ())) =
          some ({ w with holder := some (.call i) }.setCall i (.binding (httpPort args))) := by
        simp [live, hpc, advance, hfree, start, hnone]
      have hbound : live ({ w with holder := some (.call i) }.setCall i (.binding (httpPort args)))
          (.advance i (.ok ())) =
          some (({ w with holder := some (.call i) }.setCall i
            (.binding (httpPort args))).bind i (httpPort args) (.ok ())) := by
        simp [live, advance]
      have hreach : hosting.ReachesBy HostEvent.IsDaemon w
          ({ w with holder := some (.call i) }.setCall i (.binding (httpPort args))) :=
        live_reaches hlive hbind trivial
      exact ⟨_, hreach.trans (live_reaches hlive hbound trivial),
        _, Function.update_self ..⟩
  | closeMonitor =>
      have hstep : w.live (.advance i (.ok ())) =
          some (w.answer i (.ofError "모니터가 실행 중이 아닙니다.")) := by
        simp [live, hpc, advance, hfree, start, hnone]
      exact ⟨_, live_reaches hlive hstep trivial, _, Function.update_self ..⟩

/-- Nobody who has begun something is kept from finishing it. -/
theorem free_finishes {q : Party} (hlive : w.cleanup ≠ .exited) (hw : w.Guarded) (h : w.Attended)
    (hfree : w.holder = none) (hnone : w.monitor = none) (hq : w.Pending q) : w.CanFinish q := by
  have hnot := hw.not_holds hfree q
  cases q with
  | call i =>
      obtain ⟨pc, hpc, hopen⟩ := hq
      cases pc with
      | start cmd => exact command_finishes hlive h hfree hnone hpc
      | binding port => exact absurd (Or.inr ⟨i, port, rfl, hpc⟩) hnot
      | stopping => exact absurd (Or.inl hpc) hnot
      | done resp => exact absurd rfl (hopen resp)
  | cleanup =>
      cases hcleanup : w.cleanup with
      | idle => exact absurd hcleanup hq
      | locking =>
          obtain ⟨n, hcall⟩ := h.bounded.exists_call
          have hstep : w.live (.clean n) = some { w with
              serial := w.serial.setCall n (.start .closeAll), cleanup := .closing n } := by
            simp [live, clean, hcleanup, hfree, hnone, closeAll, hcall]
          obtain ⟨w', hreach, hfinished⟩ := closing_finishes (by simp) (h.closeAll (hcall _)) rfl
          exact ⟨w', (live_reaches hlive hstep trivial).trans hreach, hfinished⟩
      | stopping => exact absurd (Or.inl hcleanup) hnot
      | closing j => exact closing_finishes hlive h hcleanup
      | exited => exact absurd hcleanup hlive

/-- The stop of a party returns and releases the mutex, and then everybody who
waits for it, or has to wait for it yet, can finish. -/
def Recovers (w : DaemonState) (p : Party) : Prop :=
  (∃ w', hosting.ReachesBy HostEvent.IsDaemon w w' ∧ w'.StopReturned p ∧ w'.holder = none) ∧
    ∀ q, w.Pending q → w.CanFinish q

private theorem recovers_of_quiet {p : Party} (hlive : w.cleanup ≠ .exited) (hw : w.Guarded)
    (h : w.Attended) (hp : w.Stopping p) (hquiet : ¬ w.server.Streaming) : w.Recovers p := by
  obtain ⟨w', hreach, hreturned, hfree, hnone, hlive', hsame⟩ := stop_returns hlive hw h hp hquiet
  refine ⟨⟨w', hreach, hreturned, hfree⟩, fun q hq => ?_⟩
  obtain ⟨es, -, hrun⟩ := id hreach
  have hw' : w'.Guarded := hosting.runFrom_invariant (fun _ _ _ h hstep => h.step hstep) hw hrun
  have h' : w'.Attended := hosting.runFrom_invariant (fun _ _ _ h hstep => h.step hstep) h hrun
  have hfinish : w'.CanFinish q := by
    by_cases hqp : q = p
    · subst hqp
      cases q with
      | call i => exact ⟨w', .refl w', _, hreturned⟩
      | cleanup =>
          obtain ⟨i, hclosing⟩ := hreturned
          exact closing_finishes hlive' h' hclosing
    · have hpending : w'.Pending q := by
        have hstands := hsame q hqp
        cases q with
        | call i =>
            obtain ⟨pc, hpc, hopen⟩ := hq
            exact ⟨pc, hstands.trans hpc, hopen⟩
        | cleanup => exact fun hidle => hq (hstands.symm.trans hidle)
      exact free_finishes hlive' hw' h' hfree hnone hpending
  obtain ⟨w'', hreach', hfinished⟩ := hfinish
  exact ⟨w'', hreach.trans hreach', hfinished⟩

end DaemonState

open DaemonState in
/-- When a stop finishes. While somebody stops the monitor, the daemon can go on
by itself to where the stop has returned and the mutex is free, and everybody else
can finish, exactly when no browser is being sent the event stream. -/
theorem stop_finishes_iff {es : List HostEvent} {w : DaemonState} {p : Party}
    (hrun : hosting.run es = some w) (hlive : w.cleanup ≠ .exited) (hp : w.Stopping p) :
    w.Recovers p ↔ ¬ w.server.Streaming := by
  have hw := guarded hrun
  have h := attended hrun
  constructor
  · rintro ⟨⟨w', hreach, hreturned, -⟩, -⟩ ⟨k, x, hx⟩
    have hrunning : w.server.returned = false := by
      apply Bool.eq_false_iff.mpr
      intro hreturned
      simp [ended hrun hreturned k] at hx
    have hwedged : w.Wedged p := ⟨hp, hrunning, k, x, hx⟩
    exact hwedged.never_returns hw hreach hreturned
  · exact recovers_of_quiet hlive hw h hp

/-! ## A page and an event stream -/

/-- A browser makes a request of the monitor, and then a client closes it. -/
def closedMeanwhileServing (events : Bool) : List HostEvent :=
  [.call 0 (.openMonitor .null), .advance 0 (.ok ()), .advance 0 (.ok ()), .connect 0,
    .request 0 events, .call 1 .closeMonitor, .advance 1 (.ok ())]

def MonitorPc.isStopping : MonitorPc → Bool
  | .stopping => true
  | _ => false

def CleanupPc.isExited : CleanupPc → Bool
  | .exited => true
  | _ => false

def Body.isEvents : Body → Bool
  | .events _ => true
  | _ => false

/-- The client is stopping the monitor, and the browser is still being sent what it
asked for. -/
theorem exists_stopping (events : Bool) :
    ∃ w : DaemonState, hosting.run (closedMeanwhileServing events) = some w ∧
      w.cleanup ≠ .exited ∧ w.Stopping (.call 1) ∧ w.server.returned = false ∧
      w.server.conns.keys = [0] ∧ (w.server.conns.lookup 0).any Body.isEvents = events := by
  have hrun : ((hosting.run (closedMeanwhileServing events)).any fun w =>
      !w.cleanup.isExited && (w.calls 1).any MonitorPc.isStopping && !w.server.returned &&
        w.server.conns.keys == [0] &&
        (w.server.conns.lookup 0).any Body.isEvents == events) = true := by
    cases events <;> decide +kernel
  simp only [Option.any_eq_true, Bool.and_eq_true, beq_iff_eq, Bool.not_eq_true'] at hrun
  obtain ⟨w, hw, ⟨⟨⟨hlive, pc, hpc, hstopping⟩, hrunning⟩, hkeys⟩, hevents⟩ := hrun
  refine ⟨w, hw, ?_, ?_, hrunning, hkeys, hevents⟩
  · intro hexited
    simp [hexited, CleanupPc.isExited] at hlive
  · cases pc with
    | stopping => exact hpc
    | _ => simp [MonitorPc.isStopping] at hstopping

/-- The theorem for a browser that is being sent the page. -/
theorem stop_finishes_page : ∃ w : DaemonState,
    hosting.run (closedMeanwhileServing false) = some w ∧ w.Stopping (.call 1) ∧
      w.server.returned = false ∧ w.Recovers (.call 1) := by
  obtain ⟨w, hrun, hlive, hp, hrunning, hkeys, hevents⟩ := exists_stopping false
  refine ⟨w, hrun, hp, hrunning, (stop_finishes_iff hrun hlive hp).mpr ?_⟩
  rintro ⟨k, x, hx⟩
  have hk := Table.mem_keys_of_lookup hx
  obtain rfl : k = 0 := by simpa [hkeys] using hk
  simp [hx, Body.isEvents] at hevents

/-- A stop can be kept from finishing. -/
theorem stop_not_always_finishes :
    ¬ ∀ (es : List HostEvent) (w : DaemonState) (p : Party), hosting.run es = some w →
      w.cleanup ≠ .exited → w.Stopping p →
      ∃ w', hosting.ReachesBy HostEvent.IsDaemon w w' ∧ w'.StopReturned p ∧ w'.holder = none := by
  intro hfinishes
  obtain ⟨w, hrun, hlive, hp, hrunning, -, hevents⟩ := exists_stopping true
  obtain ⟨b, hb, hstream⟩ := (Option.any_eq_true _ _).mp hevents
  cases b with
  | events x =>
      obtain ⟨w', hreach, hreturned, -⟩ := hfinishes _ w _ hrun hlive hp
      have hwedged : w.Wedged (.call 1) := ⟨hp, hrunning, 0, x, hb⟩
      exact hwedged.never_returns (DaemonState.guarded hrun) hreach hreturned
  | _ => simp [Body.isEvents] at hstream

end Commmon

/-
# The order of the locks

What an agent keeps it has taken, and what it has taken it keeps or is about to
use. So the waits can be ranked: whoever waits for the handle of the monitor waits
for somebody who at most waits for the server; the server waits for a page or a
stream, which at most waits for the port table; and whoever has the port table
waits at most for one lock more, whose owner waits for nothing. A request loop
that finds its queue full waits for its streaming task, which at most waits for
the socket.
-/

import Commmon.CallOwners
import Commmon.Lib.WaitGraph

set_option autoImplicit false

namespace Commmon

namespace Conn

variable {x : Conn} {w : DaemonState} {c : ClientId} {k : Service × CallId} {l : Lock}

theorem need_of_call (hcall : x.stage.call = some k) : x.need w c = w.callNeed k := by
  obtain ⟨req, i, hstage, ⟨cmd, hroute, rfl⟩ | ⟨cmd, hroute, rfl⟩⟩ := Stage.call_cases hcall
  · simp [need, hstage, hroute, DaemonState.callNeed]
  · simp [need, hstage, hroute, DaemonState.callNeed]

theorem keeps_of_call (hcall : x.stage.call = some k) :
    x.keeps w = some l ↔ w.Occupies k ∧ k.1.lock = l := by
  obtain ⟨req, i, hstage, ⟨cmd, hroute, rfl⟩ | ⟨cmd, hroute, rfl⟩⟩ := Stage.call_cases hcall
  · simp only [keeps, hstage, hroute, DaemonState.Occupies, Service.lock]
    cases hpc : w.serial.calls i with
    | none => simp
    | some pc => cases pc <;> simp
  · simp only [keeps, hstage, hroute, DaemonState.Occupies, DaemonState.holds_call, Service.lock]
    cases hpc : w.calls i with
    | none => simp
    | some pc => cases pc <;> simp

/-- It keeps the lock of its call, or the port table while it waits for one lock
more. -/
theorem keeps_cases (h : x.keeps w = some l) :
    (∃ k, x.stage.call = some k ∧ w.Occupies k ∧ k.1.lock = l) ∨
      l = .ports ∧ ((∃ req port k bytes, x.stage = .writing req port k bytes) ∨
        ∃ args, x.stage = .listing args) := by
  cases hcall : x.stage.call with
  | some k => exact Or.inl ⟨k, rfl, (keeps_of_call hcall).mp h⟩
  | none =>
      cases hstage : x.stage with
      | calling req i =>
          rw [hstage] at hcall
          cases hroute : route req <;> simp_all [Stage.call, keeps]
      | writing req port k bytes =>
          exact Or.inr ⟨by simpa [keeps, hstage, eq_comm] using h, Or.inl ⟨_, _, _, _, rfl⟩⟩
      | listing args =>
          exact Or.inr ⟨by simpa [keeps, hstage, eq_comm] using h, Or.inr ⟨_, rfl⟩⟩
      | _ => simp [keeps, hstage] at h

/-- Only a call on the monitor waits for its server. -/
theorem stops_cases (hstops : x.stops w = true) :
    ∃ i, x.stage.call = some (.monitor, i) ∧ w.calls i = some .stopping ∧
      w.server.returned = false := by
  unfold stops at hstops
  split at hstops
  · rename_i req i hstage
    split at hstops
    · rename_i cmd hroute hstopping
      exact ⟨i, by simp [Stage.call, hstage, hroute], hstopping, by simpa using hstops⟩
    · simp at hstops
  · simp at hstops

end Conn

namespace DaemonState

variable {w w' : DaemonState} {e : HostEvent} {k : Service × CallId}

/-- A call that keeps its lock needs no other. -/
theorem callNeed_of_occupies (h : w.Occupies k) : w.callNeed k = none := by
  obtain ⟨_ | _, i⟩ := k
  · obtain ⟨port, log, closing, hwait⟩ := h
    simp [callNeed, hwait, CallPc.need]
  · obtain hstopping | ⟨port, hbinding⟩ := holds_call.mp (show w.Holds (.call i) from h)
    · simp [callNeed, hstopping, MonitorPc.need]
    · simp [callNeed, hbinding, MonitorPc.need]

/-- The clean-up stops the monitor, or it did before, or it took the mutex. -/
theorem cleanup_step (hstep : w.step e = some w') (h : w'.cleanup = .stopping) :
    w.cleanup = .stopping ∨ (∃ i, e = .clean i) ∧ w.cleanup = .locking := by
  cases (step_steps hstep).2 with
  | cleanBegun i handle hlocking hfree hsome => exact Or.inr ⟨⟨i, rfl⟩, hlocking⟩
  | interrupted | cleanUnneeded | cleanStopped | exited => simp at h
  | bound i bound port hpc =>
      cases bound with
      | ok _ => exact Or.inl h
      | error e => exact Or.inl h
  | managed | called | asked | answered | binding | stopBegun | stopped | moved | left | served =>
      exact Or.inl h

end DaemonState

namespace Process

variable {w w' : Process} {e : ProcessEvent} {a : Agent} {l : Lock}

/-- A step of the shared state lets a connection keep nothing more, but for its own
call. -/
theorem keeps_of_host {x : Conn} {h : DaemonState}
    (hoccupies : ∀ k, x.stage.call = some k → h.Occupies k → w.host.Occupies k)
    (hkeeps : x.keeps h = some l) : x.keeps w.host = some l := by
  obtain ⟨k, hcall, hk, hlock⟩ | ⟨rfl, ⟨req, port, k, bytes, hstage⟩ | ⟨args, hstage⟩⟩ :=
    Conn.keeps_cases hkeeps
  · exact (Conn.keeps_of_call hcall).mpr ⟨hoccupies k hcall hk, hlock⟩
  · simp [Conn.keeps, hstage]
  · simp [Conn.keeps, hstage]

/-- A connection that takes a step keeps what it kept, or what it needed. -/
theorem keeps_of_turns {c : ClientId} {x x' : Conn} (hturns : Turns w.host c e x.stage x'.stage)
    (hkeeps : x'.keeps w.host = some l) :
    x.keeps w.host = some l ∨ e.actor = some (.handler c) ∧ x.need w.host c = some l := by
  generalize hs : x.stage = s at hturns
  generalize hs' : x'.stage = s' at hturns
  cases hturns with
  | same e s =>
      apply Or.inl
      rw [← hkeeps]
      simp [Conn.keeps, hs, hs']
  | located req port bytes k =>
      simp [Conn.keeps, hs'] at hkeeps
      exact Or.inr ⟨rfl, by simp [Conn.need, hs, hkeeps]⟩
  | listing req hroute =>
      simp [Conn.keeps, hs'] at hkeeps
      exact Or.inr ⟨rfl, by simp [Conn.need, hs, hroute, hkeeps]⟩
  | line | answered | parsed | listed | resumed => simp [Conn.keeps, hs'] at hkeeps

theorem keeps_handler {c : ClientId} :
    w.keeps (.handler c) = some l ↔ ∃ x, w.conns c = some x ∧ x.keeps w.host = some l :=
  Option.bind_eq_some_iff

theorem need_handler {c : ClientId} :
    w.need (.handler c) = some l ↔ ∃ x, w.conns c = some x ∧ x.need w.host c = some l :=
  Option.bind_eq_some_iff

theorem keeps_cleanup :
    w.keeps .cleanup = some l ↔ w.host.cleanup = .stopping ∧ l = .monitor := by
  simp only [keeps]
  cases w.host.cleanup <;> simp [eq_comm]

/-- A connection that takes part in no step keeps what it kept. -/
theorem keeps_elsewhere {c d : ClientId} {x : Conn} (hd : d ≠ c)
    (hkeeps : (w.setConn c x).keeps (.handler d) = some l) : w.keeps (.handler d) = some l := by
  simpa [keeps, setConn, Function.update_of_ne hd] using hkeeps

private theorem Tied.keeps_step_handler {d : ClientId} (hw : w.Tied) (hstep : w.step e = some w')
    (hkeeps : w'.keeps (.handler d) = some l) : w.keeps (.handler d) = some l ∨
      e.actor = some (.handler d) ∧ w.need (.handler d) = some l := by
  cases (step_steps hstep).2 with
  | hosted e h hfree hh =>
      obtain ⟨x, hx, hkeeps⟩ := keeps_handler.mp hkeeps
      refine Or.inl (keeps_handler.mpr ⟨x, hx, keeps_of_host (fun k _ hk => ?_) hkeeps⟩)
      exact hw.orderly.attended.free_occupies hfree hh hk
  | connected c handler hnew =>
      by_cases hd : d = c
      · subst hd
        simp [keeps, setConn, Conn.keeps] at hkeeps
      · exact Or.inl (keeps_elsewhere hd hkeeps)
  | turned e c x x' hx hturns =>
      by_cases hd : d = c
      · subst hd
        have hkeeps' : x'.keeps w.host = some l := by simpa [keeps, setConn] using hkeeps
        obtain hbefore | ⟨hactor, hneed⟩ := keeps_of_turns hturns hkeeps'
        · exact Or.inl (keeps_handler.mpr ⟨x, hx, hbefore⟩)
        · exact Or.inr ⟨hactor, need_handler.mpr ⟨x, hx, hneed⟩⟩
      · exact Or.inl (keeps_elsewhere hd hkeeps)
  | called c i handler req e h hx hcall hh =>
      obtain ⟨hbegins, k, hk, hnew, -⟩ := DaemonState.callEvent_step hcall hh
      by_cases hd : d = c
      · subst hd
        have hkeeps' : Conn.keeps ⟨handler, .calling req i⟩ h = some l := by
          simpa [keeps, setConn] using hkeeps
        have hbefore :=
          DaemonState.occupies_of_begins hbegins hh ((Conn.keeps_of_call hk).mp hkeeps').1
        obtain ⟨d', y, hy, hcall'⟩ := hw.owned k hbefore
        exact absurd (hw.attends d' y k hy hcall') hnew
      · obtain ⟨x, hx, hkeeps⟩ := keeps_handler.mp (keeps_elsewhere hd hkeeps)
        refine Or.inl (keeps_handler.mpr ⟨x, hx, keeps_of_host (fun k' _ hk' => ?_) hkeeps⟩)
        exact DaemonState.occupies_of_begins hbegins hh hk'
  | owned c e x k h hx hcall hcaller hh =>
      obtain ⟨y, hy, hkeeps⟩ := keeps_handler.mp hkeeps
      by_cases hd : d = c
      · subst hd
        obtain rfl := Option.some.inj (hx.symm.trans hy)
        obtain ⟨hk, hlock⟩ := (Conn.keeps_of_call hcall).mp hkeeps
        obtain hbefore | ⟨-, hneed⟩ := DaemonState.occupies_step hh hk
        · have hkept := (Conn.keeps_of_call hcall).mpr ⟨hbefore, hlock⟩
          exact Or.inl (keeps_handler.mpr ⟨x, hx, hkept⟩)
        · refine Or.inr ⟨rfl, need_handler.mpr ⟨x, hx, ?_⟩⟩
          rw [Conn.need_of_call hcall, hneed, hlock]
      · refine Or.inl (keeps_handler.mpr ⟨y, hy, keeps_of_host (fun k' hk' hocc => ?_) hkeeps⟩)
        obtain hbefore | ⟨hcaller', -⟩ := DaemonState.occupies_step hh hocc
        · exact hbefore
        · obtain rfl := Option.some.inj (hcaller.symm.trans hcaller')
          exact absurd (hw.unique d c y x k hy hx hk' hcall) hd

private theorem keeps_step_cleanup (hstep : w.step e = some w')
    (hkeeps : w'.keeps .cleanup = some l) : w.keeps .cleanup = some l ∨
      e.actor = some .cleanup ∧ w.need .cleanup = some l := by
  obtain ⟨hstopping, rfl⟩ := keeps_cleanup.mp hkeeps
  cases (step_steps hstep).2 with
  | hosted e h hfree hh =>
      obtain hbefore | ⟨⟨i, rfl⟩, hlocking⟩ := DaemonState.cleanup_step hh hstopping
      · exact Or.inl (keeps_cleanup.mpr ⟨hbefore, rfl⟩)
      · exact Or.inr ⟨rfl, by simp [need, hlocking]⟩
  | connected | turned => exact Or.inl (keeps_cleanup.mpr ⟨hstopping, rfl⟩)
  | called c i handler req e h hx hcall hh =>
      obtain hbefore | ⟨⟨j, rfl⟩, -⟩ := DaemonState.cleanup_step hh hstopping
      · exact Or.inl (keeps_cleanup.mpr ⟨hbefore, rfl⟩)
      · obtain ⟨hbegins, -⟩ := DaemonState.callEvent_step hcall hh
        simp [HostEvent.begins] at hbegins
  | owned c e x k h hx hcall hcaller hh =>
      obtain hbefore | ⟨⟨j, rfl⟩, -⟩ := DaemonState.cleanup_step hh hstopping
      · exact Or.inl (keeps_cleanup.mpr ⟨hbefore, rfl⟩)
      · simp [HostEvent.caller] at hcaller

/-- What an agent keeps after a step, it kept before, or it took the step and
needed it. -/
theorem Tied.keeps_step (hw : w.Tied) (hstep : w.step e = some w') (hkeeps : w'.keeps a = some l) :
    w.keeps a = some l ∨ e.actor = some a ∧ w.need a = some l := by
  cases a with
  | handler d => exact hw.keeps_step_handler hstep hkeeps
  | cleanup => exact keeps_step_cleanup hstep hkeeps
  | _ => simp [keeps] at hkeeps

end Process

namespace LockWorld

variable {w w' : LockWorld} {e : LockEvent} {a b : Agent} {l : Lock}

/-- What an agent keeps it has, and what it has it keeps, or needs next. -/
structure Owned (w : LockWorld) : Prop where
  tied : w.process.Tied
  kept : ∀ a l, w.process.keeps a = some l → w.owner l = some a
  needed : ∀ a l, w.owner l = some a → w.process.keeps a = some l ∨ w.process.need a = some l

private theorem owned_init : Owned locking.init where
  tied := Process.tied_init
  kept a l h := by
    cases a <;> simp [locking, Commmon.process, hosting, Process.keeps] at h
  needed a l h := by simp [locking] at h

theorem Owned.step (hw : w.Owned) (hstep : w.step e = some w') : w'.Owned := by
  cases e with
  | acquire a =>
      simp only [LockWorld.step] at hstep
      split at hstep
      · rename_i l hneed
        split_ifs at hstep with hfree
        obtain rfl := Option.some.inj hstep
        refine ⟨hw.tied, fun b l' hkeeps => ?_, fun b l' howner => ?_⟩
        · have howner := hw.kept b l' hkeeps
          have hl : l' ≠ l := by
            rintro rfl
            simp [hfree] at howner
          simpa [Function.update_of_ne hl] using howner
        · by_cases hl : l' = l
          · subst hl
            obtain rfl : a = b := by simpa using howner
            exact Or.inr hneed
          · exact hw.needed b l' (by simpa [Function.update_of_ne hl] using howner)
      · simp at hstep
  | act e =>
      simp only [LockWorld.step] at hstep
      split_ifs at hstep with hequipped
      obtain ⟨p, hp, rfl⟩ := Option.map_eq_some_iff.mp hstep
      refine ⟨hw.tied.step hp, fun b l hkeeps => ?_, fun b l howner => ?_⟩
      · have howner : w.owner l = some b := by
          obtain hbefore | ⟨hactor, hneed⟩ := hw.tied.keeps_step hp hkeeps
          · exact hw.kept b l hbefore
          · exact hequipped b hactor l hneed
        simp [release, howner, holdsOn, hkeeps]
      · obtain ⟨-, hholds⟩ := Option.filter_eq_some_iff.mp howner
        simp only [holdsOn, Bool.or_eq_true, Bool.and_eq_true, beq_iff_eq] at hholds
        exact hholds.imp_right And.right

theorem owned {es : List LockEvent} (hrun : locking.run es = some w) : w.Owned :=
  locking.run_invariant owned_init (fun _ _ _ h hstep => h.step hstep) hrun

end LockWorld

/-- Every wait is for somebody whose wait ranks lower. -/
def Wait.rank : Wait → ℕ
  | .lock .ports | .queue _ => 2
  | .lock .monitor => 5
  | .lock _ => 1
  | .returning => 4
  | .sending => 3

namespace LockWorld

variable {w : LockWorld} {a b : Agent} {l : Lock}

/-- The rank of what an agent waits for. -/
def rank (w : LockWorld) (a : Agent) : ℕ := ((w.waits a).map Wait.rank).getD 0

theorem waits_of_need (hneed : w.process.need a = some l) :
    w.waits a = if w.owner l = some a then none else some (.lock l) := by
  simp [waits, hneed]

theorem waits_of_none (hneed : w.process.need a = none) : w.waits a = w.waitsUnlocked a := by
  simp [waits, hneed]

private theorem rank_le_of_need (hneed : w.process.need a = some l) :
    w.rank a ≤ (Wait.lock l).rank := by
  rw [rank, waits_of_need hneed]
  split_ifs <;> simp

private theorem rank_lock_pos (l : Lock) : 0 < (Wait.lock l).rank := by
  cases l <;> simp [Wait.rank]

private theorem rank_streaming (c : ClientId) : w.rank (.streaming c) < 2 := by
  cases hneed : w.process.need (.streaming c) with
  | none => simp [rank, waits_of_none hneed, waitsUnlocked]
  | some l =>
      obtain ⟨x, -, hpc⟩ := Option.bind_eq_some_iff.mp hneed
      obtain rfl : l = .socket c := by
        unfold TaskPc.need at hpc
        split at hpc <;> simp_all
      exact (rank_le_of_need hneed).trans_lt (by simp [Wait.rank])

private theorem rank_stream (h : ℕ) : w.rank (.stream h) < 3 := by
  cases hneed : w.process.need (.stream h) with
  | none => simp [rank, waits_of_none hneed, waitsUnlocked]
  | some l =>
      obtain rfl : l = .ports := by
        simp only [Process.need] at hneed
        split at hneed
        · unfold SseStream.need at hneed
          split at hneed <;> simp_all
        · simp at hneed
      exact (rank_le_of_need hneed).trans_lt (by simp [Wait.rank])

private theorem handler_waits {c : ClientId} {x : Conn} {k : Service × CallId}
    (hx : w.process.conns c = some x) (hcall : x.stage.call = some k)
    (hoccupies : w.process.host.Occupies k) :
    w.waits (.handler c) = if x.stops w.process.host then some .returning else none := by
  obtain ⟨req, i, hstage, -⟩ := Stage.call_cases hcall
  have hneed : w.process.need (.handler c) = none := by
    simp [Process.need, hx, Conn.need_of_call hcall, DaemonState.callNeed_of_occupies hoccupies]
  simp [waits_of_none hneed, waitsUnlocked, hx, Conn.queueFull, hstage]

/-- Who keeps a lock waits for something of a lower rank. -/
theorem rank_of_keeps (hkeeps : w.process.keeps a = some l) :
    w.rank a < (Wait.lock l).rank := by
  cases a with
  | handler c =>
      obtain ⟨x, hx, hkeeps⟩ := Process.keeps_handler.mp hkeeps
      obtain ⟨k, hcall, hk, rfl⟩ | ⟨rfl, ⟨req, port, k, bytes, hstage⟩ | ⟨args, hstage⟩⟩ :=
        Conn.keeps_cases hkeeps
      · rw [rank, handler_waits hx hcall hk]
        split_ifs with hstops
        · obtain ⟨i, hi, -⟩ := Conn.stops_cases hstops
          obtain rfl := Option.some.inj (hi.symm.trans hcall)
          simp [Service.lock, Wait.rank]
        · exact rank_lock_pos _
      · have hneed : w.process.need (.handler c) = some (.writer k) := by
          simp [Process.need, hx, Conn.need, hstage]
        exact (rank_le_of_need hneed).trans_lt (by simp [Wait.rank])
      · have hneed : w.process.need (.handler c) = some .logs := by
          simp [Process.need, hx, Conn.need, hstage]
        exact (rank_le_of_need hneed).trans_lt (by simp [Wait.rank])
  | cleanup =>
      obtain ⟨hstopping, rfl⟩ := Process.keeps_cleanup.mp hkeeps
      have hneed : w.process.need .cleanup = none := by simp [Process.need, hstopping]
      rw [rank, waits_of_none hneed]
      simp only [waitsUnlocked, hstopping]
      split_ifs <;> decide
  | _ => simp [Process.keeps] at hkeeps

theorem Owned.ranked (hw : w.Owned) : WaitGraph.Ranked w.WaitsFor w.rank := by
  rintro a b ⟨wait, hwaits, hab⟩
  have hrank : w.rank a = wait.rank := by simp [rank, hwaits]
  rw [hrank]
  cases wait with
  | lock l =>
      obtain hkeeps | hneed := hw.needed b l hab
      · exact rank_of_keeps hkeeps
      · have howner : w.owner l = some b := hab
        rw [rank, waits_of_need hneed, if_pos howner]
        exact rank_lock_pos l
  | queue c =>
      obtain rfl : b = .streaming c := hab
      exact rank_streaming c
  | returning =>
      obtain rfl : b = .server := hab
      rw [rank, waits_of_none (by rfl)]
      simp only [waitsUnlocked]
      split_ifs <;> decide
  | sending =>
      obtain ⟨h, ⟨x, hx, rfl⟩ | ⟨hx, rfl⟩⟩ := hab
      · exact rank_stream h
      · simp [rank, waits, Process.need, waitsUnlocked, Wait.rank]

end LockWorld

end Commmon

/-
# Duration timers

A timer is given its log's token, port and file when it is made, and knows
nothing of the table. Still, a timer that sleeps is always the one that the
table has for a log with this token, port and file: every way in which a log
leaves the table, and every replacement of its timer, aborts the timer first.
-/

import Commmon.LogSteps

set_option autoImplicit false

namespace Commmon

namespace Logs

/-- The table has the log, and the timer is the log's own. -/
structure Owns (l : Logs) (port : String) (log : LogState) (t : TimerId) : Prop where
  lookup : l.table.lookup port = some log
  durationTask : log.durationTask = some t
  cancel : (l.timers t).cancel = log.id
  portName : (l.timers t).portName = port
  filePath : (l.timers t).filePath = log.filePath

def TimersOwned (l : Logs) : Prop := ∀ t, l.Sleeping t → ∃ port log, l.Owns port log t

variable {l l' : Logs}

theorem timersOwned_new : TimersOwned new := by
  intro t h
  simp [Sleeping, new] at h

/-- A timer that was just made for a log that is in the table belongs to it. -/
theorem Owns.of_timer {port : String} {log : LogState} {t : TimerId} {n : ℕ}
    (hlookup : l.table.lookup port = some log) (htask : log.durationTask = some t)
    (htimer : l.timers t = ⟨log.id, port, log.filePath, n, .sleeping⟩) : l.Owns port log t :=
  ⟨hlookup, htask, by rw [htimer], by rw [htimer], by rw [htimer]⟩

/-- A log that stays in the table keeps a timer that stays the same. -/
theorem Owns.of_same {port : String} {log : LogState} {t : TimerId} (h : l.Owns port log t)
    (hlookup : l'.table.lookup port = some log) (htimer : l'.timers t = l.timers t) :
    l'.Owns port log t :=
  ⟨hlookup, h.durationTask, by rw [htimer, h.cancel], by rw [htimer, h.portName],
    by rw [htimer, h.filePath]⟩

theorem TimersOwned.remove (h : l.TimersOwned) {port : String} {log : LogState}
    (hlog : l.table.lookup port = some log) : (l.remove port log).TimersOwned := by
  intro t hsleep
  obtain ⟨hold, hne⟩ := (l.sleeping_abortTimer).mp hsleep
  obtain ⟨q, x, hown⟩ := h t hold
  have hq : q ≠ port := by
    rintro rfl
    obtain rfl := Option.some.inj (hlog.symm.trans hown.lookup)
    exact hne hown.durationTask
  refine ⟨q, x, hown.of_same ?_ ?_⟩
  · rw [lookup_remove, if_neg hq, hown.lookup]
  · exact if_neg fun habort => hne habort.1

theorem TimersOwned.register (h : l.TimersOwned) {port : String} (rx : Receiver)
    (filePath : String) (keyword : Option String) (duration : Option ℕ)
    (hfree : l.table.lookup port = none) :
    (l.register port rx filePath keyword duration).TimersOwned := by
  intro t hsleep
  have hkept : ∀ (hold : l.Sleeping t), (l.register port rx filePath keyword duration).timers t =
      l.timers t → ∃ q x, (l.register port rx filePath keyword duration).Owns q x t := by
    intro hold hsame
    obtain ⟨q, x, hown⟩ := h t hold
    have hq : q ≠ port := by
      rintro rfl
      exact absurd hown.lookup (by simp [hfree])
    exact ⟨q, x, hown.of_same (by rw [lookup_register, if_neg hq, hown.lookup]) hsame⟩
  cases duration with
  | none => exact hkept hsleep rfl
  | some n =>
      by_cases ht : t = l.freshTimer
      · subst ht
        exact ⟨port, _, .of_timer (by rw [lookup_register, if_pos rfl]) rfl
          (by rw [timers_register]; exact Function.update_self ..)⟩
      · have hsame : (l.register port rx filePath keyword (some n)).timers t = l.timers t := by
          rw [timers_register]
          exact Function.update_of_ne ht _ _
        exact hkept (by rwa [Sleeping, hsame] at hsleep) hsame

theorem TimersOwned.update (h : l.TimersOwned) {port : String} {log : LogState}
    (hlog : l.table.lookup port = some log) (keyword : Option (Option String))
    (secs : Option ℕ) : (l.update port log hlog keyword secs).TimersOwned := by
  intro t hsleep
  cases secs with
  | none =>
      have hsame : (l.update port log hlog keyword none).timers = l.timers := timers_update ..
      obtain ⟨q, x, hown⟩ := h t (by rwa [Sleeping, hsame] at hsleep)
      refine ⟨q, x, hown.of_same ?_ (by rw [hsame])⟩
      rw [lookup_update]
      split_ifs with hq
      · subst hq
        simpa using hlog.symm.trans hown.lookup
      · exact hown.lookup
  | some n =>
      by_cases ht : t = l.freshTimer
      · subst ht
        exact ⟨port, _, .of_timer (by rw [lookup_update, if_pos rfl]) rfl
          (by rw [timers_update]; exact Function.update_self ..)⟩
      · have hsame : (l.update port log hlog keyword (some n)).timers t =
            (l.abortTimer log.durationTask).timers t := by
          rw [timers_update]
          exact Function.update_of_ne ht _ _
        obtain ⟨hold, hne⟩ := (l.sleeping_abortTimer).mp (by rwa [Sleeping, hsame] at hsleep)
        obtain ⟨q, x, hown⟩ := h t hold
        have hq : q ≠ port := by
          rintro rfl
          obtain rfl := Option.some.inj (hlog.symm.trans hown.lookup)
          exact hne hown.durationTask
        refine ⟨q, x, hown.of_same (by rw [lookup_update, if_neg hq, hown.lookup]) ?_⟩
        rw [hsame]
        exact if_neg fun habort => hne habort.1

theorem expire_eq_some {t : TimerId} (h : l.expire t = some l') :
    l.Sleeping t ∧ l' = { l with
      timers := Function.update l.timers t { l.timers t with state := .expired }
      cancelled := Function.update l.cancelled (l.timers t).cancel true }.announce
        (l.timers t).cancel (l.timers t).notification := by
  unfold expire at h
  split_ifs at h with hsleep
  exact ⟨hsleep, (Option.some.inj h).symm⟩

theorem TimersOwned.expire (h : l.TimersOwned) {t : TimerId} (hexpire : l.expire t = some l') :
    l'.TimersOwned := by
  obtain ⟨-, rfl⟩ := expire_eq_some hexpire
  intro t' hsleep
  have hne : t' ≠ t := by
    rintro rfl
    simp [Sleeping, announce] at hsleep
  have hsame : Function.update l.timers t { l.timers t with state := .expired } t' =
      l.timers t' := Function.update_of_ne hne _ _
  obtain ⟨q, x, hown⟩ := h t' (by simpa [Sleeping, announce, hne] using hsleep)
  exact ⟨q, x, hown.of_same hown.lookup hsame⟩

/-- Timers stay owned. -/
theorem TimersOwned.changes {m : SerialManager} (h : l.TimersOwned)
    (hchanges : LogWorld.Changes m l l') : l'.TimersOwned := by
  cases hchanges with
  | same => exact h
  | registered port rx filePath keyword duration hfree =>
      exact h.register rx filePath keyword duration hfree
  | updated port log hlog keyword secs => exact h.update hlog keyword secs
  | removed port log hlog => exact h.remove hlog
  | drained => exact l.drain_induction (fun _ _ _ hlog hl => TimersOwned.remove hl hlog) h
  | moved id e task' hmove =>
      intro t hsleep
      obtain ⟨q, x, hown⟩ := h t hsleep
      exact ⟨q, x, hown.of_same hown.lookup rfl⟩
  | matched id entry kw lines hpc hmatched =>
      intro t hsleep
      obtain ⟨q, x, hown⟩ := h t hsleep
      exact ⟨q, x, hown.of_same hown.lookup rfl⟩
  | expired t _ hexpire => exact h.expire hexpire

/-- A timer that has been made and no longer sleeps never sleeps again. -/
structure Spent (l : Logs) (t : TimerId) : Prop where
  made : t < l.freshTimer
  awake : ¬ l.Sleeping t

private theorem freshTimer_register (port : String) (rx : Receiver) (filePath : String)
    (keyword : Option String) (duration : Option ℕ) :
    l.freshTimer ≤ (l.register port rx filePath keyword duration).freshTimer := by
  cases duration with
  | none => exact le_rfl
  | some n => exact Nat.le_succ _

theorem freshTimer_update (port : String) (log : LogState)
    (hlog : l.table.lookup port = some log) (keyword : Option (Option String))
    (secs : Option ℕ) :
    l.freshTimer ≤ (l.update port log hlog keyword secs).freshTimer := by
  cases keyword <;> cases secs <;> first | exact le_rfl | exact Nat.le_succ _

theorem Spent.changes {m : SerialManager} {t : TimerId} (h : l.Spent t)
    (hchanges : LogWorld.Changes m l l') : l'.Spent t := by
  obtain ⟨hlt, hnot⟩ := h
  cases hchanges with
  | same => exact ⟨hlt, hnot⟩
  | registered port rx filePath keyword duration hfree =>
      refine ⟨Nat.lt_of_lt_of_le hlt (freshTimer_register ..), ?_⟩
      rw [Sleeping, timers_register]
      cases duration with
      | none => exact hnot
      | some n =>
          dsimp only
          rwa [Function.update_of_ne (Nat.ne_of_lt hlt)]
  | updated port log hlog keyword secs =>
      refine ⟨Nat.lt_of_lt_of_le hlt (freshTimer_update ..), ?_⟩
      rw [Sleeping, timers_update]
      cases secs with
      | none => exact hnot
      | some n =>
          dsimp only
          rw [Function.update_of_ne (Nat.ne_of_lt hlt)]
          exact fun hsleep => hnot ((l.sleeping_abortTimer).mp hsleep).1
  | removed port log hlog =>
      exact ⟨hlt, fun hsleep => hnot ((l.sleeping_abortTimer).mp hsleep).1⟩
  | drained =>
      exact l.drain_induction (P := fun l => l.Spent t)
        (fun l _ _ _ hl => ⟨hl.1, fun hsleep => hl.2 ((l.sleeping_abortTimer).mp hsleep).1⟩)
        ⟨hlt, hnot⟩
  | moved id e task' hmove => exact ⟨hlt, hnot⟩
  | matched id entry kw lines hpc hmatched => exact ⟨hlt, hnot⟩
  | expired t' _ hexpire =>
      obtain ⟨-, rfl⟩ := expire_eq_some hexpire
      refine ⟨hlt, ?_⟩
      by_cases ht : t = t'
      · simp [Sleeping, announce, ht]
      · simpa [Sleeping, announce, ht] using hnot

end Logs

theorem timersOwned_of_run {es : List LogEvent} {w : LogWorld} (hrun : logging.run es = some w) :
    w.logs.TimersOwned :=
  logs_invariant Logs.timersOwned_new (fun _ _ _ h hchanges => h.changes hchanges) hrun

/-- A timer that a log does not have any more can not expire in any later state. -/
theorem expire_eq_none_of_replaced {es fs : List LogEvent} {w w' : LogWorld} {t : TimerId}
    (hrun : logging.run es = some w) (hlt : t < w.logs.freshTimer)
    (hstale : ∀ port log, w.logs.table.lookup port = some log → log.durationTask ≠ some t)
    (hrest : logging.runFrom w fs = some w') : w'.step (.expire t) = none := by
  have hspent : w.logs.Spent t := by
    refine ⟨hlt, fun hsleep => ?_⟩
    obtain ⟨port, log, hown⟩ := timersOwned_of_run hrun t hsleep
    exact hstale port log hown.lookup hown.durationTask
  have hspent' : w'.logs.Spent t :=
    logging.runFrom_invariant (P := fun w => w.logs.Spent t)
      (fun _ _ _ h hstep => h.changes (LogWorld.step_steps hstep).changes) hspent hrest
  have hexpire : w'.logs.expire t = none := if_neg hspent'.2
  simp [LogWorld.step, hexpire]

/-- No stale timers. A timer that may still expire belongs to a log that is
in the table, a log has at most one, and an expiry cancels that log's token
and announces its port and file, and does nothing else to a log. Once no log in
the table has a timer, it never expires. -/
theorem no_stale_timers {es : List LogEvent} {w : LogWorld} (hrun : logging.run es = some w) :
    (∀ t, w.logs.Sleeping t → ∃ port log, w.logs.Owns port log t) ∧
    (∀ t t', w.logs.Sleeping t → w.logs.Sleeping t' →
      (w.logs.timers t).cancel = (w.logs.timers t').cancel → t = t') ∧
    (∀ t w', w.step (.expire t) = some w' → ∃ port log, w.logs.Owns port log t ∧
      w'.logs.table = w.logs.table ∧ w'.logs.tasks = w.logs.tasks ∧
      w'.logs.cancelled = Function.update w.logs.cancelled log.id true ∧
      w'.logs.notified = w.logs.notified ++ [⟨log.id, (w.logs.timers t).notification⟩]) ∧
    (∀ t, t < w.logs.freshTimer →
      (∀ port log, w.logs.table.lookup port = some log → log.durationTask ≠ some t) →
      ∀ fs w', logging.runFrom w fs = some w' → w'.step (.expire t) = none) := by
  have howned := timersOwned_of_run hrun
  refine ⟨howned, ?_, ?_, ?_⟩
  · intro t t' ht ht' hcancel
    obtain ⟨port, log, hown⟩ := howned t ht
    obtain ⟨port', log', hown'⟩ := howned t' ht'
    have hids : log.id = log'.id := by rw [← hown.cancel, hcancel, hown'.cancel]
    obtain rfl := w.logs.id_inj port port' log log' hown.lookup hown'.lookup hids
    obtain rfl := Option.some.inj (hown.lookup.symm.trans hown'.lookup)
    exact Option.some.inj (hown.durationTask.symm.trans hown'.durationTask)
  · intro t w' hstep
    obtain ⟨l', hexpire, rfl⟩ := Option.map_eq_some_iff.mp hstep
    obtain ⟨hsleep, rfl⟩ := Logs.expire_eq_some hexpire
    obtain ⟨port, log, hown⟩ := howned t hsleep
    exact ⟨port, log, hown, rfl, rfl, by rw [← hown.cancel]; rfl, by rw [← hown.cancel]; rfl⟩
  · intro t hlt hstale fs w' hrest
    exact expire_eq_none_of_replaced hrun hlt hstale hrest

/-- The arguments of a request about a port. -/
def logArgs (port : String) (more : List (String × Value)) : Value :=
  .object (("port", .string port) :: more)

/-- A device that opens. -/
def logEnv : Logs.LogEnv := ⟨.ok (), "20260101_000000", fun name => "/tmp/" ++ name, [], fun _ => 0⟩

/-- A call and `n` steps of it. -/
def logCall (i : CallId) (cmd : LogCommand) (n : ℕ) : List LogEvent :=
  .call i cmd :: List.replicate n (.advance i logEnv)

/-- A log of an open port with a timer, which is then replaced. -/
def replacedTimer : List LogEvent :=
  logCall 0 (.openPort (logArgs "P" [])) 1 ++
    logCall 1 (.startLog (logArgs "P" [("duration", .number (.posInt 5))])) 2 ++
    logCall 2 (.updateLog (logArgs "P" [("duration", .number (.posInt 9))])) 1

private theorem replacedTimer_replaced : (logging.run replacedTimer).any (fun w =>
    decide ((w.logs.timers 1).state = .sleeping) && w.logs.freshTimer == 2 &&
      w.logs.table.keys == ["P"] &&
      (w.logs.table.lookup "P").any fun log => log.durationTask == some 1) = true := by
  decide +kernel

/-- The theorem after a timer has been replaced: the new one is the log's, and
the old one never expires. -/
theorem no_stale_timers_replaced : ∃ w, logging.run replacedTimer = some w ∧
    (∃ port log, w.logs.Owns port log 1) ∧
    ∀ fs w', logging.runFrom w fs = some w' → w'.step (.expire 0) = none := by
  obtain ⟨w, hw, htest⟩ := (Option.any_eq_true _ _).mp replacedTimer_replaced
  simp only [Bool.and_eq_true, decide_eq_true_eq, beq_iff_eq] at htest
  obtain ⟨⟨⟨hsleep, hfresh⟩, hkeys⟩, hany⟩ := htest
  obtain ⟨howned, -, -, hstale⟩ := no_stale_timers hw
  refine ⟨w, hw, howned 1 hsleep, hstale 0 (by rw [hfresh]; decide) ?_⟩
  intro port log hlog
  obtain ⟨log', hlog', htask⟩ := (Option.any_eq_true _ _).mp hany
  have hport : port = "P" := by
    have hmem : port ∈ w.logs.table.keys := AList.lookup_isSome.mp (by simp [hlog])
    simpa [hkeys] using hmem
  subst hport
  obtain rfl := Option.some.inj (hlog.symm.trans hlog')
  rw [beq_iff_eq.mp htask]
  decide

end Commmon

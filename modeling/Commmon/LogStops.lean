/-
# Stop notifications

The task of a log announces a keyword match, and each of its timers announces its
expiry; only the token connects them. A timer's announcement is the only thing
that cancels the token of a log that is still in the table, so before an expiry
the token says whether an earlier timer has announced, and the task's end says
whether the task has.
-/

import Commmon.LogTimers

set_option autoImplicit false

namespace Commmon

/-- A notification that a log has stopped, and why. -/
inductive Notification.IsStop : Notification → Prop
  | keyword (portName keyword filePath : String) :
      IsStop (keywordStopped portName keyword filePath)
  | duration (t : Timer) : IsStop t.notification

theorem Notification.IsStop.notify {n : Notification} (h : n.IsStop) :
    n.notify = "log_stopped" := by
  cases h <;> rfl

namespace Logs

/-- How many stop notifications about a log have been broadcast. -/
def stops (l : Logs) (id : LogId) : ℕ := (l.notified.map LogStopped.log).count id

/-- What the announcements so far say about tokens, timers and tasks. -/
structure Announced (l : Logs) : Prop where
  task_lt : ∀ id, (l.tasks id).pc ≠ .ended → id < l.freshLog
  timer_lt : ∀ t, (l.timers t).state ≠ .aborted → t < l.freshTimer
  cancel_lt : ∀ t, l.Expired t → (l.timers t).cancel < l.freshLog
  stops_lt : ∀ id, 0 < l.stops id → id < l.freshLog
  expired : ∀ t, l.Expired t →
    l.cancelled (l.timers t).cancel = true ∧ 0 < l.stops (l.timers t).cancel
  announcer : ∀ id, 0 < l.stops id →
    (l.tasks id).pc = .ended ∨ ∃ t, l.Expired t ∧ (l.timers t).cancel = id
  cancelled : ∀ port log, l.table.lookup port = some log → l.cancelled log.id = true →
    ∃ t, l.Expired t ∧ (l.timers t).cancel = log.id

variable {l l' : Logs}

private theorem announced_new : Announced new where
  task_lt id h := by simp [new] at h
  timer_lt t h := by simp [new] at h
  cancel_lt t h := by simp [Expired, new] at h
  stops_lt id h := by simp [stops, new] at h
  expired t h := by simp [Expired, new] at h
  announcer id h := by simp [stops, new] at h
  cancelled port log h := by simp [new] at h

private theorem stops_announce (l : Logs) (id : LogId) (notification : Notification) (id' : LogId) :
    (l.announce id notification).stops id' = l.stops id' + if id' = id then 1 else 0 := by
  simp only [stops, announce, List.map_append, List.map_cons, List.map_nil, List.count_append,
    List.count_singleton, beq_iff_eq, eq_comm (a := id)]

private theorem Announced.lt_of_expired (h : l.Announced) {t : TimerId} (ht : l.Expired t) :
    t < l.freshTimer :=
  h.timer_lt t (by rw [show (l.timers t).state = .expired from ht]; decide)

/-- A timer that starts to sleep under a number not used before is not one that
has expired. -/
theorem expired_of_spawn {fresh : TimerId} {timer : Timer}
    (hlt : ∀ t, l.Expired t → t < fresh) (hsleep : timer.state = .sleeping)
    (htimers : l'.timers = Function.update l.timers fresh timer) (t : TimerId) :
    l'.Expired t ↔ l.Expired t := by
  by_cases ht : t = fresh
  · subst ht
    have hnot : ¬ l.Expired t := fun hexp => absurd (hlt t hexp) (Nat.lt_irrefl t)
    simp [Expired, htimers, hsleep, show ¬ (l.timers t).state = .expired from hnot]
  · rw [Expired, Expired, htimers, Function.update_of_ne ht]

private theorem made_of_spawn {fresh : TimerId} {timer : Timer}
    (hlt : ∀ t, (l.timers t).state ≠ .aborted → t < fresh)
    (htimers : l'.timers = Function.update l.timers fresh timer) (t : TimerId)
    (ht : (l'.timers t).state ≠ .aborted) : t < fresh + 1 := by
  by_cases heq : t = fresh
  · exact heq ▸ Nat.lt_succ_self t
  · rw [htimers, Function.update_of_ne heq] at ht
    exact Nat.lt_succ_of_lt (hlt t ht)

private theorem made_abortTimer {timer : Option TimerId} {t : TimerId}
    (h : ((l.abortTimer timer).timers t).state ≠ .aborted) : (l.timers t).state ≠ .aborted := by
  simp only [abortTimer] at h
  split_ifs at h
  · exact absurd rfl h
  · exact h

/-- Aborting timers and adding new ones leave the announcements as they are. -/
theorem Announced.of_same_timers (h : l.Announced) (hnotified : l'.notified = l.notified)
    (hfreshLog : l'.freshLog = l.freshLog)
    (hmade : ∀ t, (l'.timers t).state ≠ .aborted → t < l'.freshTimer)
    (hexpired : ∀ t, l'.Expired t ↔ l.Expired t)
    (hcancel : ∀ t, t < l.freshTimer → (l'.timers t).cancel = (l.timers t).cancel)
    (htasks : l'.tasks = l.tasks)
    (hmono : ∀ id, l.cancelled id = true → l'.cancelled id = true)
    (hkept : ∀ port log, l'.table.lookup port = some log → l'.cancelled log.id = true →
      ∃ log', l.table.lookup port = some log' ∧ log'.id = log.id ∧ l.cancelled log.id = true) :
    l'.Announced := by
  have hstops : l'.stops = l.stops := funext fun id => by simp only [stops, hnotified]
  have hsame : ∀ t, l.Expired t → (l'.timers t).cancel = (l.timers t).cancel := fun t ht =>
    hcancel t (h.lt_of_expired ht)
  refine ⟨fun id hid => ?_, hmade, fun t ht => ?_, fun id hid => ?_, fun t ht => ?_,
    fun id hid => ?_, ?_⟩
  · rw [htasks] at hid
    exact hfreshLog ▸ h.task_lt id hid
  · have ht := (hexpired t).mp ht
    rw [hsame t ht, hfreshLog]
    exact h.cancel_lt t ht
  · rw [hfreshLog]
    exact h.stops_lt id (hstops ▸ hid)
  · have ht := (hexpired t).mp ht
    rw [hsame t ht, hstops]
    exact ⟨hmono _ (h.expired t ht).1, (h.expired t ht).2⟩
  · rw [htasks]
    apply (h.announcer id (hstops ▸ hid)).imp_right
    rintro ⟨t, ht, hid⟩
    exact ⟨t, (hexpired t).mpr ht, by rw [hsame t ht, hid]⟩
  · intro port log hlog hcancelled
    obtain ⟨log', hlog', hid, hcancelled'⟩ := hkept port log hlog hcancelled
    obtain ⟨t, ht, hcancel'⟩ := h.cancelled port log' hlog' (by rwa [hid])
    exact ⟨t, (hexpired t).mpr ht, by rw [hsame t ht, hcancel', hid]⟩

theorem Announced.remove (h : l.Announced) {port : String} {log : LogState}
    (hlog : l.table.lookup port = some log) : (l.remove port log).Announced := by
  refine h.of_same_timers rfl rfl (fun t ht => h.timer_lt t (made_abortTimer ht))
    (fun t => l.expired_abortTimer) (fun t _ => l.abortTimer_timers.1) rfl ?_ ?_
  · intro id hid
    simp only [Logs.remove, abortTimer, Function.update_apply]
    split_ifs
    · rfl
    · exact hid
  · intro q x hx hcancelled
    rw [lookup_remove] at hx
    split_ifs at hx with hq
    refine ⟨x, hx, rfl, ?_⟩
    have hne : x.id ≠ log.id := fun hid => hq (l.id_inj q port x log hx hlog hid)
    simpa [Logs.remove, abortTimer, hne] using hcancelled

theorem Announced.update (h : l.Announced) {port : String} {log : LogState}
    (hlog : l.table.lookup port = some log) (keyword : Option (Option String))
    (secs : Option ℕ) : (l.update port log hlog keyword secs).Announced := by
  have hcancelled := cancelled_update hlog keyword secs
  refine h.of_same_timers (notified_update hlog keyword secs) (freshLog_update hlog keyword secs)
    ?_ ?_ ?_ (tasks_update hlog keyword secs) ?_ ?_
  · intro t ht
    cases secs with
    | none =>
        rw [timers_update] at ht
        exact Nat.lt_of_lt_of_le (h.timer_lt t ht) (freshTimer_update ..)
    | some n =>
        have hlt := made_of_spawn (l := l.abortTimer log.durationTask)
          (fun t ht => h.timer_lt t (made_abortTimer ht)) (timers_update ..) t ht
        cases keyword <;> exact hlt
  · intro t
    cases secs with
    | none => rw [Expired, timers_update, Expired]
    | some n =>
        have hlt : ∀ t, (l.abortTimer log.durationTask).Expired t → t < l.freshTimer :=
          fun t ht => h.lt_of_expired (l.expired_abortTimer.mp ht)
        exact (expired_of_spawn hlt rfl (timers_update ..) t).trans l.expired_abortTimer
  · intro t ht
    simp only [timers_update]
    cases secs with
    | none => rfl
    | some n =>
        dsimp only
        rw [Function.update_of_ne (Nat.ne_of_lt ht)]
        exact l.abortTimer_timers.1
  · rw [hcancelled]
    exact fun id hid => hid
  · intro q x hx hc
    rw [hcancelled] at hc
    rw [lookup_update] at hx
    split_ifs at hx with hq
    · obtain rfl := Option.some.inj hx
      exact ⟨log, hq ▸ hlog, rfl, hc⟩
    · exact ⟨x, hx, rfl, hc⟩

theorem Announced.register (h : l.Announced) {port : String} (rx : Receiver)
    (filePath : String) (keyword : Option String) (duration : Option ℕ) :
    (l.register port rx filePath keyword duration).Announced := by
  have hexpired : ∀ t, (l.register port rx filePath keyword duration).Expired t ↔
      l.Expired t := by
    cases duration with
    | none => exact fun t => Iff.rfl
    | some n => exact expired_of_spawn (fun t ht => h.lt_of_expired ht) rfl (timers_register ..)
  have hsame : ∀ t, l.Expired t →
      ((l.register port rx filePath keyword duration).timers t) = l.timers t := by
    intro t ht
    rw [timers_register]
    cases duration with
    | none => rfl
    | some n => exact Function.update_of_ne (Nat.ne_of_lt (h.lt_of_expired ht)) _ _
  have hstops : (l.register port rx filePath keyword duration).stops = l.stops := by
    funext id
    rw [stops, notified_register, stops]
  have hcancelled := l.cancelled_register port rx filePath keyword duration
  have htasks := l.tasks_register port rx filePath keyword duration
  refine ⟨fun id hid => ?_, fun t ht => ?_, fun t ht => ?_, fun id hid => ?_, fun t ht => ?_,
    fun id hid => ?_, ?_⟩
  · by_cases hfresh : id = l.freshLog
    · exact hfresh ▸ Nat.lt_succ_self id
    · rw [htasks, Function.update_of_ne hfresh] at hid
      exact Nat.lt_succ_of_lt (h.task_lt id hid)
  · cases duration with
    | none => exact h.timer_lt t ht
    | some n => exact made_of_spawn h.timer_lt (timers_register ..) t ht
  · have ht := (hexpired t).mp ht
    rw [hsame t ht]
    exact Nat.lt_succ_of_lt (h.cancel_lt t ht)
  · exact Nat.lt_succ_of_lt (h.stops_lt id (hstops ▸ hid))
  · have ht := (hexpired t).mp ht
    rw [hsame t ht, hstops, hcancelled, Function.update_of_ne (Nat.ne_of_lt (h.cancel_lt t ht))]
    exact h.expired t ht
  · rw [hstops] at hid
    rw [htasks, Function.update_of_ne (Nat.ne_of_lt (h.stops_lt id hid))]
    apply (h.announcer id hid).imp_right
    rintro ⟨t, ht, hid⟩
    exact ⟨t, (hexpired t).mpr ht, by rw [hsame t ht, hid]⟩
  · intro q x hx hc
    rw [lookup_register] at hx
    rw [hcancelled] at hc
    split_ifs at hx with hq
    · obtain rfl := Option.some.inj hx
      simp at hc
    · rw [Function.update_of_ne (Nat.ne_of_lt (l.id_lt q x hx))] at hc
      obtain ⟨t, ht, hid⟩ := h.cancelled q x hx hc
      exact ⟨t, (hexpired t).mpr ht, by rw [hsame t ht, hid]⟩

theorem Announced.setTask (h : l.Announced) {id : LogId} (hpc : (l.tasks id).pc ≠ .ended)
    (task' : LogTask) : (l.setTask id task').Announced := by
  refine { h with task_lt := fun id' hid' => ?_, announcer := fun id' hid' => ?_ }
  · by_cases heq : id' = id
    · exact heq ▸ h.task_lt id hpc
    · exact h.task_lt id' (by simpa [Logs.setTask, heq] using hid')
  · by_cases heq : id' = id
    · subst heq
      exact Or.inr ((h.announcer id' hid').resolve_left hpc)
    · have hsame : (l.setTask id task').tasks id' = l.tasks id' :=
        Function.update_of_ne heq _ _
      rw [hsame]
      exact h.announcer id' hid'

/-- An announcement of a log whose task has ended, or one of whose timers has
expired. -/
theorem Announced.announce (h : l.Announced) {id : LogId} (notification : Notification)
    (hid : id < l.freshLog)
    (hby : (l.tasks id).pc = .ended ∨ ∃ t, l.Expired t ∧ (l.timers t).cancel = id) :
    (l.announce id notification).Announced := by
  refine { h with
    stops_lt := fun id' hid' => ?_
    expired := fun t ht => ?_
    announcer := fun id' hid' => ?_ }
  · rw [stops_announce] at hid'
    split_ifs at hid' with heq
    · exact heq ▸ hid
    · exact h.stops_lt id' hid'
  · refine ⟨(h.expired t ht).1, ?_⟩
    rw [stops_announce]
    exact Nat.lt_add_right _ (h.expired t ht).2
  · rw [stops_announce] at hid'
    split_ifs at hid' with heq
    · exact heq ▸ hby
    · exact h.announcer id' hid'

theorem Announced.expire (h : l.Announced) (howned : l.TimersOwned) {t : TimerId}
    (hexpire : l.expire t = some l') : l'.Announced := by
  obtain ⟨hsleep, rfl⟩ := expire_eq_some hexpire
  obtain ⟨port, log, hown⟩ := howned t hsleep
  have hlt : (l.timers t).cancel < l.freshLog := hown.cancel ▸ l.id_lt port log hown.lookup
  -- the timers that have expired now, with the tokens that they had before
  have hexpired : ∀ t', Function.update l.timers t { l.timers t with state := .expired } t' =
      if t' = t then { l.timers t with state := .expired } else l.timers t' := fun t' =>
    Function.update_apply ..
  refine ⟨h.task_lt, fun t' ht' => ?_, fun t' ht' => ?_, fun id hid => ?_, fun t' ht' => ?_,
    fun id hid => ?_, fun q x hx hc => ?_⟩
  · simp only [Logs.announce, hexpired] at ht' ⊢
    split_ifs at ht' with heq
    · exact heq ▸ h.timer_lt t (by rw [show (l.timers t).state = .sleeping from hsleep]; decide)
    · exact h.timer_lt t' ht'
  · simp only [Expired, Logs.announce, hexpired] at ht' ⊢
    split_ifs at ht' ⊢ with heq
    · exact hlt
    · exact h.cancel_lt t' ht'
  · rw [stops_announce] at hid
    split_ifs at hid with heq
    · exact heq ▸ hlt
    · exact h.stops_lt id hid
  · rw [stops_announce]
    simp only [Expired, Logs.announce, hexpired] at ht' ⊢
    split_ifs at ht' ⊢ with heq hid hid
    · simp
    · exact absurd rfl hid
    · exact ⟨by simp [hid], Nat.succ_pos _⟩
    · exact ⟨by simpa [hid] using (h.expired t' ht').1, (h.expired t' ht').2⟩
  · rw [stops_announce] at hid
    simp only [Expired, Logs.announce, hexpired]
    split_ifs at hid with heq
    · exact Or.inr ⟨t, by simp, by simp [heq]⟩
    · apply (h.announcer id hid).imp_right
      rintro ⟨t', ht', hcancel⟩
      have hne : t' ≠ t := by
        rintro rfl
        exact absurd (hsleep.symm.trans ht') (by decide)
      exact ⟨t', by simpa [hne, Expired] using ht', by simpa [hne] using hcancel⟩
  · simp only [Expired, Logs.announce, hexpired] at hc ⊢
    by_cases heq : x.id = (l.timers t).cancel
    · exact ⟨t, by simp, by simp [heq]⟩
    · rw [Function.update_of_ne heq] at hc
      obtain ⟨t', ht', hcancel⟩ := h.cancelled q x hx hc
      have hne : t' ≠ t := by
        rintro rfl
        exact heq hcancel.symm
      exact ⟨t', by simpa [hne, Expired] using ht', by simpa [hne] using hcancel⟩

theorem Announced.changes {m : SerialManager} (h : l.Announced) (howned : l.TimersOwned)
    (hchanges : LogWorld.Changes m l l') : l'.Announced := by
  cases hchanges with
  | same => exact h
  | registered port rx filePath keyword duration hfree =>
      exact h.register rx filePath keyword duration
  | updated port log hlog keyword secs => exact h.update hlog keyword secs
  | removed port log hlog => exact h.remove hlog
  | drained => exact l.drain_induction (fun _ _ _ hlog hl => Announced.remove hl hlog) h
  | moved id e task' hmove => exact h.setTask hmove.pc_ne task'
  | matched id entry kw lines hpc hmatched =>
      have hne : (l.tasks id).pc ≠ .ended := by simp [hpc]
      exact (h.setTask hne _).announce _ (h.task_lt id hne) (Or.inl (by simp [Logs.setTask]))
  | expired t _ hexpire => exact h.expire howned hexpire

end Logs

theorem announced_of_run {es : List LogEvent} {w : LogWorld} (hrun : logging.run es = some w) :
    w.logs.Announced :=
  (logs_invariant (P := fun l => l.Announced ∧ l.TimersOwned)
    ⟨Logs.announced_new, Logs.timersOwned_new⟩
    (fun _ _ _ h hchanges => ⟨h.1.changes h.2 hchanges, h.2.changes hchanges⟩) hrun).1

namespace LogWorld

/-- A step that broadcasts a notification about a log finds the log's task still
running. -/
def StopsRunning (s : LogWorld) (_ : LogEvent) (t : LogWorld) : Prop :=
  ∀ id, s.logs.stops id < t.logs.stops id → (s.logs.tasks id).pc ≠ .ended

/-- At most one notification about each log, and none after its task has ended. -/
def OneStop (es : List LogEvent) (w : LogWorld) : Prop :=
  (∀ id, w.logs.stops id ≤ 1) ∧ logging.Along StopsRunning logging.init es

/-- A timer expires only while its log's task runs and the token is not
cancelled, and a keyword matches only when no timer of the log has expired. -/
def InTime (s : LogWorld) : LogEvent → Prop
  | .expire t =>
      (s.logs.tasks (s.logs.timers t).cancel).pc ≠ .ended ∧
        s.logs.cancelled (s.logs.timers t).cancel = false
  | .write id _ =>
      ∀ entry kw, (s.logs.tasks id).pc = .writing entry → s.logs.matched id entry = some kw →
        ∀ t, (s.logs.timers t).cancel = id → ¬ s.logs.Expired t
  | _ => True

variable {w w' : LogWorld} {e : LogEvent}

/-- The step does not add a second notification, nor a late one. -/
def FirstStop (s t : LogWorld) : Prop :=
  ∀ id, s.logs.stops id < t.logs.stops id → s.logs.stops id = 0 ∧ (s.logs.tasks id).pc ≠ .ended

/-- Which steps broadcast a notification, about which log, and what it says. -/
theorem Steps.announced (h : Steps w e w') :
    (w'.logs.notified = w.logs.notified ∧ w.InTime e) ∨
    (∃ id ok entry kw n, e = .write id ok ∧ (w.logs.tasks id).pc = .writing entry ∧
      w.logs.matched id entry = some kw ∧ w'.logs.notified = w.logs.notified ++ [⟨id, n⟩] ∧
      n.IsStop) ∨
    ∃ t n, e = .expire t ∧ w.logs.Sleeping t ∧
      w'.logs.notified = w.logs.notified ++ [⟨(w.logs.timers t).cancel, n⟩] ∧
      n.IsStop := by
  cases h with
  | matched id ok entry kw lines l' hpc hmatched hl' =>
      exact Or.inr (Or.inl ⟨id, ok, entry, kw, _, rfl, hpc, hmatched, by rw [hl']; rfl,
        .keyword _ _ _⟩)
  | expired t l' hexpire =>
      obtain ⟨hsleep, rfl⟩ := Logs.expire_eq_some hexpire
      exact Or.inr (Or.inr ⟨t, _, rfl, hsleep, rfl, .duration _⟩)
  | moved id e task' hmove =>
      refine Or.inl ⟨rfl, ?_⟩
      cases hmove with
      | wrote ok entry hpc hmatched =>
          intro entry' kw hpc' hmatched'
          obtain rfl : entry = entry' := by simpa [hpc] using hpc'
          simp [hmatched] at hmatched'
      | created | uncreated | cancelled | received | lagged | closed => trivial
  | registered i env args port rx filePath keyword duration resp hpc hlocked hfree =>
      exact Or.inl ⟨w.logs.notified_register port rx filePath keyword duration, trivial⟩
  | updated i env args port log hlog keyword secs resp hpc hlocked =>
      exact Or.inl ⟨Logs.notified_update hlog keyword secs, trivial⟩
  | drained i env hpc hlocked =>
      exact Or.inl ⟨w.logs.drain_induction (P := fun l => l.notified = w.logs.notified)
        (fun _ _ _ _ hl => hl) rfl, trivial⟩
  | stopEnded i env port log closing hpc hended =>
      exact Or.inl ⟨by rw [logs_endStop], trivial⟩
  | timedOut i port log closing hpc => exact Or.inl ⟨by rw [logs_endStop], trivial⟩
  | called | answered | opened | subscribed | stopBegun | unlogged | portClosed | portsDrained
  | delivered | readEnded => exact Or.inl ⟨rfl, trivial⟩

/-- Which steps broadcast a notification, and about which log. -/
theorem Steps.notified (h : Steps w e w') :
    (w'.logs.notified = w.logs.notified ∧ w.InTime e) ∨
    (∃ id ok entry kw n, e = .write id ok ∧ (w.logs.tasks id).pc = .writing entry ∧
      w.logs.matched id entry = some kw ∧ w'.logs.notified = w.logs.notified ++ [⟨id, n⟩] ∧
      n.notify = "log_stopped") ∨
    ∃ t n, e = .expire t ∧ w.logs.Sleeping t ∧
      w'.logs.notified = w.logs.notified ++ [⟨(w.logs.timers t).cancel, n⟩] ∧
      n.notify = "log_stopped" := by
  obtain hsame | ⟨id, ok, entry, kw, n, he, hpc, hmatched, hnotified, hstop⟩ |
    ⟨t, n, he, hsleep, hnotified, hstop⟩ := h.announced
  · exact Or.inl hsame
  · exact Or.inr (Or.inl ⟨id, ok, entry, kw, n, he, hpc, hmatched, hnotified, hstop.notify⟩)
  · exact Or.inr (Or.inr ⟨t, n, he, hsleep, hnotified, hstop.notify⟩)

private theorem stops_of_notified {x : LogStopped}
    (h : w'.logs.notified = w.logs.notified ++ [x]) (id : LogId) :
    w'.logs.stops id = w.logs.stops id + if id = x.log then 1 else 0 := by
  simp only [Logs.stops, h]
  exact w.logs.stops_announce x.log x.notification id

private theorem firstStop_of_notified {x : LogStopped}
    (h : w'.logs.notified = w.logs.notified ++ [x]) :
    FirstStop w w' ↔ w.logs.stops x.log = 0 ∧ (w.logs.tasks x.log).pc ≠ .ended := by
  constructor
  · intro hfirst
    exact hfirst x.log (by simp [stops_of_notified h])
  · intro hfirst id hlt
    rw [stops_of_notified h] at hlt
    split_ifs at hlt with heq
    · exact heq ▸ hfirst
    · exact absurd hlt (Nat.lt_irrefl _)

/-- A notification is the first of its log, and in time, exactly when its step is
in time. -/
theorem firstStop_iff_inTime (hann : w.logs.Announced) (howned : w.logs.TimersOwned)
    (hsteps : Steps w e w') : FirstStop w w' ↔ w.InTime e := by
  obtain ⟨hsame, hinTime⟩ | ⟨id, ok, entry, kw, n, rfl, hpc, hmatched, hnotified, -⟩ |
    ⟨t, n, rfl, hsleep, hnotified, -⟩ := hsteps.notified
  · refine iff_of_true (fun id hlt => ?_) hinTime
    simp only [Logs.stops, hsame] at hlt
    exact absurd hlt (Nat.lt_irrefl _)
  · rw [firstStop_of_notified hnotified]
    constructor
    · rintro ⟨hzero, -⟩ entry' kw' - - t hcancel ht
      have hpos := (hann.expired t ht).2
      rw [hcancel, hzero] at hpos
      exact Nat.lt_irrefl 0 hpos
    · intro h
      refine ⟨?_, by simp [hpc]⟩
      by_contra hpos
      obtain hended | ⟨t, ht, hcancel⟩ := hann.announcer id (Nat.pos_of_ne_zero hpos)
      · simp [hpc] at hended
      · exact h entry kw hpc hmatched t hcancel ht
  · obtain ⟨port, log, hown⟩ := howned t hsleep
    rw [firstStop_of_notified hnotified, and_comm]
    apply and_congr_right
    intro hrunning
    constructor
    · intro hzero
      by_contra hcancelled
      rw [Bool.not_eq_false, hown.cancel] at hcancelled
      obtain ⟨t', ht', hcancel⟩ := hann.cancelled port log hown.lookup hcancelled
      have hpos := (hann.expired t' ht').2
      rw [hcancel, ← hown.cancel, hzero] at hpos
      exact Nat.lt_irrefl 0 hpos
    · intro hcancelled
      by_contra hpos
      obtain hended | ⟨t', ht', hcancel⟩ := hann.announcer _ (Nat.pos_of_ne_zero hpos)
      · exact hrunning hended
      · have htrue := (hann.expired t' ht').1
        rw [hcancel, hcancelled] at htrue
        exact absurd htrue (by decide)

/-- A step adds at most one notification about a log, and takes none back. -/
theorem Steps.stops (hsteps : Steps w e w') (id : LogId) :
    w'.logs.stops id = w.logs.stops id ∨ w'.logs.stops id = w.logs.stops id + 1 := by
  have hadd : ∀ x : LogStopped, w'.logs.notified = w.logs.notified ++ [x] →
      w'.logs.stops id = w.logs.stops id ∨ w'.logs.stops id = w.logs.stops id + 1 := by
    intro x hx
    rw [stops_of_notified hx]
    split_ifs
    · exact Or.inr rfl
    · exact Or.inl rfl
  obtain ⟨hsame, -⟩ | ⟨_, _, _, _, _, -, -, -, hx, -⟩ | ⟨_, _, -, -, hx, -⟩ := hsteps.notified
  · exact Or.inl (by simp only [Logs.stops, hsame])
  · exact hadd _ hx
  · exact hadd _ hx

/-- Whatever is broadcast to the clients says that a log has stopped. -/
theorem isStop_of_run {es : List LogEvent} (hrun : logging.run es = some w) :
    ∀ x ∈ w.logs.notified, x.notification.IsStop := by
  refine logging.run_invariant (P := fun w => ∀ x ∈ w.logs.notified, x.notification.IsStop)
    (by simp [logging, Logs.new]) (fun s e t hs hstep => ?_) hrun
  obtain ⟨hsame, -⟩ | ⟨id, _, _, _, n, -, -, -, hx, hstop⟩ | ⟨_, n, -, -, hx, hstop⟩ :=
    (step_steps hstep).announced
  · rw [hsame]
    exact hs
  all_goals
    rw [hx]
    refine List.forall_mem_append.mpr ⟨hs, ?_⟩
    simpa using hstop

private theorem oneStop_snoc {es : List LogEvent} (hrun : logging.run es = some w)
    (hstep : w.step e = some w') : OneStop (es ++ [e]) w' ↔ OneStop es w ∧ FirstStop w w' := by
  have hsteps := step_steps hstep
  have hsnoc : logging.Along StopsRunning w [e] ↔ StopsRunning w e w' := by
    refine ⟨fun h => (h w' hstep).1, fun h t ht => ⟨?_, trivial⟩⟩
    obtain rfl := Option.some.inj (hstep.symm.trans ht)
    exact h
  simp only [OneStop, logging.along_append hrun, hsnoc]
  constructor
  · rintro ⟨hle, halong, hlast⟩
    refine ⟨⟨fun id => ?_, halong⟩, fun id hlt => ⟨?_, hlast id hlt⟩⟩
    · have hid := hle id
      rcases hsteps.stops id with h | h <;> omega
    · have hid := hle id
      omega
  · rintro ⟨⟨hle, halong⟩, hfirst⟩
    refine ⟨fun id => ?_, halong, fun id hlt => (hfirst id hlt).2⟩
    have hid := hle id
    rcases hsteps.stops id with h | h
    · omega
    · have hzero := (hfirst id (by omega)).1
      omega

end LogWorld

/-- When a log stops with one notification. On every run, each log has at
most one notification, and none after its task has ended, exactly when every
expiry finds the task running and the token not cancelled, and every match of the
keyword comes before any expiry of the log. -/
theorem oneStop_iff {es : List LogEvent} {w : LogWorld} (hrun : logging.run es = some w) :
    LogWorld.OneStop es w ↔
      logging.Along (fun s e _ => s.InTime e) logging.init es := by
  refine logging.run_history (P := fun es w => LogWorld.OneStop es w ↔
    logging.Along (fun s e _ => s.InTime e) logging.init es) ?_ ?_ hrun
  · refine iff_of_true ⟨fun id => ?_, trivial⟩ trivial
    simp [Logs.stops, logging, Logs.new]
  · intro es s e t hes ih hstep
    rw [LogWorld.oneStop_snoc hes hstep, ih, logging.along_append hes,
      LogWorld.firstStop_iff_inTime (announced_of_run hes) (timersOwned_of_run hes)
        (LogWorld.step_steps hstep)]
    refine and_congr_right fun _ => ⟨fun h u _ => ⟨h, trivial⟩, fun h => (h t hstep).1⟩

/-- A log with a keyword and a timer. An entry with the keyword ends the task,
and then the timer expires. -/
def matchedThenExpired : List LogEvent :=
  logCall 0 (.openPort (logArgs "P" [])) 1 ++
    logCall 1 (.startLog (logArgs "P" [("stopKeyword", .string "OK"),
      ("duration", .number (.posInt 5))])) 2 ++
    [.createFile 0 true, .deliver 0 ⟨"t", [79, 75]⟩, .recv 0, .write 0 true, .expire 0]

private theorem matchedThenExpired_stops :
    (logging.run matchedThenExpired).any (fun w => w.logs.stops 0 == 2) = true := by
  decide +kernel

private theorem exists_two_stops : ∃ w, logging.run matchedThenExpired = some w ∧
    ¬ LogWorld.OneStop matchedThenExpired w := by
  obtain ⟨w, hw, htest⟩ := (Option.any_eq_true _ _).mp matchedThenExpired_stops
  refine ⟨w, hw, fun h => ?_⟩
  have hle := h.1 0
  rw [beq_iff_eq.mp htest] at hle
  exact absurd hle (by decide)

/-- The theorem on that run: one of its steps comes too late. -/
theorem oneStop_iff_matched : ∃ w, logging.run matchedThenExpired = some w ∧
    ¬ logging.Along (fun s e _ => s.InTime e) logging.init matchedThenExpired := by
  obtain ⟨w, hw, hnot⟩ := exists_two_stops
  exact ⟨w, hw, fun h => hnot ((oneStop_iff hw).mpr h)⟩

/-- A log may stop with two notifications. -/
theorem not_always_oneStop :
    ¬ ∀ es w, logging.run es = some w → LogWorld.OneStop es w := by
  intro h
  obtain ⟨w, hw, hnot⟩ := exists_two_stops
  exact hnot (h _ w hw)

end Commmon

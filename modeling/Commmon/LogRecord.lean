/-
# What a log has written when it is stopped

A log task writes every entry that it receives, in the order of the channel. A
stop cancels the task, which may then still be served entries, or take the branch
of its token and leave them. So what a stopped log has written is decided by how
many entries the task receives after the call.
-/

import Commmon.LogPorts

set_option autoImplicit false

namespace Commmon

open Broadcast

namespace SerialManager

private theorem closeAll_later (m : SerialManager) : Later m m.closeAll := by
  refine List.foldlRecOn (motive := fun m' => Later m m') _ _ (Later.refl m) ?_
  intro m' hlater port _
  cases hopen : m'.ports.lookup port with
  | none => simpa only [hopen] using hlater
  | some op =>
      simp only
      exact hlater.trans (Changes.closed m' port op hopen).later

end SerialManager

namespace LogWorld

variable {w w' : LogWorld} {e : LogEvent}

theorem Steps.later (h : Steps w e w') : SerialManager.Later w.serial w'.serial := by
  cases h with
  | opened i env args port config resp hpc hclosed =>
      exact (SerialManager.Changes.opened w.serial port config hclosed).later
  | portClosed i env args port op resp hpc hport hopen =>
      exact (SerialManager.Changes.closed w.serial port op hopen).later
  | portsDrained i env hpc => exact w.serial.closeAll_later
  | delivered k entry m' hdeliver =>
      obtain rfl := SerialManager.deliver_eq_some hdeliver
      exact (SerialManager.Changes.delivered w.serial k entry).later
  | readEnded k m' hend => exact (SerialManager.endReadTask_changes hend).later
  | stopEnded i env port log closing hpc hended => cases closing <;> exact .refl _
  | timedOut i port log closing hpc => cases closing <;> exact .refl _
  | called | answered | subscribed | registered | updated | stopBegun | unlogged | drained
  | moved | matched | expired => exact .refl _

/-- What a step does to the task of a log that has been started: nothing, unless
it is a step of this task. -/
theorem Steps.task (h : Steps w e w') {id : LogId} (hid : id < w.logs.freshLog) :
    id < w'.logs.freshLog ∧
    ((w'.logs.tasks id = w.logs.tasks id ∧ ∀ id' ok, (e = .recv id' ∨ e = .write id' ok) →
        id' ≠ id) ∨
      (w'.serial = w.serial ∧ w.logs.TaskMoves w.serial id e (w'.logs.tasks id)) ∨
      ∃ ok entry kw, e = .write id ok ∧ (w.logs.tasks id).pc = .writing entry ∧
        w.logs.matched id entry = some kw) := by
  cases h with
  | registered i env args port rx filePath keyword duration resp hpc hlocked hfree =>
      have htasks := w.logs.tasks_register port rx filePath keyword duration
      refine ⟨Nat.lt_succ_of_lt hid, Or.inl ⟨?_, by simp⟩⟩
      simp [htasks, Nat.ne_of_lt hid]
  | updated i env args port log hlog keyword secs resp hpc hlocked =>
      refine ⟨?_, Or.inl ⟨?_, by simp⟩⟩
      · exact (Logs.freshLog_update hlog keyword secs).symm ▸ hid
      · exact congrFun (Logs.tasks_update hlog keyword secs) id
  | drained i env hpc hlocked =>
      obtain ⟨hfresh, htasks⟩ := w.logs.drain_induction
        (P := fun l => l.freshLog = w.logs.freshLog ∧ l.tasks = w.logs.tasks)
        (fun _ _ _ _ hl => hl) ⟨rfl, rfl⟩
      exact ⟨by simpa [hfresh] using hid, Or.inl ⟨by simp [htasks], by simp⟩⟩
  | stopEnded i env port log closing hpc hended =>
      rw [logs_endStop]
      exact ⟨hid, Or.inl ⟨rfl, by simp⟩⟩
  | timedOut i port log closing hpc =>
      rw [logs_endStop]
      exact ⟨hid, Or.inl ⟨rfl, by simp⟩⟩
  | moved id' e task' hmove =>
      refine ⟨hid, ?_⟩
      by_cases heq : id' = id
      · subst heq
        exact Or.inr (Or.inl ⟨rfl, by simpa [Logs.setTask] using hmove⟩)
      · refine Or.inl ⟨by simp [Logs.setTask, Ne.symm heq], fun id'' ok h => ?_⟩
        cases hmove <;> simp_all
  | matched id' ok entry kw lines l' hpc hmatched hl' =>
      subst hl'
      refine ⟨hid, ?_⟩
      by_cases heq : id' = id
      · subst heq
        exact Or.inr (Or.inr ⟨ok, entry, kw, rfl, hpc, hmatched⟩)
      · exact Or.inl ⟨by simp [Logs.setTask, Logs.announce, Ne.symm heq], by simpa using heq⟩
  | expired t l' hexpire =>
      obtain ⟨-, rfl⟩ := Logs.expire_eq_some hexpire
      exact ⟨hid, Or.inl ⟨rfl, by simp⟩⟩
  | called | answered | opened | subscribed | stopBegun | unlogged | portClosed | portsDrained
  | delivered | readEnded => exact ⟨hid, Or.inl ⟨rfl, by simp⟩⟩

end LogWorld

namespace LogWorld

variable {w w' : LogWorld} {e : LogEvent}

/-- A call has subscribed since, or just now. -/
theorem Steps.register (h : Steps w e w') {i : CallId} {port : String} {rx : Receiver}
    {args : Value} (hi : w'.calls i = some (.register port rx args)) :
    w.calls i = some (.register port rx args) ∨
      (w.serial.subscribe port = some rx ∧ w'.serial = w.serial) := by
  have hset : ∀ {j pc}, (∀ port rx args, pc ≠ .register port rx args) →
      Function.update w.calls j (some pc) i = some (.register port rx args) →
      w.calls i = some (.register port rx args) := by
    intro j pc hpc hi
    by_cases hij : i = j
    · simp [hij, hpc] at hi
    · rwa [Function.update_of_ne hij] at hi
  cases h with
  | subscribed j env args' port' rx' hpc hrx =>
      by_cases hij : i = j
      · obtain ⟨rfl, rfl, rfl⟩ : port' = port ∧ rx' = rx ∧ args' = args := by
          simpa [hij] using hi
        exact Or.inr ⟨hrx, rfl⟩
      · exact Or.inl (by simpa [hij] using hi)
  | stopEnded j env port log closing hpc hended =>
      cases closing <;> exact Or.inl (hset (by simp) hi)
  | timedOut j port log closing hpc => cases closing <;> exact Or.inl (hset (by simp) hi)
  | called | answered | opened | registered | updated | stopBegun | unlogged | portClosed
  | drained | portsDrained => exact Or.inl (hset (by simp) hi)
  | moved | matched | expired | delivered | readEnded => exact Or.inl hi

end LogWorld

/-- A receiver that `start_log` has taken is one of a channel that has been made,
and has not run ahead of it. -/
theorem register_receiver_of_run {es : List LogEvent} {w : LogWorld}
    (hrun : logging.run es = some w) {i : CallId} {port : String} {rx : Receiver} {args : Value}
    (hi : w.calls i = some (.register port rx args)) :
    rx.chan < w.serial.fresh ∧ rx.next ≤ (w.serial.channels rx.chan).tail := by
  refine logging.run_invariant (P := fun w => ∀ i port rx args,
    w.calls i = some (.register port rx args) →
      rx.chan < w.serial.fresh ∧ rx.next ≤ (w.serial.channels rx.chan).tail) ?_ ?_ hrun
        i port rx args hi
  · intro i port rx args hi
    simp [logging] at hi
  · intro s e t hs hstep i port rx args hi
    have hsteps := LogWorld.step_steps hstep
    obtain hold | ⟨hrx, hserial⟩ := hsteps.register hi
    · obtain ⟨hlt, hle⟩ := hs i port rx args hold
      exact ⟨Nat.lt_of_lt_of_le hlt hsteps.later.fresh_le,
        Nat.le_trans hle (hsteps.later.tail_le hlt)⟩
    · obtain ⟨op, hop, rfl⟩ := SerialManager.subscribe_eq_some.mp hrx
      rw [hserial]
      exact ⟨s.serial.tx_lt port op hop, le_rfl⟩

/-- The entry that the task has received and not written yet. -/
def LogTask.pending (task : LogTask) : List RxEntry :=
  match task.pc with
  | .writing entry => [entry]
  | _ => []

namespace LogWorld

variable {w w' : LogWorld} {e : LogEvent} {id : LogId} {k : ChannelId} {start : ℕ}
  {Q : RxEntry → Prop}

/-- The task of the log neither lags nor fails to create or write its file, and
no keyword stops it. -/
def Undamaged (id : LogId) (s : LogWorld) : LogEvent → Prop
  | .createFile id' ok => id' = id → ok = true
  | .recv id' => id' = id → ∀ missed rx, s.serial.tryRecv (s.logs.tasks id).rx ≠
      (.lagged missed, rx)
  | .write id' ok => id' = id → ok = true ∧
      ∀ entry, (s.logs.tasks id).pc = .writing entry → s.logs.matched id entry = none
  | _ => True

instance (id : LogId) (s : LogWorld) : DecidablePred (Undamaged id s)
  | .createFile id' ok => inferInstanceAs (Decidable (id' = id → ok = true))
  | .recv id' =>
      match h : s.serial.tryRecv (s.logs.tasks id).rx with
      | (.lagged missed, rx) =>
          decidable_of_iff (id' ≠ id) ⟨fun hid heq => absurd heq hid,
            fun hund heq => hund heq missed rx h⟩
      | (.ok _ _, _) | (.empty, _) | (.closed, _) => isTrue fun _ missed rx hrecv => by
          rw [h] at hrecv
          cases hrecv
  | .write id' ok =>
      match h : (s.logs.tasks id).pc with
      | .writing entry =>
          decidable_of_iff (id' = id → ok = true ∧ s.logs.matched id entry = none)
            (forall_congr' fun _ => and_congr_right fun _ =>
              ⟨fun hnone _ heq => LogPc.writing.inj (h.symm.trans heq) ▸ hnone,
                fun hall => hall entry h⟩)
      | .creating | .selecting | .ended =>
          decidable_of_iff (id' = id → ok = true)
            (forall_congr' fun _ => (and_iff_left fun _ heq => by
              rw [h] at heq
              cases heq).symm)
  | .call .. | .advance .. | .timeOut .. | .observeCancel .. | .expire .. | .deliver ..
  | .endReadTask .. => isTrue trivial

/-- Whether the log's task receives an entry at this label. -/
def receivesAt (id : LogId) (s : LogWorld) : LogEvent → ℕ
  | .recv id' =>
      if id' = id then
        match (s.serial.tryRecv (s.logs.tasks id).rx).1 with
        | .ok _ _ => 1
        | _ => 0
      else 0
  | _ => 0

/-- How many entries the log's task receives on the labels. -/
def receives (id : LogId) : LogWorld → List LogEvent → ℕ
  | _, [] => 0
  | s, e :: es => receivesAt id s e + ((s.step e).map fun t => receives id t es).getD 0

/-- The entries that the log's task has received, if it began at `start`. -/
def taken (w : LogWorld) (id : LogId) (k : ChannelId) (start : ℕ) : List RxEntry :=
  ((w.serial.channels k).sent.take (w.logs.tasks id).rx.next).drop start

/-- The log's task has written the entries it received from `start` on, up to the
one it is writing, and all that it has written satisfy `Q`. -/
structure Recorded (id : LogId) (k : ChannelId) (start : ℕ) (Q : RxEntry → Prop)
    (w : LogWorld) : Prop where
  made : id < w.logs.freshLog
  chan_lt : k < w.serial.fresh
  chan : (w.logs.tasks id).rx.chan = k
  start_le : start ≤ (w.logs.tasks id).rx.next
  le_tail : (w.logs.tasks id).rx.next ≤ (w.serial.channels k).tail
  written : ∃ checked, w.taken id k start = checked ++ (w.logs.tasks id).pending ∧
    (w.logs.tasks id).lines = checked.map Logs.renderLine ∧ ∀ entry ∈ checked, Q entry

/-- The task of another log moved, or none. -/
theorem Recorded.of_same (h : Recorded id k start Q w)
    (hlater : SerialManager.Later w.serial w'.serial) (hmade : id < w'.logs.freshLog)
    (htask : w'.logs.tasks id = w.logs.tasks id) : Recorded id k start Q w' := by
  have hprefix := hlater.sent_prefix k h.chan_lt
  have htaken : w'.taken id k start = w.taken id k start := by
    obtain ⟨more, hmore⟩ := hprefix
    rw [taken, taken, htask, ← hmore, List.take_append_of_le_length h.le_tail]
  refine ⟨hmade, Nat.lt_of_lt_of_le h.chan_lt hlater.fresh_le, ?_, ?_, ?_, ?_⟩
  · rw [htask, h.chan]
  · rw [htask]
    exact h.start_le
  · rw [htask]
    exact Nat.le_trans h.le_tail (hlater.tail_le h.chan_lt)
  · rw [htask, htaken]
    exact h.written

/-- A receive that answers an entry answers the one at the cursor. -/
theorem tryRecv_ok {m : SerialManager} {rx rx' : Receiver} {pos : ℕ} {entry : RxEntry}
    (h : m.tryRecv rx = (.ok pos entry, rx')) :
    (m.channels rx.chan).sent[rx.next]? = some entry ∧ rx' = { rx with next := rx.next + 1 } := by
  obtain ⟨value, hvalue, -, -, heq⟩ | ⟨-, heq⟩ | ⟨-, -, heq⟩ | ⟨-, -, heq⟩ :=
    (m.channels rx.chan).tryRecv_cases rx.next
  all_goals simp only [SerialManager.tryRecv, heq, Prod.mk.injEq, TryRecv.ok.injEq, reduceCtorEq,
    false_and] at h
  obtain ⟨⟨-, rfl⟩, rfl⟩ := h
  exact ⟨hvalue, rfl⟩

/-- The task goes on without receiving. -/
theorem Recorded.of_task (h : Recorded id k start Q w) (hmade : id < w'.logs.freshLog)
    (hserial : w'.serial = w.serial) (hrx : (w'.logs.tasks id).rx = (w.logs.tasks id).rx)
    (hwritten : ∃ checked, w.taken id k start = checked ++ (w'.logs.tasks id).pending ∧
      (w'.logs.tasks id).lines = checked.map Logs.renderLine ∧ ∀ entry ∈ checked, Q entry) :
    Recorded id k start Q w' := by
  refine ⟨hmade, ?_, ?_, ?_, ?_, ?_⟩
  · exact hserial ▸ h.chan_lt
  · rw [hrx, h.chan]
  · exact hrx ▸ h.start_le
  · rw [hrx, hserial]
    exact h.le_tail
  · have htaken : w'.taken id k start = w.taken id k start := by
      rw [taken, taken, hrx, hserial]
    rwa [htaken]

/-- The task receives the entry at its cursor. -/
theorem Recorded.receive (h : Recorded id k start Q w) (hmade : id < w'.logs.freshLog)
    (hserial : w'.serial = w.serial) {entry : RxEntry}
    (hentry : (w.serial.channels k).sent[(w.logs.tasks id).rx.next]? = some entry)
    (hselecting : (w.logs.tasks id).pending = [])
    (htask : w'.logs.tasks id = { w.logs.tasks id with
      rx := { (w.logs.tasks id).rx with next := (w.logs.tasks id).rx.next + 1 }
      pc := .writing entry }) : Recorded id k start Q w' := by
  have hlt : (w.logs.tasks id).rx.next < (w.serial.channels k).sent.length :=
    (List.getElem?_eq_some_iff.mp hentry).1
  refine ⟨hmade, hserial ▸ h.chan_lt, by rw [htask]; exact h.chan, ?_, ?_, ?_⟩
  · rw [htask]
    exact Nat.le_succ_of_le h.start_le
  · rw [htask, hserial]
    exact hlt
  · obtain ⟨checked, htaken, hlines, hQ⟩ := h.written
    have hstart : start ≤
        ((w.serial.channels k).sent.take (w.logs.tasks id).rx.next).length := by
      rw [List.length_take_of_le (Nat.le_of_lt hlt)]
      exact h.start_le
    refine ⟨checked, ?_, by rw [htask]; exact hlines, hQ⟩
    rw [hselecting, List.append_nil] at htaken
    have hone : w'.taken id k start = w.taken id k start ++ [entry] := by
      rw [taken, taken, htask, hserial]
      simp only [List.take_add_one, hentry, Option.toList_some,
        List.drop_append_of_le_length hstart]
    rw [hone, htaken, htask]
    rfl

/-- One step of recording. The cursor moves by the entry that is received. -/
theorem Recorded.step (h : Recorded id k start Q w) (hsteps : Steps w e w')
    (hund : Undamaged id w e) (hQ : ∀ entry, w.logs.matched id entry = none → Q entry) :
    Recorded id k start Q w' ∧
      (w'.logs.tasks id).rx.next = (w.logs.tasks id).rx.next + receivesAt id w e := by
  obtain ⟨checked, htaken, hlines, hchecked⟩ := h.written
  obtain ⟨hmade, ⟨htask, hlabel⟩ | ⟨hserial, hmove⟩ | ⟨ok, entry, kw, rfl, hpc, hmatched⟩⟩ :=
    hsteps.task h.made
  · refine ⟨h.of_same hsteps.later hmade htask, ?_⟩
    have hzero : receivesAt id w e = 0 := by
      cases e with
      | recv id' => simp [receivesAt, hlabel id' true (Or.inl rfl)]
      | call | advance | timeOut | createFile | observeCancel | write | expire | deliver
      | endReadTask => rfl
    rw [htask, hzero, Nat.add_zero]
  · generalize htask : w'.logs.tasks id = task' at hmove
    cases hmove with
    | created hpc =>
        refine ⟨h.of_task hmade hserial (by rw [htask]) ⟨checked, ?_, ?_, hchecked⟩, rfl⟩
        · simpa [htask, LogTask.pending, hpc] using htaken
        · rw [htask, ← hlines]
    | uncreated hpc => exact absurd (hund rfl) (by decide)
    | cancelled hpc hcancel =>
        refine ⟨h.of_task hmade hserial (by rw [htask]) ⟨checked, ?_, ?_, hchecked⟩, rfl⟩
        · simpa [htask, LogTask.pending, hpc] using htaken
        · rw [htask, ← hlines]
    | received pos entry rx hpc hrecv =>
        obtain ⟨hentry, rfl⟩ := tryRecv_ok hrecv
        rw [h.chan] at hentry
        refine ⟨h.receive hmade hserial hentry (by simp [LogTask.pending, hpc]) htask, ?_⟩
        simp [receivesAt, hrecv]
    | lagged missed rx hpc hrecv => exact absurd hrecv (hund rfl missed rx)
    | closed rx hpc hrecv =>
        refine ⟨h.of_task hmade hserial (by rw [htask]) ⟨checked, ?_, ?_, hchecked⟩, ?_⟩
        · simpa [htask, LogTask.pending, hpc] using htaken
        · rw [htask, ← hlines]
        · simp [receivesAt, hrecv]
    | wrote ok entry hpc hmatched =>
        obtain ⟨rfl, -⟩ := hund rfl
        refine ⟨h.of_task hmade hserial (by rw [htask]) ⟨checked ++ [entry], ?_, ?_, ?_⟩, rfl⟩
        · simpa [htask, LogTask.pending, hpc] using htaken
        · simp [htask, hlines]
        · intro entry' hentry'
          obtain hold | rfl := by simpa using hentry'
          · exact hchecked entry' hold
          · exact hQ entry' hmatched
  · exact absurd ((hund rfl).2 entry hpc) (by simp [hmatched])

/-- On a run the cursor moves by the entries that are received. -/
theorem Recorded.runFrom {es : List LogEvent} :
    ∀ {w w' : LogWorld}, Recorded id k start Q w → logging.runFrom w es = some w' →
      logging.Along (fun s e _ => Undamaged id s e ∧
        ∀ entry, s.logs.matched id entry = none → Q entry) w es →
      Recorded id k start Q w' ∧
        (w'.logs.tasks id).rx.next = (w.logs.tasks id).rx.next + receives id w es := by
  induction es with
  | nil =>
      intro w w' h hrun _
      obtain rfl := Option.some.inj hrun
      exact ⟨h, rfl⟩
  | cons e es ih =>
      intro w w' h hrun halong
      obtain ⟨m, hstep, hrest⟩ := logging.runFrom_cons_eq_some.mp hrun
      obtain ⟨⟨hund, hQ⟩, hafter⟩ := halong m hstep
      obtain ⟨hm, hnext⟩ := h.step (step_steps hstep) hund hQ
      obtain ⟨hw', hnext'⟩ := ih hm hrest hafter
      refine ⟨hw', ?_⟩
      have hstep' : w.step e = some m := hstep
      rw [hnext', hnext, receives, hstep', Option.map_some, Option.getD_some, Nat.add_assoc]

/-- A log that has just been put into the table has received nothing. -/
theorem recorded_started {es : List LogEvent} {i : CallId} {env : Logs.LogEnv} {port : String}
    {rx : Receiver} {args : Value} (hrun : logging.run es = some w)
    (hregister : w.calls i = some (.register port rx args))
    (hfree : w.logs.table.lookup port = none) (hstart : w.step (.advance i env) = some w') :
    Recorded w.logs.freshLog rx.chan rx.next Q w' := by
  obtain ⟨hchan, hnext⟩ := register_receiver_of_run hrun hregister
  have hadvance : w.advance i env (.register port rx args) = some w' := by
    rwa [LogWorld.step, hregister, Option.bind_some] at hstart
  obtain ⟨-, rfl⟩ := whenUnlocked_eq_some hadvance
  obtain ⟨filePath, keyword, duration, hlogs⟩ := Logs.startLog_of_free rx args env hfree
  have htask : (w.logs.register port rx filePath keyword duration).tasks w.logs.freshLog =
      ⟨rx, filePath, port, .creating, []⟩ := by
    rw [Logs.tasks_register, Function.update_self]
  refine ⟨?_, hchan, ?_, ?_, ?_, ⟨[], ?_, ?_, by simp⟩⟩
  all_goals simp only [answer_eq, logs_setCall, serial_setCall, hlogs, htask, taken]
  · exact Nat.lt_succ_self _
  · exact le_rfl
  · exact hnext
  · simp [LogTask.pending, List.drop_eq_nil_of_le (List.length_take_le _ _)]
  · rfl

end LogWorld

/-- A run with a log that one call starts and another stops. The stop waits until
the task has ended, and the task is not damaged on the way. -/
structure StoppedLog where
  before : List LogEvent
  starter : CallId
  env : Logs.LogEnv
  port : String
  rx : Receiver
  args : Value
  subscribed : LogWorld
  started : LogWorld
  during : List LogEvent
  stopper : CallId
  cmd : LogCommand
  called : LogWorld
  after : List LogEvent
  closing : Option Value
  log : LogState
  waiting : LogWorld
  returned : LogWorld
  run_before : logging.run before = some subscribed
  register : subscribed.calls starter = some (.register port rx args)
  free : subscribed.logs.table.lookup port = none
  start : subscribed.step (.advance starter env) = some started
  run_during : logging.runFrom started (during ++ [.call stopper cmd]) = some called
  run_after : logging.runFrom called after = some waiting
  wait : waiting.calls stopper = some (.waiting port log closing)
  log_id : log.id = subscribed.logs.freshLog
  return' : waiting.step (.advance stopper env) = some returned
  undamaged : logging.Along (fun s e _ => LogWorld.Undamaged log.id s e) started
    (during ++ [.call stopper cmd] ++ after)

namespace StoppedLog

variable (x : StoppedLog)

/-- The lines of the log's file when the stop goes on. -/
def written : List String := (x.returned.logs.tasks x.log.id).lines

/-- The entries that were broadcast from the log's subscription to the call of
the stop. -/
def broadcast : List RxEntry := (x.called.serial.channels x.rx.chan).sent.drop x.rx.next

/-- The entries that the log task had still to receive at the call of the stop. -/
def pending : ℕ :=
  (x.called.serial.channels x.rx.chan).tail - (x.called.logs.tasks x.log.id).rx.next

private theorem recorded_called :
    LogWorld.Recorded x.log.id x.rx.chan x.rx.next (fun _ => True) x.called ∧
    LogWorld.Recorded x.log.id x.rx.chan x.rx.next (fun _ => True) x.waiting ∧
    (x.waiting.logs.tasks x.log.id).rx.next =
      (x.called.logs.tasks x.log.id).rx.next + LogWorld.receives x.log.id x.called x.after := by
  have hundamaged : logging.Along (fun s e _ => LogWorld.Undamaged x.log.id s e ∧
      ∀ entry, s.logs.matched x.log.id entry = none → True) x.started
        (x.during ++ [.call x.stopper x.cmd] ++ x.after) :=
    logging.along_mono (fun s e t h => ⟨h, fun _ _ => trivial⟩) x.undamaged
  obtain ⟨hduring, hafter⟩ := (logging.along_append x.run_during).mp hundamaged
  have hstarted : LogWorld.Recorded x.log.id x.rx.chan x.rx.next (fun _ => True) x.started := by
    rw [x.log_id]
    exact LogWorld.recorded_started x.run_before x.register x.free x.start
  have hcalled := (hstarted.runFrom x.run_during hduring).1
  exact ⟨hcalled, hcalled.runFrom x.run_after hafter⟩

/-- When a stopped log is complete. The file has one line for each entry that
was broadcast between the start and the call of the stop, in order, exactly when
the task receives after the call as many entries as were pending at the call. -/
theorem complete_iff :
    x.written = x.broadcast.map Logs.renderLine ↔
      LogWorld.receives x.log.id x.called x.after = x.pending := by
  obtain ⟨hcalled, hwaiting, hnext⟩ := x.recorded_called
  -- the wait is over, so the task has ended and the file is what it was before
  have hstep : x.waiting.advance x.stopper x.env (.waiting x.port x.log x.closing) =
      some x.returned := by
    have hstep := x.return'
    rwa [LogWorld.step, x.wait, Option.bind_some] at hstep
  simp only [LogWorld.advance] at hstep
  split_ifs at hstep with hended
  have hlogs : x.returned.logs = x.waiting.logs := by
    rw [← Option.some.inj hstep, LogWorld.logs_endStop]
  obtain ⟨checked, htaken, hlines, -⟩ := hwaiting.written
  rw [LogTask.pending, hended, List.append_nil] at htaken
  rw [written, hlogs, hlines, ← htaken, LogWorld.taken, broadcast, pending]
  have hlater : SerialManager.Later x.called.serial x.waiting.serial :=
    logging.runFrom_invariant (P := fun w => SerialManager.Later x.called.serial w.serial)
      (fun s e t hs hstep => hs.trans (LogWorld.step_steps hstep).later) (.refl _) x.run_after
  obtain ⟨more, hmore⟩ := hlater.sent_prefix x.rx.chan hcalled.chan_lt
  have hstart := hcalled.start_le
  have htail : (x.called.logs.tasks x.log.id).rx.next ≤
      (x.called.serial.channels x.rx.chan).sent.length := hcalled.le_tail
  have htail' : (x.waiting.logs.tasks x.log.id).rx.next ≤
      (x.waiting.serial.channels x.rx.chan).sent.length := hwaiting.le_tail
  constructor
  · intro heq
    have hlength := congrArg List.length heq
    simp only [List.length_map, List.length_drop, List.length_take] at hlength
    rw [Channel.tail]
    omega
  · intro hreceives
    have hcursor : (x.waiting.logs.tasks x.log.id).rx.next =
        (x.called.serial.channels x.rx.chan).sent.length := by
      rw [hnext, hreceives, Channel.tail]
      omega
    rw [hcursor, ← hmore, List.take_left]

end StoppedLog

/-- A log that is stopped while an entry is pending. The task is served it first, and then
takes the branch of its token. -/
def keptEntry : StoppedLog where
  before := logCall 0 (.openPort (logArgs "P" [])) 1 ++ logCall 1 (.startLog (logArgs "P" [])) 1
  starter := 1
  env := logEnv
  port := "P"
  rx := ⟨0, 0⟩
  args := logArgs "P" []
  subscribed := _
  started := _
  during := [.createFile 0 true, .deliver 0 ⟨"t", [79, 75]⟩]
  stopper := 2
  cmd := .stopLog (logArgs "P" [])
  called := _
  after := [.advance 2 logEnv, .recv 0, .write 0 true, .observeCancel 0]
  closing := none
  log := ⟨"/tmp/commmon_P_20260101_000000.log", 0, none⟩
  waiting := _
  returned := _
  run_before := rfl
  register := rfl
  free := rfl
  start := rfl
  run_during := rfl
  run_after := rfl
  wait := rfl
  log_id := rfl
  return' := rfl
  undamaged := by decide +kernel

/-- Such a stop loses nothing. -/
theorem complete_iff_kept :
    keptEntry.written = [Logs.renderLine ⟨"t", [79, 75]⟩] := by
  have hcomplete := keptEntry.complete_iff.mpr (by decide +kernel)
  have hbroadcast : keptEntry.broadcast = [⟨"t", [79, 75]⟩] := rfl
  rw [hcomplete, hbroadcast]
  rfl

/-- A log that is stopped while an entry is pending. The task takes the branch of
its token at once. -/
def lostEntry : StoppedLog where
  before := logCall 0 (.openPort (logArgs "P" [])) 1 ++ logCall 1 (.startLog (logArgs "P" [])) 1
  starter := 1
  env := logEnv
  port := "P"
  rx := ⟨0, 0⟩
  args := logArgs "P" []
  subscribed := _
  started := _
  during := [.createFile 0 true, .deliver 0 ⟨"t", [79, 75]⟩]
  stopper := 2
  cmd := .stopLog (logArgs "P" [])
  called := _
  after := [.advance 2 logEnv, .observeCancel 0]
  closing := none
  log := ⟨"/tmp/commmon_P_20260101_000000.log", 0, none⟩
  waiting := _
  returned := _
  run_before := rfl
  register := rfl
  free := rfl
  start := rfl
  run_during := rfl
  run_after := rfl
  wait := rfl
  log_id := rfl
  return' := rfl
  undamaged := by decide +kernel

/-- A stopped log may lack an entry that was pending. -/
theorem not_always_complete :
    ¬ ∀ x : StoppedLog, x.written = x.broadcast.map Logs.renderLine := by
  intro hcomplete
  have hwritten : lostEntry.written = [] := rfl
  have hbroadcast : lostEntry.broadcast = [⟨"t", [79, 75]⟩] := rfl
  have heq := hcomplete lostEntry
  rw [hwritten, hbroadcast] at heq
  simp at heq

end Commmon

/-
# The notifications of a client

The serial manager broadcasts its notifications on one channel, which holds the
last 64 of them. Every client has a task that receives them one at a time and
writes each to the socket before it receives the next, so a stalled socket holds
the task up. Its loop goes on only while what it receives is a notification: the
answer that some were missed ends it, and the client gets no notification any
more while its connection stays open. The streaming task and the log task go on
after the same answer.

What is broadcast is what the log tasks and the timers announce.
-/

import Commmon.Daemon
import Commmon.LogStops

set_option autoImplicit false

namespace Commmon

open Broadcast

/-- Notifications that the channel keeps for a receiver. -/
def notifyCapacity : ℕ := 64

/-- Where a notify task stands. It writes under the lock of the socket. -/
inductive NotifyPc
  | receiving
  | writing (n : Notification)
  | ended

/-- A notify task: the position of its receiver and what it has written. -/
structure NotifyTask where
  next : ℕ
  pc : NotifyPc
  written : List Notification

namespace NotifyTask

def spawn (ch : Channel Notification) : NotifyTask := ⟨ch.subscribe, .receiving, []⟩

/-- `recv` waits for a notification. Any other answer ends the loop. -/
def recv (t : NotifyTask) (ch : Channel Notification) : Option NotifyTask :=
  match t.pc with
  | .receiving =>
      match ch.tryRecv t.next with
      | (.ok _ n, next) => some { t with next := next, pc := .writing n }
      | (.empty, _) => none
      | (_, next) => some { t with next := next, pc := .ended }
  | _ => none

/-- `write_all`. A failed write ends the loop. -/
def write (t : NotifyTask) (ok : Bool) : Option NotifyTask :=
  match t.pc with
  | .writing n =>
      if ok then some { t with pc := .receiving, written := t.written ++ [n] }
      else some { t with pc := .ended }
  | _ => none

def abort (t : NotifyTask) : NotifyTask := { t with pc := .ended }

def isEnded (t : NotifyTask) : Bool :=
  match t.pc with
  | .ended => true
  | _ => false

/-- What has been received and not written. -/
def inHand (t : NotifyTask) : List Notification :=
  match t.pc with
  | .writing n => [n]
  | _ => []

/-- The next receive answers that notifications were missed. -/
def behind (t : NotifyTask) (ch : Channel Notification) : Bool := decide (t.next < ch.oldest)

/-- The task is running, and misses nothing of what has been broadcast since
`start`: it has been written, is in hand, or is still to be received. -/
structure Follows (t : NotifyTask) (ch : Channel Notification) (start : ℕ) : Prop where
  running : t.isEnded = false
  start_le : start ≤ t.next
  next_le : t.next ≤ ch.tail
  complete : t.written ++ t.inHand ++ ch.sent.drop t.next = ch.sent.drop start

private theorem follows_spawn (ch : Channel Notification) : (spawn ch).Follows ch ch.tail :=
  ⟨rfl, le_rfl, le_rfl, by simp [spawn, inHand, Channel.subscribe]⟩

section

variable {t t' : NotifyTask} {ch ch' : Channel Notification} {start : ℕ}

/-- More is broadcast. -/
theorem Follows.sent (h : t.Follows ch start) (hsent : ch.sent <+: ch'.sent) :
    t.Follows ch' start := by
  obtain ⟨more, hmore⟩ := hsent
  have hnext : t.next ≤ ch.sent.length := h.next_le
  have hstart : start ≤ ch.sent.length := h.start_le.trans hnext
  refine ⟨h.running, h.start_le, ?_, ?_⟩
  · rw [Channel.tail, ← hmore, List.length_append]
    exact Nat.le_add_right_of_le hnext
  · rw [← hmore, List.drop_append_of_le_length hnext, List.drop_append_of_le_length hstart,
      ← List.append_assoc, h.complete]

/-- A receive that finds its notification. -/
theorem Follows.received (h : t.Follows ch start) (hheld : t.behind ch = false)
    (hopen : ch.isClosed = false) (hrecv : t.recv ch = some t') : t'.Follows ch start := by
  unfold recv at hrecv
  split at hrecv
  · rename_i hpc
    obtain ⟨n, hn, hold, hlt, htry⟩ | ⟨hlost, -⟩ | ⟨-, -, htry⟩ | ⟨-, hclosed, -⟩ :=
      ch.tryRecv_cases t.next
    · rw [htry] at hrecv
      obtain rfl := Option.some.inj hrecv
      refine ⟨rfl, Nat.le_succ_of_le h.start_le, hlt, ?_⟩
      have hcomplete := h.complete
      obtain ⟨hlength, rfl⟩ := List.getElem?_eq_some_iff.mp hn
      rw [List.drop_eq_getElem_cons hlength] at hcomplete
      simpa [inHand, hpc] using hcomplete
    · simp [behind, hlost] at hheld
    · simp [htry] at hrecv
    · simp [hopen] at hclosed
  · exact absurd hrecv (by simp)

theorem Follows.written (h : t.Follows ch start) (hwrite : t.write true = some t') :
    t'.Follows ch start := by
  unfold write at hwrite
  split at hwrite
  · rename_i n hpc
    obtain rfl := Option.some.inj hwrite
    have hcomplete := h.complete
    refine ⟨rfl, h.start_le, h.next_le, ?_⟩
    simpa [inHand, hpc] using hcomplete
  · exact absurd hwrite (by simp)

/-- A notification that is there is received and written. -/
theorem round (hpc : t.pc = .receiving) (hlt : t.next < ch.tail) (hheld : t.behind ch = false) :
    ∃ t₁ t₂ : NotifyTask, t.recv ch = some t₁ ∧ t₁.write true = some t₂ ∧ t₂.pc = .receiving ∧
      t₂.next = t.next + 1 := by
  have hold : ¬ t.next < ch.oldest := by simpa [behind] using hheld
  have hn : ch.sent[t.next]? = some ch.sent[t.next] := List.getElem?_eq_getElem hlt
  refine ⟨{ t with next := t.next + 1, pc := .writing ch.sent[t.next] }, _, ?_, rfl, rfl, rfl⟩
  simp [recv, hpc, Channel.tryRecv, hn, hold]

/-- To fall behind ends the task. -/
theorem isEnded_of_behind (hbehind : t.behind ch = true) (hrecv : t.recv ch = some t') :
    t'.isEnded = true := by
  have hlost : t.next < ch.oldest := by simpa [behind] using hbehind
  unfold recv at hrecv
  split at hrecv
  · obtain ⟨n, -, hold, -, -⟩ | ⟨-, htry⟩ | ⟨hread, -, -⟩ | ⟨hread, -, -⟩ :=
      ch.tryRecv_cases t.next
    · exact absurd hlost (Nat.not_lt.mpr hold)
    · rw [htry] at hrecv
      exact Option.some.inj hrecv ▸ rfl
    · exact absurd (hlost.trans_le (Nat.sub_le _ _)) (Nat.not_lt.mpr hread)
    · exact absurd (hlost.trans_le (Nat.sub_le _ _)) (Nat.not_lt.mpr hread)
  · exact absurd hrecv (by simp)

theorem recv_of_isEnded (h : t.isEnded = true) : t.recv ch = none := by
  unfold recv isEnded at *
  split at h <;> simp_all

theorem write_of_isEnded {ok : Bool} (h : t.isEnded = true) : t.write ok = none := by
  unfold write isEnded at *
  split at h <;> simp_all

end

end NotifyTask

/-- A connection, as far as notifications go. -/
structure NoticeClient where
  connected : Bool
  task : NotifyTask

structure NoticeWorld where
  manager : LogWorld
  clients : ClientId → Option NoticeClient

inductive NoticeEvent
  | manager (e : LogEvent)
  | connect (c : ClientId)
  | recv (c : ClientId)
  | write (c : ClientId) (ok : Bool)
  | disconnect (c : ClientId)

namespace NoticeWorld

/-- Everything that has been broadcast. -/
def notices (w : NoticeWorld) : List Notification :=
  w.manager.logs.notified.map LogStopped.notification

/-- The manager keeps a sender. -/
def channel (w : NoticeWorld) : Channel Notification := ⟨notifyCapacity, w.notices, 1⟩

def setClient (w : NoticeWorld) (c : ClientId) (cl : NoticeClient) : NoticeWorld :=
  { w with clients := Function.update w.clients c (some cl) }

/-- A step of the notify task of a client. -/
def stepTask (w : NoticeWorld) (c : ClientId) (f : NotifyTask → Option NotifyTask) :
    Option NoticeWorld :=
  match w.clients c with
  | some cl => (f cl.task).map fun t => w.setClient c { cl with task := t }
  | none => none

def step (w : NoticeWorld) : NoticeEvent → Option NoticeWorld
  | .manager e => (w.manager.step e).map fun m => { w with manager := m }
  | .connect c =>
      match w.clients c with
      | some _ => none
      | none => some (w.setClient c ⟨true, .spawn w.channel⟩)
  | .recv c => w.stepTask c fun t => t.recv w.channel
  | .write c ok => w.stepTask c fun t => t.write ok
  | .disconnect c =>
      match w.clients c with
      | some cl =>
          if cl.connected then some (w.setClient c ⟨false, cl.task.abort⟩) else none
      | none => none

/-- The task of `c` is about to be told that it missed notifications. -/
def lags (c : ClientId) (w : NoticeWorld) : NoticeEvent → Bool
  | .recv d => d = c && (w.clients c).any fun cl => cl.task.behind w.channel
  | _ => false

end NoticeWorld

/-- All runs of the notify tasks beside the serial manager. -/
def noticing : StepSystem NoticeWorld NoticeEvent where
  init := ⟨logging.init, fun _ => none⟩
  step := NoticeWorld.step

namespace NoticeWorld

/-- What a step is for a client. -/
inductive Seen (c : ClientId) (w w' : NoticeWorld) (e : NoticeEvent) : Prop
  | elsewhere (hsame : w'.clients c = w.clients c)
  | connected (he : e = .connect c) (hnew : w.clients c = none)
  | received (cl : NoticeClient) (t : NotifyTask) (he : e = .recv c)
      (hcl : w.clients c = some cl) (hrecv : cl.task.recv w.channel = some t)
      (hcl' : w'.clients c = some { cl with task := t }) (hnotices : w'.notices = w.notices)
  | wrote (cl : NoticeClient) (t : NotifyTask) (ok : Bool) (he : e = .write c ok)
      (hcl : w.clients c = some cl) (hwrite : cl.task.write ok = some t)
      (hcl' : w'.clients c = some { cl with task := t }) (hnotices : w'.notices = w.notices)
  | left (cl : NoticeClient) (he : e = .disconnect c) (hcl : w.clients c = some cl)
      (hcl' : w'.clients c = some ⟨false, cl.task.abort⟩)

private theorem stepTask_eq_some {w w' : NoticeWorld} {c : ClientId}
    {f : NotifyTask → Option NotifyTask} (h : w.stepTask c f = some w') :
    ∃ cl t, w.clients c = some cl ∧ f cl.task = some t ∧
      w' = w.setClient c { cl with task := t } := by
  unfold stepTask at h
  split at h
  · rename_i cl hcl
    obtain ⟨t, ht, rfl⟩ := Option.map_eq_some_iff.mp h
    exact ⟨cl, t, hcl, ht, rfl⟩
  · exact absurd h (by simp)

private theorem step_recv {w w' : NoticeWorld} {c : ClientId}
    (hstep : noticing.step w (.recv c) = some w') :
    ∃ cl t, w.clients c = some cl ∧ cl.task.recv w.channel = some t ∧
      w' = w.setClient c { cl with task := t } :=
  stepTask_eq_some (f := fun t => t.recv w.channel) hstep

private theorem step_write {w w' : NoticeWorld} {c : ClientId} {ok : Bool}
    (hstep : noticing.step w (.write c ok) = some w') :
    ∃ cl t, w.clients c = some cl ∧ cl.task.write ok = some t ∧
      w' = w.setClient c { cl with task := t } :=
  stepTask_eq_some (f := fun t => t.write ok) hstep

private theorem clients_setClient_of_ne {w : NoticeWorld} {c d : ClientId} {cl : NoticeClient}
    (h : c ≠ d) : (w.setClient d cl).clients c = w.clients c := by
  simp only [setClient, Function.update_of_ne h]

@[simp]
theorem clients_setClient (w : NoticeWorld) (c : ClientId) (cl : NoticeClient) :
    (w.setClient c cl).clients c = some cl := by
  simp only [setClient, Function.update_self]

theorem step_seen {w w' : NoticeWorld} {e : NoticeEvent} (hstep : noticing.step w e = some w')
    (c : ClientId) : Seen c w w' e := by
  cases e with
  | manager e =>
      obtain ⟨m, -, rfl⟩ := Option.map_eq_some_iff.mp hstep
      exact .elsewhere rfl
  | connect d =>
      simp only [noticing, step] at hstep
      split at hstep
      · exact absurd hstep (by simp)
      · rename_i hnew
        obtain rfl := Option.some.inj hstep
        by_cases hc : c = d
        · exact .connected (hc ▸ rfl) (hc ▸ hnew)
        · exact .elsewhere (clients_setClient_of_ne hc)
  | recv d =>
      obtain ⟨cl, t, hcl, hrecv, rfl⟩ := step_recv hstep
      by_cases hc : c = d
      · subst hc
        exact .received cl t rfl hcl hrecv (clients_setClient _ _ _) rfl
      · exact .elsewhere (clients_setClient_of_ne hc)
  | write d ok =>
      obtain ⟨cl, t, hcl, hwrite, rfl⟩ := step_write hstep
      by_cases hc : c = d
      · subst hc
        exact .wrote cl t ok rfl hcl hwrite (clients_setClient _ _ _) rfl
      · exact .elsewhere (clients_setClient_of_ne hc)
  | disconnect d =>
      simp only [noticing, step] at hstep
      split at hstep
      · rename_i cl hcl
        split_ifs at hstep
        obtain rfl := Option.some.inj hstep
        by_cases hc : c = d
        · subst hc
          exact .left cl rfl hcl (clients_setClient _ _ _)
        · exact .elsewhere (clients_setClient_of_ne hc)
      · exact absurd hstep (by simp)

/-- Nothing that has been broadcast is taken back. -/
theorem notices_grow {w w' : NoticeWorld} {e : NoticeEvent}
    (hstep : noticing.step w e = some w') : w.notices <+: w'.notices := by
  cases e with
  | manager e =>
      obtain ⟨m, hm, rfl⟩ := Option.map_eq_some_iff.mp hstep
      obtain ⟨hsame, -⟩ | ⟨_, _, _, _, _, -, -, -, hx, -⟩ | ⟨_, _, -, -, hx, -⟩ :=
        (LogWorld.step_steps hm).notified
      · rw [notices, notices, hsame]
      · rw [notices, notices, hx, List.map_append]
        exact List.prefix_append _ _
      · rw [notices, notices, hx, List.map_append]
        exact List.prefix_append _ _
  | connect d =>
      simp only [noticing, step] at hstep
      split at hstep
      · exact absurd hstep (by simp)
      · exact Option.some.inj hstep ▸ List.prefix_rfl
  | recv d =>
      obtain ⟨cl, t, -, -, rfl⟩ := step_recv hstep
      exact List.prefix_rfl
  | write d ok =>
      obtain ⟨cl, t, -, -, rfl⟩ := step_write hstep
      exact List.prefix_rfl
  | disconnect d =>
      simp only [noticing, step] at hstep
      split at hstep
      · split_ifs at hstep
        exact Option.some.inj hstep ▸ List.prefix_rfl
      · exact absurd hstep (by simp)

/-- As long as the client is there and is not cut off, its task follows. -/
def Following (c : ClientId) (start : ℕ) (w : NoticeWorld) : Prop :=
  ∃ cl, w.clients c = some cl ∧ (cl.connected = true → cl.task.Follows w.channel start)

variable {c : ClientId} {start : ℕ} {w w' : NoticeWorld} {e : NoticeEvent}

theorem Following.step (h : w.Following c start) (hstep : noticing.step w e = some w')
    (hkept : w.lags c e = false) (hwrites : e ≠ .write c false) : w'.Following c start := by
  obtain ⟨cl, hcl, hfollows⟩ := h
  cases step_seen hstep c with
  | elsewhere hsame =>
      exact ⟨cl, hsame.trans hcl, fun hc => (hfollows hc).sent (notices_grow hstep)⟩
  | connected he hnew => exact absurd (hcl.symm.trans hnew) (by simp)
  | received cl₀ t he hcl₀ hrecv hcl' hnotices =>
      obtain rfl := Option.some.inj (hcl.symm.trans hcl₀)
      subst he
      have hheld : cl.task.behind w.channel = false := by simpa [lags, hcl] using hkept
      refine ⟨_, hcl', fun hc => ?_⟩
      rw [channel, hnotices]
      exact (hfollows hc).received hheld rfl hrecv
  | wrote cl₀ t ok he hcl₀ hwrite hcl' hnotices =>
      obtain rfl := Option.some.inj (hcl.symm.trans hcl₀)
      subst he
      cases ok with
      | false => exact absurd rfl hwrites
      | true =>
          refine ⟨_, hcl', fun hc => ?_⟩
          rw [channel, hnotices]
          exact (hfollows hc).written hwrite
  | left cl₀ he hcl₀ hcl' => exact ⟨_, hcl', fun hc => absurd hc (by simp)⟩

/-- A task that has ended does not start again. -/
def Silent (c : ClientId) (w : NoticeWorld) : Prop :=
  ∃ cl, w.clients c = some cl ∧ cl.task.isEnded = true

theorem Silent.step (h : w.Silent c) (hstep : noticing.step w e = some w') : w'.Silent c := by
  obtain ⟨cl, hcl, hended⟩ := h
  cases step_seen hstep c with
  | elsewhere hsame => exact ⟨cl, hsame.trans hcl, hended⟩
  | connected he hnew => exact absurd (hcl.symm.trans hnew) (by simp)
  | received cl₀ t he hcl₀ hrecv hcl' hnotices =>
      obtain rfl := Option.some.inj (hcl.symm.trans hcl₀)
      simp [NotifyTask.recv_of_isEnded hended] at hrecv
  | wrote cl₀ t ok he hcl₀ hwrite hcl' hnotices =>
      obtain rfl := Option.some.inj (hcl.symm.trans hcl₀)
      simp [NotifyTask.write_of_isEnded hended] at hwrite
  | left cl₀ he hcl₀ hcl' => exact ⟨_, hcl', rfl⟩

private theorem silent_of_lags (hstep : noticing.step w e = some w') (hlags : w.lags c e = true) :
    w'.Silent c := by
  cases e with
  | recv d =>
      simp only [lags, Bool.and_eq_true, decide_eq_true_eq, Option.any_eq_true] at hlags
      obtain ⟨rfl, cl, hcl, hbehind⟩ := hlags
      obtain ⟨cl₀, t, hcl₀, hrecv, rfl⟩ := step_recv hstep
      obtain rfl := Option.some.inj (hcl.symm.trans hcl₀)
      exact ⟨_, clients_setClient _ _ _, NotifyTask.isEnded_of_behind hbehind hrecv⟩
  | _ => simp [lags] at hlags

/-- A task that still runs has never been told that it missed something. -/
theorem along_of_running {es : List NoticeEvent} (hrun : noticing.runFrom w es = some w')
    (hrunning : ¬ w'.Silent c) : noticing.Along (fun w e _ => w.lags c e = false) w es := by
  induction es generalizing w with
  | nil => trivial
  | cons e es ih =>
      obtain ⟨m, hm, hrest⟩ := noticing.runFrom_cons_eq_some.mp hrun
      intro t ht
      obtain rfl := Option.some.inj (hm.symm.trans ht)
      refine ⟨?_, ih hrest⟩
      by_contra hlags
      have hsilent := silent_of_lags hm (by simpa using hlags)
      exact hrunning (noticing.runFrom_invariant (P := fun w => w.Silent c)
        (fun _ _ _ h hstep => h.step hstep) hsilent hrest)

/-- A step of the client's own task that succeeds. -/
def IsOwn (c : ClientId) (e : NoticeEvent) : Prop := e = .recv c ∨ e = .write c true

/-- By its own steps the task can write all that has been broadcast. -/
def CatchesUp (c : ClientId) (start : ℕ) (w : NoticeWorld) : Prop :=
  ∃ steps w' cl, (∀ e ∈ steps, IsOwn c e) ∧ noticing.runFrom w steps = some w' ∧
    w'.clients c = some cl ∧ cl.task.written = w.notices.drop start

theorem CatchesUp.after (h : w'.CatchesUp c start) (hown : IsOwn c e)
    (hstep : noticing.step w e = some w') (hnotices : w'.notices = w.notices) :
    w.CatchesUp c start := by
  obtain ⟨steps, v, cl, hsteps, hrun, hcl, hwritten⟩ := h
  refine ⟨e :: steps, v, cl, ?_, ?_, hcl, hnotices ▸ hwritten⟩
  · exact List.forall_mem_cons.mpr ⟨hown, hsteps⟩
  · exact noticing.runFrom_cons_eq_some.mpr ⟨w', hstep, hrun⟩

private theorem step_of_recv {cl : NoticeClient} {t : NotifyTask} (hcl : w.clients c = some cl)
    (hrecv : cl.task.recv w.channel = some t) :
    noticing.step w (.recv c) = some (w.setClient c { cl with task := t }) := by
  simp [noticing, step, stepTask, hcl, hrecv]

private theorem step_of_write {cl : NoticeClient} {t : NotifyTask} (hcl : w.clients c = some cl)
    (hwrite : cl.task.write true = some t) :
    noticing.step w (.write c true) = some (w.setClient c { cl with task := t }) := by
  simp [noticing, step, stepTask, hcl, hwrite]

/-- Every round writes one of the notifications that are left. -/
theorem catchesUp_receiving {unread : ℕ} {cl : NoticeClient} (hcl : w.clients c = some cl)
    (hpc : cl.task.pc = .receiving) (hunread : w.channel.tail - cl.task.next = unread)
    (hfollows : cl.task.Follows w.channel start) (hheld : cl.task.behind w.channel = false) :
    w.CatchesUp c start := by
  induction unread generalizing w cl with
  | zero =>
      have hread : w.channel.sent.drop cl.task.next = [] :=
        List.drop_eq_nil_of_le (Nat.sub_eq_zero_iff_le.mp hunread)
      have hcomplete := hfollows.complete
      rw [NotifyTask.inHand, hpc, hread, List.append_nil, List.append_nil] at hcomplete
      exact ⟨[], w, cl, by simp, rfl, hcl, hcomplete⟩
  | succ k ih =>
      have hlt : cl.task.next < w.channel.tail := by omega
      obtain ⟨t₁, t₂, hrecv, hwrite, hpc', hnext⟩ := NotifyTask.round hpc hlt hheld
      have hfollows₁ := hfollows.received hheld rfl hrecv
      refine CatchesUp.after ?_ (Or.inl rfl) (step_of_recv hcl hrecv) rfl
      refine CatchesUp.after ?_ (Or.inr rfl) (step_of_write (clients_setClient _ _ _) hwrite) rfl
      refine ih (clients_setClient _ _ _) hpc' ?_ (hfollows₁.written hwrite) ?_
      · rw [hnext]
        change w.channel.tail - (cl.task.next + 1) = k
        omega
      · have hold : w.channel.oldest ≤ cl.task.next := by
          simpa [NotifyTask.behind] using hheld
        rw [NotifyTask.behind, hnext, decide_eq_false_iff_not, Nat.not_lt]
        exact Nat.le_succ_of_le hold

/-- A task that follows and is not behind can write everything. -/
theorem catchesUp {cl : NoticeClient} (hcl : w.clients c = some cl)
    (hfollows : cl.task.Follows w.channel start) (hheld : cl.task.behind w.channel = false) :
    w.CatchesUp c start := by
  cases hpc : cl.task.pc with
  | receiving => exact catchesUp_receiving hcl hpc rfl hfollows hheld
  | writing n =>
      have hwrite : cl.task.write true = some { cl.task with
          pc := .receiving, written := cl.task.written ++ [n] } := by
        simp [NotifyTask.write, hpc]
      refine CatchesUp.after ?_ (Or.inr rfl) (step_of_write hcl hwrite) rfl
      exact catchesUp_receiving (clients_setClient _ _ _) rfl rfl (hfollows.written hwrite) hheld
  | ended =>
      have hrunning := hfollows.running
      simp [NotifyTask.isEnded, hpc] at hrunning

end NoticeWorld

/-- When a client's notifications go on. While a connection is open and no
write of its notify task has failed, the task runs, has missed nothing that was
broadcast since the client connected, and can catch up by its own steps unless
it is behind, exactly when none of its receives met a gap. -/
theorem notices_followed_iff {c : ClientId} {after : List NoticeEvent} {w₀ w₁ w : NoticeWorld}
    {cl : NoticeClient} (hconnect : noticing.step w₀ (.connect c) = some w₁)
    (hafter : noticing.runFrom w₁ after = some w) (hcl : w.clients c = some cl)
    (hopen : cl.connected = true) (hwrites : .write c false ∉ after) :
    (cl.task.Follows w.channel w₀.notices.length ∧
      (cl.task.behind w.channel = false → w.CatchesUp c w₀.notices.length)) ↔
    noticing.Along (fun w e _ => w.lags c e = false) w₁ after := by
  constructor
  · rintro ⟨hfollows, -⟩
    apply NoticeWorld.along_of_running hafter
    rintro ⟨cl', hcl', hended⟩
    obtain rfl := Option.some.inj (hcl.symm.trans hcl')
    exact absurd (hended.symm.trans hfollows.running) (by simp)
  · intro halong
    have hstart : w₁.Following c w₀.notices.length := by
      simp only [noticing, NoticeWorld.step] at hconnect
      split at hconnect
      · exact absurd hconnect (by simp)
      · obtain rfl := Option.some.inj hconnect
        exact ⟨_, NoticeWorld.clients_setClient _ _ _, fun _ =>
          NotifyTask.follows_spawn w₀.channel⟩
    obtain ⟨cl', hcl', hfollows⟩ := noticing.runFrom_invariant_along
      (P := fun w => w.Following c w₀.notices.length) (A := fun e => e ≠ .write c false)
      (Q := fun w e _ => w.lags c e = false)
      (fun w e w' hne hkept h hstep => h.step hstep hkept hne)
      (fun e he hfailed => hwrites (hfailed ▸ he)) halong hstart hafter
    obtain rfl := Option.some.inj (hcl.symm.trans hcl')
    exact ⟨hfollows hopen, NoticeWorld.catchesUp hcl (hfollows hopen)⟩

/-- A port with a log. -/
def loggedPort : List NoticeEvent :=
  (logCall 0 (.openPort (logArgs "P" [])) 1 ++ logCall 1 (.startLog (logArgs "P" [])) 2).map
    .manager

/-- The log gets a new timer, number `t`, which expires at once. -/
def restarted (t : TimerId) : List NoticeEvent :=
  (logCall (t + 2) (.updateLog (logArgs "P" [("duration", .number (.posInt 0))])) 1 ++
    [LogEvent.expire t]).map .manager

/-- The task writes one notification. -/
def oneNotice : List NoticeEvent := restarted 0 ++ [.recv 0, .write 0 true]

/-- The theorem for one notification. -/
theorem notices_followed_once : ∃ (w₀ w : NoticeWorld) (cl : NoticeClient),
    noticing.run loggedPort = some w₀ ∧ w.clients 0 = some cl ∧ cl.task.written.length = 1 ∧
    cl.task.Follows w.channel w₀.notices.length := by
  have hrun : (noticing.run loggedPort).any (fun w₀ =>
      (noticing.step w₀ (.connect 0)).any fun w₁ =>
        decide (noticing.Along (fun w e _ => w.lags 0 e = false) w₁ oneNotice) &&
          (noticing.runFrom w₁ oneNotice).any fun w => (w.clients 0).any fun cl =>
            cl.connected && cl.task.written.length == 1) = true := by
    decide +kernel
  simp only [Option.any_eq_true, Bool.and_eq_true, decide_eq_true_eq, beq_iff_eq] at hrun
  obtain ⟨w₀, hw₀, w₁, hconnect, halong, w, hw, cl, hcl, hopen, hlength⟩ := hrun
  have hwrites : NoticeEvent.write 0 false ∉ oneNotice := by
    simp [oneNotice, restarted, logCall]
  exact ⟨w₀, w, cl, hw₀, hcl, hlength,
    ((notices_followed_iff hconnect hw hcl hopen hwrites).mpr halong).1⟩

/-- More notifications than the channel holds, and then a receive. -/
def manyNotices : List NoticeEvent :=
  (List.range 65).flatMap restarted ++ [.recv 0]

private theorem manyNotices_end : (noticing.run loggedPort).any (fun w₀ =>
    (noticing.step w₀ (.connect 0)).any fun w₁ =>
      (noticing.runFrom w₁ manyNotices).any fun w => (w.clients 0).any fun cl =>
        cl.connected && cl.task.isEnded) = true := by
  decide +kernel

/-- A notify task can end while its connection is open and no write has failed. -/
theorem notices_not_always_followed :
    ¬ ∀ (c : ClientId) (before after : List NoticeEvent) (w₀ w₁ w : NoticeWorld)
      (cl : NoticeClient), noticing.run before = some w₀ →
      noticing.step w₀ (.connect c) = some w₁ → noticing.runFrom w₁ after = some w →
      w.clients c = some cl → cl.connected = true → .write c false ∉ after →
        cl.task.isEnded = false := by
  intro hfollowed
  have hrun := manyNotices_end
  simp only [Option.any_eq_true, Bool.and_eq_true] at hrun
  obtain ⟨w₀, hw₀, w₁, hconnect, w, hw, cl, hcl, hopen, hended⟩ := hrun
  have hwrites : NoticeEvent.write 0 false ∉ manyNotices := by
    simp [manyNotices, restarted, logCall]
  exact absurd (hended.symm.trans (hfollowed 0 _ _ w₀ w₁ w cl hw₀ hconnect hw hcl hopen hwrites))
    (by simp)

end Commmon

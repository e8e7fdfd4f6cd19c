/-
# The window of a subscription

A subscription of a port starts where its receiver is made, at the tail of the
channel, and ends where the streaming task takes another command for the port or
drops the receiver of a closed channel. As long as the receiver does not fall
behind and no write fails, what has been pushed is a beginning of what has
arrived since the start. A closed channel is noticed only when everything on it
has been read, and nothing arrives on it any more, so a subscription that ends
that way has pushed all of it.
-/

import Commmon.Pushes
import Commmon.Streaming

set_option autoImplicit false

namespace Commmon

open Broadcast

namespace SerialManager

/-- Every channel that a read task broadcasts on has a sender. -/
def Attended (m : SerialManager) : Prop :=
  ∀ k, m.readTasks k ≠ .ended → (m.channels k).isClosed = false

private theorem isClosed_eq_false_iff {m : SerialManager} {k : ChannelId} :
    (m.channels k).isClosed = false ↔ 0 < (m.channels k).senders := by
  rw [Channel.isClosed, beq_eq_false_iff_ne, Nat.pos_iff_ne_zero]

theorem Changes.attended {m m' : SerialManager} (h : Changes m m') (hsound : m.Sound)
    (hm : m.Attended) : m'.Attended := by
  intro k hk
  cases h with
  | same => exact hm k hk
  | opened port config hclosed =>
      by_cases hfresh : k = m.fresh
      · simp [insertPort, hfresh, Channel.isClosed, Channel.cloneSender]
      · simp only [insertPort, Function.update_of_ne hfresh] at hk ⊢
        exact hm k hk
  | closed port op hopen =>
      by_cases htx : k = op.tx
      · subst htx
        simp only [removePort, Function.update_self] at hk
        have hlive : m.readTasks op.tx ≠ .ended := by
          intro hended
          simp [hended] at hk
        have hsenders := hsound.senders port op hopen
        rw [if_neg hlive] at hsenders
        rw [isClosed_eq_false_iff]
        simp only [removePort, Function.update_self, Channel.dropSender]
        omega
      · simp only [removePort, Function.update_of_ne htx] at hk ⊢
        exact hm k hk
  | delivered k' entry =>
      by_cases hk' : k = k'
      · subst hk'
        simpa [Channel.isClosed, Channel.send] using hm k hk
      · simpa [hk'] using hm k hk
  | ended k' hlive =>
      by_cases hk' : k = k'
      · simp [hk'] at hk
      · simp only [Function.update_of_ne hk'] at hk ⊢
        exact hm k hk

private theorem attended_of_run {es : List Event} {w : World} (hrun : daemon.run es = some w) :
    w.serial.Attended := by
  refine daemon.run_history (P := fun _ w => w.serial.Attended) ?_ ?_ hrun
  · intro k hk
    simp [daemon, new] at hk
  · intro es w e w' hes ih hstep
    exact (World.step_seen hstep 0).changes.attended (sound_of_run hes) ih

/-- What a step leaves of a closed channel: all of it. -/
def KeepsClosed (m m' : SerialManager) : Prop :=
  ∀ k, k < m.fresh → (m.channels k).isClosed = true →
    (m'.channels k).sent = (m.channels k).sent ∧ (m'.channels k).isClosed = true

private theorem keepsClosed_refl (m : SerialManager) : m.KeepsClosed m :=
  fun _ _ hclosed => ⟨rfl, hclosed⟩

private theorem isClosed_dropSender {α : Type} {ch : Channel α} (h : ch.isClosed = true) :
    ch.dropSender.isClosed = true := by
  rw [Channel.isClosed, beq_iff_eq] at h ⊢
  rw [Channel.dropSender, h]

private theorem keepsClosed_insertPort (m : SerialManager) (port : String) (config : PortConfig) :
    m.KeepsClosed (m.insertPort port config) := by
  intro k hk hclosed
  simp only [insertPort, Function.update_of_ne (Nat.ne_of_lt hk)]
  exact ⟨trivial, hclosed⟩

private theorem keepsClosed_removePort (m : SerialManager) (port : String) (op : OpenPort) :
    m.KeepsClosed (m.removePort port op) := by
  intro k hk hclosed
  by_cases htx : k = op.tx
  · subst htx
    simp only [removePort, Function.update_self]
    exact ⟨rfl, isClosed_dropSender hclosed⟩
  · simp only [removePort, Function.update_of_ne htx]
    exact ⟨trivial, hclosed⟩

private theorem keepsClosed_endReadTask {m m' : SerialManager} {k' : ChannelId}
    (h : m.endReadTask k' = some m') : m.KeepsClosed m' := by
  unfold endReadTask at h
  split_ifs at h
  obtain rfl := Option.some.inj h
  intro k hk hclosed
  by_cases hk' : k = k'
  · subst hk'
    simp only [Function.update_self]
    exact ⟨rfl, isClosed_dropSender hclosed⟩
  · simp only [Function.update_of_ne hk']
    exact ⟨trivial, hclosed⟩

/-- A read task that could broadcast on the channel would keep it open. -/
theorem keepsClosed_deliver {m m' : SerialManager} {k' : ChannelId} {entry : RxEntry}
    (h : m.deliver k' entry = some m') (hm : m.Attended) : m.KeepsClosed m' := by
  unfold deliver at h
  split_ifs at h with hlive
  obtain rfl := Option.some.inj h
  intro k hk hclosed
  have hne : k ≠ k' := by
    rintro rfl
    exact absurd (hclosed.symm.trans (hm k hlive.1)) (by simp)
  simp only [Function.update_of_ne hne]
  exact ⟨trivial, hclosed⟩

end SerialManager

private theorem Dispatch.Begins.keepsClosed {m m' : SerialManager} {s s' : ClientSession}
    {req : Request} {pc : Pc} (h : Begins m s req m' s' pc) : m.KeepsClosed m' := by
  cases h with
  | opened port resp hcmd hport hclosed hok => exact m.keepsClosed_insertPort _ _
  | closed port op resp hcmd hport hopen hok => exact m.keepsClosed_removePort _ _
  | _ => exact m.keepsClosed_refl

private theorem Client.Steps.keepsClosed {m m' : SerialManager} {cl cl' : Client} {ce : ClientEvent}
    (h : Steps m cl ce m' cl') : m.KeepsClosed m' := by
  cases h with
  | began req env m' s' pc hidle hbegins => exact hbegins.keepsClosed
  | advanced req pc cl' hpc hadvances => exact m.keepsClosed_refl
  | streamed order writeOk task queue lines hrunning hmoves => exact m.keepsClosed_refl

/-- Nothing arrives on a closed channel. -/
theorem keepsClosed_of_step {es : List Event} {w w' : World} {e : Event}
    (hrun : daemon.run es = some w) (hstep : daemon.step w e = some w') :
    w.serial.KeepsClosed w'.serial := by
  cases e with
  | deliver k entry =>
      obtain ⟨m, hm, rfl⟩ := Option.map_eq_some_iff.mp hstep
      exact SerialManager.keepsClosed_deliver hm (SerialManager.attended_of_run hrun)
  | endReadTask k =>
      obtain ⟨m, hm, rfl⟩ := Option.map_eq_some_iff.mp hstep
      exact SerialManager.keepsClosed_endReadTask hm
  | connect c =>
      simp only [daemon, World.step] at hstep
      split at hstep
      · exact absurd hstep (by simp)
      · exact Option.some.inj hstep ▸ w.serial.keepsClosed_refl
  | disconnect c =>
      simp only [daemon, World.step] at hstep
      split at hstep
      · split_ifs at hstep
        exact Option.some.inj hstep ▸ w.serial.keepsClosed_refl
      · exact absurd hstep (by simp)
  | client c ce =>
      simp only [daemon, World.step] at hstep
      split at hstep
      · split_ifs at hstep
        obtain ⟨r, hr, rfl⟩ := Option.map_eq_some_iff.mp hstep
        exact (Client.step_steps hr).keepsClosed
      · exact absurd hstep (by simp)

namespace SerialManager

/-- What has been broadcast on a channel from a position on. -/
def window (m : SerialManager) (k : ChannelId) (start : ℕ) : List Arrival :=
  ((m.channels k).unread start).map fun x => ⟨k, x.2, x.1⟩

@[simp]
theorem length_window (m : SerialManager) (k : ChannelId) (start : ℕ) :
    (m.window k start).length = (m.channels k).tail - start := by
  simp [window]

private theorem window_succ {m : SerialManager} {k : ChannelId} {start next : ℕ} {entry : RxEntry}
    (hstart : start ≤ next) (hentry : (m.channels k).sent[next]? = some entry) :
    (m.window k start).take (next + 1 - start) =
      (m.window k start).take (next - start) ++ [⟨k, next, entry⟩] := by
  have hget : (m.window k start)[next - start]? = some ⟨k, next, entry⟩ := by
    have hnext : start + (next - start) = next := by omega
    simp [window, Channel.unread, List.getElem?_zipIdx, hnext, hentry]
  rw [Nat.succ_sub hstart, List.take_add_one, hget]
  rfl

/-- A window only grows. -/
theorem Later.window_prefix {m m' : SerialManager} (h : Later m m') {k : ChannelId}
    (hk : k < m.fresh) {start : ℕ} (hstart : start ≤ (m.channels k).tail) :
    m.window k start <+: m'.window k start := by
  obtain ⟨more, hmore⟩ := h.sent_prefix k hk
  rw [window, window, Channel.unread, Channel.unread, ← hmore,
    List.drop_append_of_le_length hstart, List.zipIdx_append, List.map_append]
  exact List.prefix_append _ _

private theorem Later.take_window {m m' : SerialManager} (h : Later m m') {k : ChannelId}
    (hk : k < m.fresh) {start next : ℕ} (hstart : start ≤ next)
    (hnext : next ≤ (m.channels k).tail) :
    (m'.window k start).take (next - start) = (m.window k start).take (next - start) := by
  obtain ⟨more, hmore⟩ := h.window_prefix hk (hstart.trans hnext)
  rw [← hmore, List.take_append_of_le_length]
  rw [length_window]
  omega

/-- What has arrived on a channel since an earlier state. -/
def arrivedSince (m₀ m : SerialManager) (k : ChannelId) : List Arrival :=
  m.window k (m₀.channels k).tail

end SerialManager

/-- What has been pushed in a subscription whose receiver was made at `start`, and
where its receiver is. It reads on, or it has been dropped after everything has
been read. -/
inductive RxState.Streams (m : SerialManager) (k : ChannelId) (start : ℕ) (pushed : List Arrival) :
    RxState → Prop
  | live (next : ℕ) (inHand : List Arrival) (noticed : Bool) (hstart : start ≤ next)
      (hnext : next ≤ (m.channels k).tail)
      (hpushed : pushed ++ inHand = (m.window k start).take (next - start))
      (hnoticed : noticed = true →
        inHand = [] ∧ next = (m.channels k).tail ∧ (m.channels k).isClosed = true) :
      Streams m k start pushed ⟨some ⟨k, next⟩, inHand, noticed⟩
  | closed (hpushed : pushed = m.window k start) (hclosed : (m.channels k).isClosed = true) :
      Streams m k start pushed ⟨none, [], false⟩

namespace RxState.Streams

variable {m m' : SerialManager} {k : ChannelId} {start : ℕ} {pushed : List Arrival} {v v' : RxState}

/-- What has been pushed is a beginning of the window. -/
theorem isPrefix (h : v.Streams m k start pushed) : pushed <+: m.window k start := by
  cases h with
  | live next inHand noticed hstart hnext hpushed hnoticed =>
      exact (List.prefix_append pushed inHand).trans (hpushed ▸ List.take_prefix _ _)
  | closed hpushed hclosed => exact hpushed ▸ List.prefix_rfl

/-- A subscription that has ended has pushed its whole window. -/
theorem complete (h : v.Streams m k start pushed) (hended : v.noticed = true ∨ v.slot = none) :
    pushed = m.window k start := by
  cases h with
  | live next inHand noticed hstart hnext hpushed hnoticed =>
      obtain ⟨rfl, rfl, -⟩ := hnoticed (hended.resolve_right (by simp))
      rw [List.append_nil, ← m.length_window, List.take_length] at hpushed
      exact hpushed
  | closed hpushed hclosed => exact hpushed

/-- Steps elsewhere. -/
theorem changes (h : v.Streams m k start pushed) (hk : k < m.fresh)
    (hlater : SerialManager.Later m m')
    (hkeeps : m.KeepsClosed m') : v.Streams m' k start pushed := by
  cases h with
  | live next inHand noticed hstart' hnext hpushed hnoticed =>
      refine .live next inHand noticed hstart' (hnext.trans (hlater.tail_le hk)) ?_ ?_
      · rw [hlater.take_window hk hstart' hnext, hpushed]
      · intro hn
        obtain ⟨hhand, hread, hclosed⟩ := hnoticed hn
        obtain ⟨hsent, hclosed'⟩ := hkeeps k hk hclosed
        exact ⟨hhand, by rw [hread, Channel.tail, Channel.tail, hsent], hclosed'⟩
  | closed hpushed hclosed =>
      obtain ⟨hsent, hclosed'⟩ := hkeeps k hk hclosed
      refine .closed ?_ hclosed'
      rw [hpushed, SerialManager.window, SerialManager.window, Channel.unread, Channel.unread,
        hsent]

/-- A step of the task that takes no command for the port. -/
theorem polls {polling : Prop} {emitted : List Arrival} (h : v.Streams m k start pushed)
    (hpolls : v.Polls m polling v' emitted)
    (hkept : ∀ rx, polling → v.slot = some rx → (m.channels rx.chan).oldest ≤ rx.next) :
    v'.Streams m k start (pushed ++ emitted) := by
  cases hpolls with
  | still => exact (List.append_nil pushed).symm ▸ h
  | wrote slot a rest noticed =>
      cases h with
      | live next inHand noticed hstart hnext hpushed hnoticed =>
          refine .live next rest noticed hstart hnext ?_ ?_
          · rw [← hpushed, List.append_assoc]
            rfl
          · exact fun hn => absurd (hnoticed hn).1 (by simp)
  | received rx entry noticed hpolling hentry hheld =>
      cases h with
      | live next inHand noticed hstart hnext hpushed hnoticed =>
          have hlt : next < (m.channels k).tail := (List.getElem?_eq_some_iff.mp hentry).1
          rw [List.append_nil] at hpushed ⊢
          refine .live (next + 1) _ noticed (Nat.le_succ_of_le hstart) hlt ?_ ?_
          · rw [SerialManager.window_succ hstart hentry, hpushed]
          · exact fun hn => absurd (hnoticed hn).2.1 (Nat.ne_of_lt hlt)
  | lagged rx noticed hpolling hlost => exact absurd hlost (Nat.not_lt.mpr (hkept rx hpolling rfl))
  | noticed rx before hread hclosed =>
      cases h with
      | live next inHand noticed hstart hnext hpushed hnoticed =>
          rw [List.append_nil pushed]
          exact .live next [] true hstart hnext hpushed fun _ =>
            ⟨rfl, Nat.le_antisymm hnext hread, hclosed⟩
  | dropped slot =>
      cases h with
      | live next inHand noticed hstart hnext hpushed hnoticed =>
          rw [List.append_nil pushed]
          have h := RxState.Streams.live next [] true hstart hnext hpushed hnoticed
          exact .closed (h.complete (Or.inl rfl)) (hnoticed rfl).2.2

end RxState.Streams

/-- The command is about the subscription of the port. -/
def RxSubCommand.concerns (p : String) : RxSubCommand → Bool
  | .subscribe port _ => port = p
  | .unsubscribe port => port = p
  | _ => false

/-- The task takes another command for the port, meets a gap in it, or fails to
write. -/
def Client.interrupted (cl : Client) (m : SerialManager) (p : String) (writeOk : Bool) : Bool :=
  (cl.task.pc.takesCommand && cl.queue.head?.any (RxSubCommand.concerns p)) ||
    (cl.task.polls p && (cl.task.maps.rxReceivers.lookup p).any fun rx =>
      decide (rx.next < (m.channels rx.chan).oldest)) ||
    (!writeOk && !cl.task.pc.lines.isEmpty)

/-- A step that interrupts the subscription of `c`, or with which `c` leaves. -/
def World.interrupts (c : ClientId) (p : String) (w : World) : Event → Bool
  | .client d (.task _ writeOk) =>
      d = c && (w.clients c).any fun cl => cl.interrupted w.serial p writeOk
  | .disconnect d => d = c
  | _ => false

/-- `subscribe_rx` makes its receiver. -/
def World.Subscribes (c : ClientId) (p : String) (rx : Receiver) (w : World) (e : Event) : Prop :=
  e = .client c .dispatch ∧ ∃ cl req, w.clients c = some cl ∧
    cl.dispatch = some (req, .subscribeTake p) ∧ w.serial.subscribe p = some rx

/-- The task takes a command out of its queue. -/
def World.Takes (c : ClientId) (cmd : RxSubCommand) (w : World) (e : Event) : Prop :=
  ∃ cl order writeOk rest, e = .client c (.task order writeOk) ∧ w.clients c = some cl ∧
    cl.task.pc.takesCommand = true ∧ cl.queue = cmd :: rest

private theorem later_of_runFrom {es : List Event} {w w' : World}
    (hrun : daemon.runFrom w es = some w') : SerialManager.Later w.serial w'.serial :=
  daemon.runFrom_invariant (P := fun w' => SerialManager.Later w.serial w'.serial)
    (fun _ _ _ h hstep => h.trans (World.step_seen hstep 0).changes.later)
    (.refl w.serial) hrun

/-- A command about something else leaves the receiver of the port. -/
theorem TaskMaps.lookup_apply_of_concerns {maps : TaskMaps} {cmd : RxSubCommand} {p : String}
    (h : cmd.concerns p = false) :
    (maps.apply cmd).rxReceivers.lookup p = maps.rxReceivers.lookup p := by
  cases cmd with
  | subscribe port rx =>
      have hp : p ≠ port := fun hp => by simp [RxSubCommand.concerns, hp] at h
      simp [apply, hp]
  | unsubscribe port =>
      have hp : p ≠ port := fun hp => by simp [RxSubCommand.concerns, hp] at h
      simp [apply, hp]
  | addFilter port keywords rx => rfl
  | removeFilter port => rfl
  | setFilterKeywords port keywords =>
      rw [apply]
      split <;> rfl

/-- A subscription under way: the client, which had been written `n` lines when
the task took its receiver. -/
def World.Streams (c : ClientId) (p : String) (k : ChannelId) (start n : ℕ) (w : World) : Prop :=
  ∃ cl, w.clients c = some cl ∧ n ≤ cl.written.length ∧
    (cl.task.rx p).Streams w.serial k start (rxPushes p (cl.written.drop n))

/-- A step of the client's task. -/
theorem Client.streams_task {cl : Client} {m : SerialManager} {p : String} {k : ChannelId}
    {start n : ℕ} {order : List String} {writeOk : Bool} {task : StreamTask}
    {queue : List RxSubCommand} {lines : List Push} (hn : n ≤ cl.written.length)
    (h : (cl.task.rx p).Streams m k start (rxPushes p (cl.written.drop n)))
    (hstep : cl.task.step m cl.queue order writeOk = some (task, queue, lines))
    (hclear : cl.interrupted m p writeOk = false) :
    (task.rx p).Streams m k start
      (rxPushes p ((cl.written ++ lines.map Outgoing.push).drop n)) := by
  rw [List.drop_append_of_le_length hn, rxPushes_pushed]
  simp only [interrupted, Bool.or_eq_false_iff, Bool.and_eq_false_iff] at hclear
  obtain ⟨⟨htakes, hlags⟩, hwrites⟩ := hclear
  obtain ⟨⟨htaking, ⟨cmd, hqueue, hmaps⟩, hhand, hhand', hold, hnew⟩, rfl⟩ | ⟨rfl, hpolls⟩ |
    ⟨⟨hfailed, hlines⟩, rfl, rfl, rfl⟩ := StreamTask.step_polls (p := p) hstep
  · have hother : cmd.concerns p = false := by simpa [htaking, hqueue] using htakes
    have hsame : task.rx p = cl.task.rx p := by
      refine (RxState.mk.injEq ..).mpr ⟨?_, hhand'.trans hhand.symm, hnew.trans hold.symm⟩
      exact (congrArg (·.rxReceivers.lookup p) hmaps).trans
        (TaskMaps.lookup_apply_of_concerns hother)
    rw [hsame, List.filterMap_nil, List.append_nil]
    exact h
  · apply h.polls hpolls
    intro rx hpolling hslot
    have hslot' : cl.task.maps.rxReceivers.lookup p = some rx := hslot
    simpa [hpolling, hslot'] using hlags
  · simp [hfailed, hlines] at hwrites

/-- A command writes nothing but its response. -/
theorem Client.Advances.rxPushes_drop {cl cl' : Client} {m : SerialManager} {req : Request}
    {pc : Pc} {p : String} {n : ℕ} (h : cl.Advances m req pc cl') (hn : n ≤ cl.written.length) :
    n ≤ cl'.written.length ∧
      rxPushes p (cl'.written.drop n) = rxPushes p (cl.written.drop n) := by
  cases h with
  | wrote resp =>
      refine ⟨by simpa using Nat.le_succ_of_le hn, ?_⟩
      rw [List.drop_append_of_le_length hn, rxPushes_answered]
  | _ => exact ⟨hn, rfl⟩

theorem World.Streams.step {c : ClientId} {p : String} {k : ChannelId} {start n : ℕ}
    {es : List Event} {w w' : World} {e : Event} (h : w.Streams c p k start n)
    (hrun : daemon.run es = some w) (hstep : daemon.step w e = some w') (hk : k < w.serial.fresh)
    (hclear : w.interrupts c p e = false) : w'.Streams c p k start n := by
  obtain ⟨cl, hcl, hn, hstreams⟩ := h
  have hlater := (World.step_seen hstep c).changes.later
  have hkeeps := keepsClosed_of_step hrun hstep
  cases World.step_seen hstep c with
  | joined he hclient hclient' hserial => exact absurd (hcl.symm.trans hclient) (by simp)
  | left cl he hclient hidle hclient' hserial => simp [he, World.interrupts] at hclear
  | own cl₀ cl' ce he hclient hconnected hsteps hclient' =>
      obtain rfl := Option.some.inj (hcl.symm.trans hclient)
      subst he
      cases ce with
      | request req env =>
          cases hsteps with
          | began req env m' s' pc hidle hbegins =>
              exact ⟨_, hclient', hn, hstreams.changes hk hlater hkeeps⟩
      | dispatch =>
          generalize w'.serial = m' at hsteps
          cases hsteps with
          | advanced req pc cl' hpc hadvances =>
              obtain ⟨hn', hpushes⟩ := hadvances.rxPushes_drop (p := p) hn
              refine ⟨_, hclient', hn', ?_⟩
              rw [hpushes, hadvances.task_eq]
              exact hstreams.changes hk hlater hkeeps
      | task order writeOk =>
          obtain ⟨task, queue, lines, htask, rfl⟩ := World.step_task hstep hclient hclient'
          have hclear' : cl.interrupted w.serial p writeOk = false := by
            simpa [World.interrupts, hcl] using hclear
          refine ⟨_, hclient', ?_, ?_⟩
          · rw [List.length_append]
            exact Nat.le_add_right_of_le hn
          · exact (Client.streams_task hn hstreams htask hclear').changes hk hlater hkeeps
  | elsewhere hsame hchanges hevent =>
      exact ⟨cl, hsame.trans hcl, hn, hstreams.changes hk hlater hkeeps⟩

/-- The subscription begins where the task takes its receiver. -/
theorem World.Takes.streams {c : ClientId} {p : String} {rx : Receiver} {w w' : World} {e : Event}
    {cl : Client} (h : w.Takes c (.subscribe p rx) e) (hcl : w.clients c = some cl)
    (hstep : daemon.step w e = some w') (hnext : rx.next ≤ (w.serial.channels rx.chan).tail) :
    w'.Streams c p rx.chan rx.next cl.written.length := by
  obtain ⟨cl₀, order, writeOk, rest, rfl, hclient, htaking, hqueue⟩ := h
  obtain rfl := Option.some.inj (hcl.symm.trans hclient)
  have htask : cl.task.step w.serial cl.queue order writeOk =
      some (⟨cl.task.maps.apply (.subscribe p rx), .commands⟩, rest, []) := by
    unfold TaskPc.takesCommand at htaking
    split at htaking <;> simp_all [StreamTask.step]
  simp only [daemon, World.step, hcl, Option.ite_none_right_eq_some, Option.map_eq_some_iff,
    Client.step, htask, Option.some.injEq] at hstep
  obtain ⟨-, r, ⟨r', rfl, rfl⟩, rfl⟩ := hstep
  refine ⟨_, by simp [World.setClient]; rfl, by simp, ?_⟩
  have hslot : (StreamTask.rx ⟨cl.task.maps.apply (.subscribe p rx), .commands⟩ p) =
      ⟨some rx, [], false⟩ := by
    simp [StreamTask.rx, TaskMaps.apply, TaskPc.lines, TaskPc.closedRx]
  rw [hslot]
  simp only [List.map_nil, List.append_nil, List.drop_length]
  exact .live rx.next [] false le_rfl hnext (by simp [rxPushes]) (by simp)

/-- A subscription streams its window. From where `subscribe_rx` makes the
receiver at `w₀`, over where the task takes it, to any later state: what has been
pushed since then is a beginning of what has arrived since the receiver was made,
and all of it if the task has found the channel closed. -/
theorem subscription_streams_window {c : ClientId} {p : String} {rx : Receiver}
    {before between after : List Event} {make take : Event} {w₀ w₁ w₂ w₃ w : World}
    {cl₂ cl : Client} (hbefore : daemon.run before = some w₀)
    (hmakes : w₀.Subscribes c p rx make) (hmake : daemon.step w₀ make = some w₁)
    (hbetween : daemon.runFrom w₁ between = some w₂)
    (htakes : w₂.Takes c (.subscribe p rx) take) (htake : daemon.step w₂ take = some w₃)
    (hafter : daemon.runFrom w₃ after = some w)
    (hclear : daemon.Along (fun w e _ => w.interrupts c p e = false) w₃ after)
    (hcl₂ : w₂.clients c = some cl₂) (hcl : w.clients c = some cl) :
    rxPushes p (cl.written.drop cl₂.written.length) <+:
        SerialManager.arrivedSince w₀.serial w.serial rx.chan ∧
      ((cl.task.rx p).noticed = true ∨ (cl.task.rx p).slot = none →
        rxPushes p (cl.written.drop cl₂.written.length) =
          SerialManager.arrivedSince w₀.serial w.serial rx.chan) := by
  obtain ⟨rfl, cl₀, req, hcl₀, hpc, hsub⟩ := hmakes
  obtain ⟨op, hop, rfl⟩ := SerialManager.subscribe_eq_some.mp hsub
  have hmade : op.tx < w₀.serial.fresh := w₀.serial.tx_lt p op hop
  have hlater₂ : SerialManager.Later w₀.serial w₂.serial :=
    later_of_runFrom (daemon.runFrom_cons_eq_some.mpr ⟨w₁, hmake, hbetween⟩)
  have hrun₂ : daemon.run (before ++ .client c .dispatch :: between) = some w₂ :=
    daemon.run_append_eq_some.mpr
      ⟨w₀, hbefore, daemon.runFrom_cons_eq_some.mpr ⟨w₁, hmake, hbetween⟩⟩
  have hrun₃ := daemon.run_snoc_eq_some.mpr ⟨w₂, hrun₂, htake⟩
  have hlater₃ := (World.step_seen htake c).changes.later
  have hstart := htakes.streams hcl₂ htake (hlater₂.tail_le hmade)
  have hmade₃ : op.tx < w₃.serial.fresh :=
    Nat.lt_of_lt_of_le hmade (hlater₂.fresh_le.trans hlater₃.fresh_le)
  obtain ⟨⟨cl', hcl', -, hstreams⟩, -⟩ := daemon.runFrom_invariant_along
    (P := fun w => w.Streams c p op.tx (w₀.serial.channels op.tx).tail cl₂.written.length ∧
      op.tx < w.serial.fresh ∧ ∃ es, daemon.run es = some w)
    (A := fun _ => True) (Q := fun w e _ => w.interrupts c p e = false)
    (fun w e w' _ hclear ⟨hw, hk, es, hes⟩ hstep =>
      ⟨hw.step hes hstep hk hclear,
        Nat.lt_of_lt_of_le hk (World.step_seen hstep c).changes.later.fresh_le,
        es ++ [e], daemon.run_snoc_eq_some.mpr ⟨w, hes, hstep⟩⟩)
    (fun _ _ => trivial) hclear ⟨hstart, hmade₃, _, hrun₃⟩ hafter
  obtain rfl := Option.some.inj (hcl.symm.trans hcl')
  exact ⟨hstreams.isPrefix, hstreams.complete⟩

/-- Two clients, of which the first is about to make its receiver. -/
def beforeWindow : List Event :=
  [.connect 0, .connect 1] ++ issue 0 (portRequest "open_port" "P") 2 ++
    issue 0 (portRequest "subscribe_rx" "P") 0

/-- An entry arrives, the other client closes the port, and the task reads the
entry and finds the channel closed. -/
def afterWindow : List Event :=
  [.deliver 0 ⟨"12:00:00", [0x6F, 0x6B]⟩] ++ issue 1 (portRequest "close_port" "P") 2 ++
    [.endReadTask 0, stream 0 ["P"], stream 0 [], stream 0 [], stream 0 []]

/-- The first client is to make a receiver of "P" at the start of channel 0. -/
def World.makesFirst (w : World) : Bool :=
  ((w.clients 0).any fun cl =>
    match cl.dispatch with
    | some (_, .subscribeTake port) => port = "P"
    | _ => false) &&
    (w.serial.subscribe "P").any fun rx => decide (rx.chan = 0) && decide (rx.next = 0)

/-- The first client's task is to take that receiver. -/
def World.takesFirst (w : World) : Bool :=
  (w.clients 0).any fun cl => cl.task.pc.takesCommand &&
    match cl.queue with
    | .subscribe port rx :: _ => port = "P" && decide (rx.chan = 0) && decide (rx.next = 0)
    | _ => false

private theorem World.subscribes_of_makesFirst {w : World} (h : w.makesFirst = true) :
    w.Subscribes 0 "P" ⟨0, 0⟩ (.client 0 .dispatch) := by
  simp only [makesFirst, Bool.and_eq_true, Option.any_eq_true, decide_eq_true_eq] at h
  obtain ⟨⟨cl, hcl, hmatch⟩, ⟨k, next⟩, hsub, rfl, rfl⟩ := h
  split at hmatch
  · rename_i req port hpc
    obtain rfl : port = "P" := by simpa using hmatch
    exact ⟨rfl, cl, req, hcl, hpc, hsub⟩
  · simp at hmatch

private theorem World.takes_of_takesFirst {w : World} (h : w.takesFirst = true) :
    w.Takes 0 (.subscribe "P" ⟨0, 0⟩) (stream 0 []) := by
  simp only [takesFirst, Bool.and_eq_true, Option.any_eq_true] at h
  obtain ⟨cl, hcl, htaking, hmatch⟩ := h
  split at hmatch
  · rename_i port rx rest hqueue
    obtain ⟨k, next⟩ := rx
    simp only [Bool.and_eq_true, decide_eq_true_eq] at hmatch
    obtain ⟨⟨rfl, rfl⟩, rfl⟩ := hmatch
    exact ⟨cl, [], true, rest, rfl, hcl, htaking, hqueue⟩
  · simp at hmatch

private theorem window_closes : (daemon.run beforeWindow).any (fun w₀ => w₀.makesFirst &&
    (daemon.step w₀ (.client 0 .dispatch)).any fun w₁ =>
      (daemon.runFrom w₁ (List.replicate 2 (.client 0 .dispatch))).any fun w₂ =>
        w₂.takesFirst && (daemon.step w₂ (stream 0 [])).any fun w₃ =>
          decide (daemon.Along (fun w e _ => w.interrupts 0 "P" e = false) w₃ afterWindow) &&
            (daemon.runFrom w₃ afterWindow).any fun w => (w.clients 0).any fun cl =>
              (cl.task.rx "P").noticed && (rxPushes "P" cl.written).length == 1) = true := by
  decide +kernel

/-- The theorem for a port that another client closes. -/
theorem subscription_streams_window_closed : ∃ (w₀ w₂ w : World) (cl₂ cl : Client),
    daemon.run beforeWindow = some w₀ ∧ w₂.clients 0 = some cl₂ ∧ w.clients 0 = some cl ∧
    (rxPushes "P" cl.written).length = 1 ∧
    rxPushes "P" (cl.written.drop cl₂.written.length) =
      SerialManager.arrivedSince w₀.serial w.serial 0 := by
  have hrun := window_closes
  simp only [Option.any_eq_true, Bool.and_eq_true, decide_eq_true_eq, beq_iff_eq] at hrun
  obtain ⟨w₀, hw₀, hmakes, w₁, hw₁, w₂, hw₂, htakes, w₃, hw₃, hclear, w, hw, cl, hcl, hnoticed,
    hlength⟩ := hrun
  have htakes' := World.takes_of_takesFirst htakes
  obtain ⟨cl₂, order, writeOk, rest, -, hcl₂, -, -⟩ := id htakes'
  exact ⟨w₀, w₂, w, cl₂, cl, hw₀, hcl₂, hcl, hlength,
    (subscription_streams_window hw₀ (World.subscribes_of_makesFirst hmakes) hw₁ hw₂ htakes' hw₃ hw
      hclear hcl₂ hcl).2 (Or.inl hnoticed)⟩

end Commmon

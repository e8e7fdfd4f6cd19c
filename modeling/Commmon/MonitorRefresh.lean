/-
# What an event stream emits

A stream that has a receiver of a port's current opening keeps it as long as the
port stays open, and whatever arrives can be emitted by steps of the loop alone.
A receiver that fell behind is told so, which ends the reading of its port for
that round, and goes on in the next one.

So a refresh does its work when every port of the snapshot is still open where
the loop comes to it, and no receiver is left from an earlier opening.
-/

import Commmon.MonitorEvents
import Commmon.Streaming

set_option autoImplicit false

namespace Commmon

open Broadcast

namespace SseStream

variable {x x' : SseStream} {m : SerialManager} {p : String} {k : ChannelId} {last : ℕ}

/-- What the loop can come to by itself. -/
def Reaches (m : SerialManager) : SseStream → SseStream → Prop :=
  Relation.ReflTransGen fun x x' => ∃ order, x.step m order = some x'

theorem Reaches.of_step {order : List String} (hstep : x.step m order = some x') :
    x.Reaches m x' :=
  Relation.ReflTransGen.single ⟨order, hstep⟩

/-- The receiver of `p` reads channel `k` and has still to read position `last`. -/
structure Awaits (p : String) (k : ChannelId) (last : ℕ) (x : SseStream)
    (rx : Receiver) : Prop where
  lookup : x.receivers.lookup p = some rx
  chan : rx.chan = k
  next_le : rx.next ≤ last

/-- The entry at the position is the last one of its channel, which still holds it. -/
structure IsLast (m : SerialManager) (k : ChannelId) (last : ℕ) : Prop where
  tail : (m.channels k).tail = last + 1
  oldest_le : (m.channels k).oldest ≤ last

/-- An entry of `p` has been emitted. -/
def Emitted (m : SerialManager) (p : String) (k : ChannelId) (last : ℕ) (x : SseStream) : Prop :=
  ∃ entry, (m.channels k).sent[last]? = some entry ∧ (p, ⟨k, last, entry⟩) ∈ x.emitted

/-- A receive at one port leaves the receivers of the others. -/
theorem Awaits.insert_of_ne {q : String} {rx rq : Receiver} (h : x.Awaits p k last rx)
    (hq : p ≠ q) (pc : SsePc) (emitted : List (String × Arrival)) :
    Awaits p k last ⟨x.receivers.insert q rq, pc, emitted⟩ rx :=
  ⟨by rw [Table.lookup_insert, if_neg hq, h.lookup], h.chan, h.next_le⟩

private theorem awaits_insert (receivers : Table String Receiver) (rx : Receiver)
    (hchan : rx.chan = k)
    (hnext : rx.next ≤ last) (pc : SsePc) (emitted : List (String × Arrival)) :
    Awaits p k last ⟨receivers.insert p rx, pc, emitted⟩ rx :=
  ⟨by rw [Table.lookup_insert, if_pos rfl], hchan, hnext⟩

/-- One receive of the polling pass. -/
theorem step_polling {q : String} {todo : List String} {gotData : Bool} {rq : Receiver}
    (order : List String) (hpc : x.pc = .polling (q :: todo) gotData)
    (hrq : x.receivers.lookup q = some rq) :
    (∃ entry, (m.channels rq.chan).sent[rq.next]? = some entry ∧
      (m.channels rq.chan).oldest ≤ rq.next ∧ rq.next < (m.channels rq.chan).tail ∧
      x.step m order = some ⟨x.receivers.insert q { rq with next := rq.next + 1 },
        .polling (q :: todo) true, x.emitted ++ [(q, ⟨rq.chan, rq.next, entry⟩)]⟩) ∨
    ∃ next, (rq.next < (m.channels rq.chan).oldest ∧ next = (m.channels rq.chan).oldest ∨
        (m.channels rq.chan).tail ≤ rq.next ∧ next = rq.next) ∧
      x.step m order = some ⟨x.receivers.insert q { rq with next := next },
        .polling todo gotData, x.emitted⟩ := by
  obtain ⟨entry, hentry, hold, hlt, htry⟩ | ⟨hlost, htry⟩ | ⟨hread, -, htry⟩ | ⟨hread, -, htry⟩ :=
    (m.channels rq.chan).tryRecv_cases rq.next
  · refine Or.inl ⟨entry, hentry, hold, hlt, ?_⟩
    simp [step, hpc, hrq, SerialManager.tryRecv, htry]
  · refine Or.inr ⟨_, Or.inl ⟨hlost, rfl⟩, ?_⟩
    simp [step, hpc, hrq, SerialManager.tryRecv, htry]
  · refine Or.inr ⟨_, Or.inr ⟨hread, rfl⟩, ?_⟩
    simp [step, hpc, hrq, SerialManager.tryRecv, htry]
  · refine Or.inr ⟨_, Or.inr ⟨hread, rfl⟩, ?_⟩
    simp [step, hpc, hrq, SerialManager.tryRecv, htry]

/-- The reading of one port, of which `unread` entries are left. The port itself
is read to its last entry, unless it was behind and is told so. -/
theorem reads_port {q : String} {todo : List String} {gotData : Bool} {rx : Receiver}
    (hlast : IsLast m k last) {unread : ℕ}
    (hunread : ∀ rq, x.receivers.lookup q = some rq →
      (m.channels rq.chan).tail - rq.next = unread)
    (hpc : x.pc = .polling (q :: todo) gotData) (h : x.Awaits p k last rx) :
    ∃ x', x.Reaches m x' ∧ (x'.Emitted m p k last ∨ ∃ gotData' rx', x'.pc = .polling todo gotData' ∧
      x'.Awaits p k last rx' ∧ rx.next ≤ rx'.next ∧
      (q = p → rx.next < (m.channels k).oldest ∧ (m.channels k).oldest ≤ rx'.next)) := by
  induction unread using Nat.strong_induction_on generalizing x gotData rx with
  | _ unread ih =>
  cases hrq : x.receivers.lookup q with
  | none =>
      have hne : q ≠ p := by
        rintro rfl
        exact absurd (h.lookup.symm.trans hrq) (by simp)
      have hstep : x.step m [] = some { x with pc := .polling todo gotData } := by
        simp [step, hpc, hrq]
      exact ⟨_, .of_step hstep, Or.inr
        ⟨gotData, rx, rfl, ⟨h.lookup, h.chan, h.next_le⟩, le_rfl, fun hq => absurd hq hne⟩⟩
  | some rq =>
      obtain ⟨entry, hentry, hold, hlt, hstep⟩ | ⟨next, hnext, hstep⟩ :=
        step_polling (m := m) [] hpc hrq
      · have hfewer : (m.channels rq.chan).tail - (rq.next + 1) < unread := by
          have := hunread rq hrq
          omega
        have hrest : ∀ r : Receiver, (x.receivers.insert q { rq with next := rq.next + 1 }).lookup
            q = some r → (m.channels r.chan).tail - r.next =
              (m.channels rq.chan).tail - (rq.next + 1) := by
          intro r hr
          rw [Table.lookup_insert, if_pos rfl] at hr
          rw [← Option.some.inj hr]
        rcases eq_or_ne p q with rfl | hne
        · obtain rfl := Option.some.inj (h.lookup.symm.trans hrq)
          obtain rfl := h.chan
          rcases Nat.lt_or_eq_of_le h.next_le with hbefore | rfl
          · have hnext := awaits_insert (p := p) x.receivers { rx with next := rx.next + 1 } rfl
              hbefore (.polling (p :: todo) true)
              (x.emitted ++ [(p, ⟨rx.chan, rx.next, entry⟩)])
            obtain ⟨x', hreach, hend⟩ := ih _ hfewer hrest rfl hnext
            refine ⟨x', .head ⟨[], hstep⟩ hreach, hend.imp_right ?_⟩
            rintro ⟨gotData', rx', hpc', hawaits, hle, hlagged⟩
            refine ⟨gotData', rx', hpc', hawaits, Nat.le_of_succ_le hle, fun hq => ?_⟩
            exact absurd (Nat.lt_of_succ_lt (hlagged hq).1) (Nat.not_lt.mpr hold)
          · exact ⟨_, .of_step hstep, Or.inl ⟨entry, hentry, by simp⟩⟩
        · obtain ⟨x', hreach, hend⟩ := ih _ hfewer hrest rfl (h.insert_of_ne hne _ _)
          exact ⟨x', .head ⟨[], hstep⟩ hreach, hend⟩
      · rcases eq_or_ne p q with rfl | hne
        · obtain rfl := Option.some.inj (h.lookup.symm.trans hrq)
          obtain rfl := h.chan
          obtain ⟨hlost, rfl⟩ | ⟨hread, -⟩ := hnext
          · exact ⟨_, .of_step hstep, Or.inr
              ⟨gotData, { rx with next := (m.channels rx.chan).oldest }, rfl,
                awaits_insert _ { rx with next := _ } rfl hlast.oldest_le _ _, hlost.le,
                fun _ => ⟨hlost, le_rfl⟩⟩⟩
          · have hle := h.next_le
            have htail := hlast.tail
            omega
        · exact ⟨_, .of_step hstep, Or.inr ⟨gotData, rx, rfl, h.insert_of_ne hne _ _, le_rfl,
            fun hq => absurd hq.symm hne⟩⟩

/-- The rest of a polling pass. -/
theorem reads_all {todo : List String} {gotData : Bool} {rx : Receiver} (hlast : IsLast m k last)
    (hpc : x.pc = .polling todo gotData) (h : x.Awaits p k last rx) :
    ∃ x', x.Reaches m x' ∧ (x'.Emitted m p k last ∨ ∃ gotData' rx', x'.pc = .polling [] gotData' ∧
      x'.Awaits p k last rx' ∧ rx.next ≤ rx'.next ∧
      (p ∈ todo → rx.next < (m.channels k).oldest ∧ (m.channels k).oldest ≤ rx'.next)) := by
  induction todo generalizing x gotData rx with
  | nil => exact ⟨x, .refl, Or.inr ⟨gotData, rx, hpc, h, le_rfl, by simp⟩⟩
  | cons q todo ih =>
      have hunread : ∀ rq, x.receivers.lookup q = some rq →
          (m.channels rq.chan).tail - rq.next =
            (x.receivers.lookup q).elim 0 fun rq => (m.channels rq.chan).tail - rq.next := by
        intro rq hrq
        rw [hrq]
        rfl
      obtain ⟨x₁, hreach₁, hemitted | ⟨gotData₁, rx₁, hpc₁, h₁, hle₁, hlagged₁⟩⟩ :=
        reads_port hlast hunread hpc h
      · exact ⟨x₁, hreach₁, Or.inl hemitted⟩
      obtain ⟨x₂, hreach₂, hemitted | ⟨gotData₂, rx₂, hpc₂, h₂, hle₂, hlagged₂⟩⟩ := ih hpc₁ h₁
      · exact ⟨x₂, hreach₁.trans hreach₂, Or.inl hemitted⟩
      refine ⟨x₂, hreach₁.trans hreach₂, Or.inr ⟨gotData₂, rx₂, hpc₂, h₂, hle₁.trans hle₂, ?_⟩⟩
      intro hp
      rcases List.mem_cons.mp hp with rfl | hp
      · exact ⟨(hlagged₁ rfl).1, (hlagged₁ rfl).2.trans hle₂⟩
      · exact ⟨hle₁.trans_lt (hlagged₂ hp).1, (hlagged₂ hp).2⟩

/-- The rest of a refresh of the loop alone. A port of the snapshot keeps its
receiver and is polled next. -/
theorem refreshes {names todo : List String} {rx : Receiver}
    (hpc : x.pc = .subscribing names todo) (hp : p ∈ names) (h : x.Awaits p k last rx) :
    ∃ x' order, x.Reaches m x' ∧ x'.pc = .polling order false ∧ p ∈ order ∧
      x'.Awaits p k last rx := by
  induction todo generalizing x with
  | nil =>
      have hkept : (x.receivers.retain fun name => decide (name ∈ names)).lookup p = some rx := by
        simp [Table.lookup_retain, hp, h.lookup]
      have hmem : p ∈ (x.receivers.retain fun name => decide (name ∈ names)).keys := by
        by_contra hnot
        simp [AList.lookup_eq_none.mpr hnot] at hkept
      have hstep : x.step m (x.receivers.retain fun name => decide (name ∈ names)).keys =
          some { x with
            receivers := x.receivers.retain fun name => decide (name ∈ names)
            pc := .polling (x.receivers.retain fun name => decide (name ∈ names)).keys false } := by
        have hne : (x.receivers.retain fun name => decide (name ∈ names)).keys ≠ [] :=
          List.ne_nil_of_mem hmem
        simp [step, hpc, hne]
      exact ⟨_, _, .of_step hstep, rfl, hmem, hkept, h.chan, h.next_le⟩
  | cons name todo ih =>
      have hstep : x.step m [] = some { x with
          receivers := x.subscribe m name, pc := .subscribing names todo } := by
        simp [step, hpc]
      have hkept : (x.subscribe m name).lookup p = some rx := by
        rw [lookup_subscribe, if_neg (by simp [h.lookup]), h.lookup]
      obtain ⟨x', order, hreach, hpc', hmem, h'⟩ := ih
        (x := { x with receivers := x.subscribe m name, pc := .subscribing names todo })
        rfl ⟨hkept, h.chan, h.next_le⟩
      exact ⟨x', order, .head ⟨[], hstep⟩ hreach, hpc', hmem, h'⟩

/-- The loop alone gets from anywhere to a polling pass that has an open port in
front of it, unless it emits the entry before. -/
theorem comes_to_poll {rx : Receiver} (hlast : IsLast m k last) (hopen : p ∈ m.ports.keys)
    (hnames : ∀ names todo, x.pc = .subscribing names todo → p ∈ names)
    (h : x.Awaits p k last rx) :
    ∃ x', x.Reaches m x' ∧ (x'.Emitted m p k last ∨ ∃ order rx', x'.pc = .polling order false ∧
      p ∈ order ∧ x'.Awaits p k last rx' ∧ rx.next ≤ rx'.next) := by
  have hnaming : ∀ y : SseStream, y.pc = .naming → ∀ ry, y.Awaits p k last ry →
      ∃ x' order, y.Reaches m x' ∧ x'.pc = .polling order false ∧ p ∈ order ∧
        x'.Awaits p k last ry := by
    intro y hpc ry hy
    have hstep : y.step m m.ports.keys = some { y with
        pc := .subscribing m.ports.keys m.ports.keys } := by
      simp [step, hpc]
    obtain ⟨x', order, hreach, hpc', hmem, h'⟩ := refreshes (m := m) rfl hopen
      (x := { y with pc := .subscribing m.ports.keys m.ports.keys })
      ⟨hy.lookup, hy.chan, hy.next_le⟩
    exact ⟨x', order, .head ⟨_, hstep⟩ hreach, hpc', hmem, h'⟩
  have hsleeping : ∀ y : SseStream, y.pc = .sleeping → ∀ ry, y.Awaits p k last ry →
      ∃ x' order, y.Reaches m x' ∧ x'.pc = .polling order false ∧ p ∈ order ∧
        x'.Awaits p k last ry := by
    intro y hpc ry hy
    have hstep : y.step m [] = some { y with pc := .naming } := by simp [step, hpc]
    obtain ⟨x', order, hreach, hpc', hmem, h'⟩ := hnaming { y with pc := .naming } rfl ry
      ⟨hy.lookup, hy.chan, hy.next_le⟩
    exact ⟨x', order, .head ⟨[], hstep⟩ hreach, hpc', hmem, h'⟩
  cases hpc : x.pc with
  | naming =>
      obtain ⟨x', order, hreach, hpc', hmem, h'⟩ := hnaming x hpc rx h
      exact ⟨x', hreach, Or.inr ⟨order, rx, hpc', hmem, h', le_rfl⟩⟩
  | sleeping =>
      obtain ⟨x', order, hreach, hpc', hmem, h'⟩ := hsleeping x hpc rx h
      exact ⟨x', hreach, Or.inr ⟨order, rx, hpc', hmem, h', le_rfl⟩⟩
  | subscribing names todo =>
      obtain ⟨x', order, hreach, hpc', hmem, h'⟩ := refreshes (m := m) hpc (hnames names todo hpc) h
      exact ⟨x', hreach, Or.inr ⟨order, rx, hpc', hmem, h', le_rfl⟩⟩
  | polling todo gotData =>
      obtain ⟨y, hy, hemitted | ⟨gotData', ry, hpcy, hawaits, hle, -⟩⟩ := reads_all hlast hpc h
      · exact ⟨y, hy, Or.inl hemitted⟩
      have hstep : y.step m [] = some { y with
          pc := if gotData' then .naming else .sleeping } := by
        simp [step, hpcy]
      have hon : ∃ x' order, Reaches m { y with pc := if gotData' then .naming else .sleeping } x' ∧
          x'.pc = .polling order false ∧ p ∈ order ∧ x'.Awaits p k last ry := by
        cases gotData' with
        | true => exact hnaming _ rfl ry ⟨hawaits.lookup, hawaits.chan, hawaits.next_le⟩
        | false => exact hsleeping _ rfl ry ⟨hawaits.lookup, hawaits.chan, hawaits.next_le⟩
      obtain ⟨x', order, hreach, hpc', hmem, h'⟩ := hon
      exact ⟨x', hy.trans (.head ⟨[], hstep⟩ hreach), Or.inr ⟨order, ry, hpc', hmem, h', hle⟩⟩

/-- The loop alone emits the last entry of an open port that it has the right
receiver of. A receiver that was behind needs a second pass. -/
theorem emits_last {rx : Receiver} (hlast : IsLast m k last) (hopen : p ∈ m.ports.keys)
    (hnames : ∀ names todo, x.pc = .subscribing names todo → p ∈ names)
    (h : x.Awaits p k last rx) : ∃ x', x.Reaches m x' ∧ x'.Emitted m p k last := by
  obtain ⟨x₁, hreach₁, hemitted | ⟨order₁, rx₁, hpc₁, hp₁, h₁, -⟩⟩ :=
    comes_to_poll hlast hopen hnames h
  · exact ⟨x₁, hreach₁, hemitted⟩
  obtain ⟨x₂, hreach₂, hemitted | ⟨gotData₂, rx₂, hpc₂, h₂, -, hlagged⟩⟩ :=
    reads_all hlast hpc₁ h₁
  · exact ⟨x₂, hreach₁.trans hreach₂, hemitted⟩
  have hheld := (hlagged hp₁).2
  obtain ⟨x₃, hreach₃, hemitted | ⟨order₃, rx₃, hpc₃, hp₃, h₃, hle⟩⟩ :=
    comes_to_poll hlast hopen (by simp [hpc₂]) h₂
  · exact ⟨x₃, (hreach₁.trans hreach₂).trans hreach₃, hemitted⟩
  obtain ⟨x₄, hreach₄, hemitted | ⟨gotData₄, rx₄, -, -, -, hlagged'⟩⟩ := reads_all hlast hpc₃ h₃
  · exact ⟨x₄, ((hreach₁.trans hreach₂).trans hreach₃).trans hreach₄, hemitted⟩
  · exact absurd ((hheld.trans hle).trans_lt (hlagged' hp₃).1) (lt_irrefl _)

/-- No receiver is ahead of its channel. -/
def InRange (m : SerialManager) (x : SseStream) : Prop :=
  ∀ p rx, x.receivers.lookup p = some rx →
    rx.chan < m.fresh ∧ rx.next ≤ (m.channels rx.chan).tail

/-- Everything a step can do to a receiver: keep it, make it, drop it, or receive
with it. -/
theorem step_lookup {order : List String} (hstep : x.step m order = some x') (p : String) :
    x'.receivers.lookup p = x.receivers.lookup p ∨
    (x.receivers.lookup p = none ∧ x'.receivers.lookup p = m.subscribe p) ∨
    (x'.receivers.lookup p = none ∧ ∃ names, x.pc = .subscribing names [] ∧ p ∉ names) ∨
    ∃ rx next, x.receivers.lookup p = some rx ∧
      x'.receivers.lookup p = some { rx with next := next } ∧
      (next = rx.next ∨ next ≤ (m.channels rx.chan).tail) := by
  cases hpc : x.pc with
  | naming =>
      simp only [step, hpc] at hstep
      split_ifs at hstep
      exact Or.inl (Option.some.inj hstep ▸ rfl)
  | sleeping =>
      simp only [step, hpc] at hstep
      exact Or.inl (Option.some.inj hstep ▸ rfl)
  | subscribing names todo =>
      cases todo with
      | nil =>
          have hkept := (step_retain hpc hstep).1 p
          split_ifs at hkept with hp
          · exact Or.inl hkept
          · exact Or.inr (Or.inr (Or.inl ⟨hkept, names, rfl, hp⟩))
      | cons name todo =>
          rw [(step_subscribing hpc hstep).2, lookup_subscribe]
          split_ifs with hnew
          · exact Or.inr (Or.inl ⟨hnew.2, hnew.1 ▸ rfl⟩)
          · exact Or.inl rfl
  | polling todo gotData =>
      cases todo with
      | nil =>
          simp only [step, hpc] at hstep
          exact Or.inl (Option.some.inj hstep ▸ rfl)
      | cons q todo =>
          cases hrq : x.receivers.lookup q with
          | none =>
              simp only [step, hpc, hrq] at hstep
              exact Or.inl (Option.some.inj hstep ▸ rfl)
          | some rq =>
              obtain ⟨entry, -, -, hlt, heq⟩ | ⟨next, hnext, heq⟩ :=
                step_polling (m := m) order hpc hrq
              · obtain rfl := Option.some.inj (heq.symm.trans hstep)
                rcases eq_or_ne p q with rfl | hne
                · exact Or.inr (Or.inr (Or.inr ⟨rq, _, hrq, by rw [Table.lookup_insert, if_pos rfl],
                    Or.inr hlt⟩))
                · exact Or.inl (by rw [Table.lookup_insert, if_neg hne])
              · obtain rfl := Option.some.inj (heq.symm.trans hstep)
                rcases eq_or_ne p q with rfl | hne
                · refine Or.inr (Or.inr (Or.inr ⟨rq, next, hrq, by
                    rw [Table.lookup_insert, if_pos rfl], ?_⟩))
                  obtain ⟨-, rfl⟩ | ⟨-, rfl⟩ := hnext
                  · exact Or.inr (Nat.sub_le _ _)
                  · exact Or.inl rfl
                · exact Or.inl (by rw [Table.lookup_insert, if_neg hne])

theorem InRange.step {order : List String} (hx : x.InRange m) (hstep : x.step m order = some x') :
    x'.InRange m := by
  intro p rx hrx
  obtain hsame | ⟨-, hnew⟩ | ⟨hnone, -⟩ | ⟨r, next, hr, hr', hnext⟩ := step_lookup hstep p
  · exact hx p rx (hsame.symm.trans hrx)
  · obtain ⟨op, hop, rfl⟩ := SerialManager.subscribe_eq_some.mp (hnew.symm.trans hrx)
    exact ⟨m.tx_lt p op hop, le_rfl⟩
  · exact absurd (hnone.symm.trans hrx) (by simp)
  · obtain rfl := Option.some.inj (hr'.symm.trans hrx)
    obtain ⟨hchan, hle⟩ := hx p r hr
    refine ⟨hchan, ?_⟩
    obtain rfl | hnext := hnext
    · exact hle
    · exact hnext

/-- The stream has a receiver of the channel, and its refresh, if one is under way,
keeps it. -/
def Tuned (p : String) (k : ChannelId) (x : SseStream) : Prop :=
  (∃ rx, x.receivers.lookup p = some rx ∧ rx.chan = k) ∧
    ∀ names todo, x.pc = .subscribing names todo → p ∈ names

theorem Tuned.step {order : List String} (hx : x.Tuned p k) (hopen : p ∈ m.ports.keys)
    (hstep : x.step m order = some x') : x'.Tuned p k := by
  obtain ⟨⟨rx, hrx, hchan⟩, hnames⟩ := hx
  constructor
  · obtain hsame | ⟨hnone, -⟩ | ⟨-, names, hpc, hp⟩ | ⟨r, next, hr, hr', -⟩ := step_lookup hstep p
    · exact ⟨rx, hsame.trans hrx, hchan⟩
    · exact absurd (hrx.symm.trans hnone) (by simp)
    · exact absurd (hnames names [] hpc) hp
    · obtain rfl := Option.some.inj (hr.symm.trans hrx)
      exact ⟨_, hr', hchan⟩
  · intro names todo hpc'
    unfold SseStream.step at hstep
    split at hstep
    · split_ifs at hstep with hperm
      obtain rfl := Option.some.inj hstep
      obtain ⟨rfl, -⟩ := SsePc.subscribing.inj hpc'
      exact hperm.mem_iff.mpr hopen
    · rename_i ns name rest hpc
      obtain rfl := Option.some.inj hstep
      obtain ⟨rfl, -⟩ := SsePc.subscribing.inj hpc'
      exact hnames _ _ hpc
    · simp only at hstep
      split_ifs at hstep <;> obtain rfl := Option.some.inj hstep <;> simp at hpc'
    · split at hstep
      · obtain rfl := Option.some.inj hstep
        simp at hpc'
      · split at hstep <;> obtain rfl := Option.some.inj hstep <;> simp at hpc'
    · obtain rfl := Option.some.inj hstep
      split_ifs at hpc'
    · obtain rfl := Option.some.inj hstep
      simp at hpc'

end SseStream

namespace MonitorWorld

variable {w w' : MonitorWorld} {e : MonitorEvent} {h : ℕ} {p : String}

private theorem daemon_of_run {es : List MonitorEvent} (hrun : monitoring.run es = some w) :
    ∃ ds, Commmon.daemon.run ds = some w.daemon := by
  refine monitoring.run_invariant (P := fun w => ∃ ds, Commmon.daemon.run ds = some w.daemon)
    ⟨[], rfl⟩ (fun w e w' ⟨ds, hds⟩ hstep => ?_) hrun
  cases e with
  | daemon e =>
      obtain ⟨d, hd, rfl⟩ := Option.map_eq_some_iff.mp hstep
      exact ⟨ds ++ [e], Commmon.daemon.run_snoc_eq_some.mpr ⟨w.daemon, hds, hd⟩⟩
  | accept i =>
      simp only [monitoring, step] at hstep
      split at hstep
      · exact absurd hstep (by simp)
      · exact ⟨ds, Option.some.inj hstep ▸ hds⟩
  | stream i order =>
      simp only [monitoring, step] at hstep
      split at hstep
      · obtain ⟨x', -, rfl⟩ := Option.map_eq_some_iff.mp hstep
        exact ⟨ds, hds⟩
      · exact absurd hstep (by simp)

private theorem inRange_of_run {es : List MonitorEvent} (hrun : monitoring.run es = some w)
    {x : SseStream} (hx : w.streams h = some x) : x.InRange w.serial := by
  have hall : ∀ x, w.streams h = some x → x.InRange w.serial := by
    refine monitoring.run_invariant
      (P := fun w => ∀ x, w.streams h = some x → x.InRange w.serial)
      (by simp [monitoring]) (fun w e w' ih hstep x hx => ?_) hrun
    have hlater := (step_changes hstep).later
    cases step_seen hstep h with
    | elsewhere hsame he =>
        intro p rx hrx
        obtain ⟨hchan, hle⟩ := ih x (hsame.symm.trans hx) p rx hrx
        exact ⟨hchan.trans_le hlater.fresh_le, hle.trans (hlater.tail_le hchan)⟩
    | accepted hnew hx' =>
        obtain rfl := Option.some.inj (hx.symm.trans hx')
        intro p rx hrx
        simp [SseStream.new] at hrx
    | own order y y' he hy hmove hy' hserial =>
        obtain rfl := Option.some.inj (hx.symm.trans hy')
        rw [hserial]
        exact (ih y hy).step hmove
  exact hall x hx

/-- The loop of a stream alone, as steps of the daemon. -/
theorem run_of_reaches {x x' : SseStream} (hx : w.streams h = some x)
    (hreach : x.Reaches w.serial x') :
    ∃ own w', (∀ e ∈ own, ∃ order, e = .stream h order) ∧ monitoring.runFrom w own = some w' ∧
      w'.streams h = some x' ∧ w'.serial = w.serial := by
  induction hreach with
  | refl => exact ⟨[], w, by simp, rfl, hx, rfl⟩
  | @tail y z hreach hstep ih =>
      obtain ⟨own, v, hown, hrun, hv, hserial⟩ := ih
      obtain ⟨order, hstep⟩ := hstep
      refine ⟨own ++ [.stream h order], v.setStream h z, ?_, ?_,
        by simp [streams_setStream], hserial⟩
      · rw [List.forall_mem_append]
        exact ⟨hown, by simp⟩
      · rw [monitoring.runFrom_append, hrun]
        simp [StepSystem.runFrom, monitoring, step, hv, hserial, hstep]

/-- The stream has a receiver of the current opening of an open port. -/
def Follows (h : ℕ) (p : String) (w : MonitorWorld) : Prop :=
  ∃ x op, w.streams h = some x ∧ w.serial.ports.lookup p = some op ∧ x.Tuned p op.tx

/-- As long as no port is closed, the stream's own steps can emit each entry that
arrives on the port. -/
def Emits (h : ℕ) (p : String) (w : MonitorWorld) : Prop :=
  ∀ later v op entry v', monitoring.runFrom w later = some v →
    monitoring.Along (fun s _ t => s.keepsOpen t = true) w later →
    v.serial.ports.lookup p = some op →
    monitoring.step v (.daemon (.deliver op.tx entry)) = some v' →
      ∃ own s x, (∀ e ∈ own, ∃ order, e = .stream h order) ∧
        monitoring.runFrom v' own = some s ∧ s.streams h = some x ∧
        (p, ⟨op.tx, (v.serial.channels op.tx).tail, entry⟩) ∈ x.emitted

theorem Follows.step (hf : w.Follows h p) (hstep : monitoring.step w e = some w')
    (hkeeps : w.keepsOpen w' = true) : w'.Follows h p := by
  obtain ⟨x, op, hx, hop, htuned⟩ := hf
  have hop' := lookup_of_keepsOpen hstep hkeeps hop
  cases step_seen hstep h with
  | elsewhere hsame he => exact ⟨x, op, hsame.trans hx, hop', htuned⟩
  | accepted hnew hx' => exact absurd (hx.symm.trans hnew) (by simp)
  | own order y y' he hy hmove hy' hserial =>
      obtain rfl := Option.some.inj (hx.symm.trans hy)
      have hopen : p ∈ w.serial.ports.keys := by
        by_contra hnot
        simp [AList.lookup_eq_none.mpr hnot] at hop
      exact ⟨y', op, hy', hop', htuned.step hopen hmove⟩

private theorem step_deliver {k : ChannelId} {entry : RxEntry}
    (hstep : monitoring.step w (.daemon (.deliver k entry)) = some w') :
    w'.streams = w.streams ∧ w'.serial.ports = w.serial.ports ∧
      w'.serial.channels k = (w.serial.channels k).send entry := by
  obtain ⟨d, hd, rfl⟩ := Option.map_eq_some_iff.mp hstep
  obtain ⟨m, hm, rfl⟩ := Option.map_eq_some_iff.mp hd
  obtain rfl := SerialManager.deliver_eq_some hm
  exact ⟨rfl, rfl, Function.update_self _ _ _⟩

/-- A stream that follows a port emits what arrives on it. -/
theorem Follows.emits {es : List MonitorEvent} (hrun : monitoring.run es = some w)
    (hf : w.Follows h p) : w.Emits h p := by
  intro later v op entry v' hlater hkeeps hop hdeliver
  obtain ⟨x, op', hx, hop', ⟨rx, hrx, hchan⟩, hnames⟩ := monitoring.runFrom_invariant_along
    (P := fun w => w.Follows h p) (A := fun _ => True) (Q := fun s _ t => s.keepsOpen t = true)
    (fun _ _ _ _ hkeeps hf hstep => hf.step hstep hkeeps) (fun _ _ => trivial) hkeeps hf hlater
  obtain rfl := Option.some.inj (hop.symm.trans hop')
  have hrun' : monitoring.run (es ++ later) = some v :=
    monitoring.run_append_eq_some.mpr ⟨w, hrun, hlater⟩
  obtain ⟨-, hnext⟩ := inRange_of_run hrun' hx p rx hrx
  obtain ⟨ds, hds⟩ := daemon_of_run hrun'
  have hcapacity : (v.serial.channels op.tx).capacity = broadcastCapacity :=
    (sound_of_run hds).capacity op.tx
  obtain ⟨hstreams, hports, hchannel⟩ := step_deliver hdeliver
  have hopen : p ∈ v'.serial.ports.keys := by
    by_contra hnot
    simp [hports ▸ AList.lookup_eq_none.mpr hnot] at hop
  have hlast : SseStream.IsLast v'.serial op.tx (v.serial.channels op.tx).tail := by
    constructor
    · rw [hchannel, Channel.tail_send]
    · rw [hchannel, Channel.oldest, Channel.tail_send, Channel.capacity_send, hcapacity,
        broadcastCapacity]
      omega
  obtain ⟨x', hreach, entry', hentry', hemitted⟩ := SseStream.emits_last hlast hopen hnames
    ⟨hrx, hchan, hchan ▸ hnext⟩
  obtain rfl : entry = entry' := by simpa [hchannel, Channel.tail] using hentry'
  obtain ⟨own, s, hown, hruns, hs, -⟩ :=
    run_of_reaches ((congrFun hstreams h).trans hx) hreach
  exact ⟨own, s, x', hown, hruns, hs, hemitted⟩

end MonitorWorld

namespace MonitorWorld

variable {h : ℕ} {names : List String} {during : List MonitorEvent} {order : List String}
  {w₁ w₂ w₃ : MonitorWorld} {x x₃ : SseStream}

/-- Every port of the snapshot has a receiver in the end exactly when the loop
missed none. -/
theorem held_iff_found (hr : w₁.Refreshing h names [] names x) (hnodup : names.Nodup)
    (hduring : monitoring.runFrom w₁ during = some w₂)
    (hgoes : monitoring.Along (fun s e _ => s.endsRefresh h e = false) w₁ during)
    (hends : w₂.endsRefresh h (.stream h order) = true)
    (hend : monitoring.step w₂ (.stream h order) = some w₃) (hx₃ : w₃.streams h = some x₃) :
    (∀ p, (x₃.receivers.lookup p).isSome ↔ p ∈ names) ↔
      monitoring.Along (fun s e _ => s.misses h e = false) w₁ during := by
  constructor
  · intro hheld
    apply along_of_not_missed hnodup ⟨[], names, x, hr⟩ hduring hgoes
    rintro ⟨done, todo, y, p, hr₂, hp, hnone⟩
    obtain ⟨rfl, -, hlookup, -⟩ := hr₂.end hends hend hx₃
    have hmem : p ∈ names := by
      rw [hr₂.names_eq]
      exact List.mem_append_left _ hp
    have hsome := (hheld p).mpr hmem
    rw [hlookup, if_pos hmem, hnone] at hsome
    exact absurd hsome (by simp)
  · intro hfinds p
    obtain ⟨done, todo, y, hr₂, hcovered⟩ := monitoring.runFrom_invariant_along
      (P := fun s => s.Covered h names) (A := fun _ => True)
      (Q := fun s e _ => s.endsRefresh h e = false ∧ s.misses h e = false)
      (fun _ _ _ _ hq hc hstep => hc.step hstep hq.1 hq.2) (fun _ _ => trivial)
      (monitoring.along_and hgoes hfinds) ⟨[], names, x, hr, by simp⟩ hduring
    obtain ⟨rfl, -, hlookup, -⟩ := hr₂.end hends hend hx₃
    have hdone : names = done := hr₂.names_eq.trans (List.append_nil done)
    rw [hlookup]
    split_ifs with hp
    · exact iff_of_true (hcovered p (hdone ▸ hp)) hp
    · exact iff_of_false (by simp) hp

/-- If no port is closed, the receivers are of the current openings in the end
exactly when those that were there in the beginning are. -/
theorem follows_iff_current (hr : w₁.Refreshing h names [] names x)
    (hopen : ∀ p, p ∈ names ↔ (w₁.serial.ports.lookup p).isSome = true)
    (hduring : monitoring.runFrom w₁ during = some w₂)
    (hgoes : monitoring.Along (fun s e _ => s.endsRefresh h e = false) w₁ during)
    (hkeeps : monitoring.Along (fun s _ t => s.keepsOpen t = true) w₁ during)
    (hends : w₂.endsRefresh h (.stream h order) = true)
    (hend : monitoring.step w₂ (.stream h order) = some w₃) (hx₃ : w₃.streams h = some x₃) :
    (∀ p, (x₃.receivers.lookup p).isSome → w₃.Follows h p) ↔
      ∀ p rx op, x.receivers.lookup p = some rx → w₁.serial.ports.lookup p = some op →
        rx.chan = op.tx := by
  obtain ⟨y, hn, done, todo, hr₂⟩ := monitoring.runFrom_invariant_along
    (P := fun s => ∃ y, w₁.Renewed h x s y ∧ ∃ done todo, s.Refreshing h names done todo y)
    (A := fun _ => True)
    (Q := fun s e t => s.endsRefresh h e = false ∧ s.keepsOpen t = true)
    (fun _ _ _ _ hq hc hstep => by
      obtain ⟨y, hn, hr⟩ := hc
      exact hn.step hr hstep hq.1 hq.2)
    (fun _ _ => trivial) (monitoring.along_and hgoes hkeeps)
    ⟨x, ⟨hr.stream, fun _ _ hop => hop, fun _ _ hrx => hrx, fun _ _ hrx => Or.inl hrx⟩, [], names,
      hr⟩ hduring
  obtain ⟨rfl, hserial, hlookup, hpc⟩ := hr₂.end hends hend hx₃
  constructor
  · intro hfollows p rx op hrx hop
    have hp : p ∈ names := (hopen p).mpr (by simp [hop])
    have hrx₃ : x₃.receivers.lookup p = some rx := by
      rw [hlookup, if_pos hp, hn.kept p rx hrx]
    obtain ⟨z, op', hz, hop', ⟨rz, hrz, hchan⟩, -⟩ := hfollows p (by simp [hrx₃])
    obtain rfl := Option.some.inj (hx₃.symm.trans hz)
    obtain rfl := Option.some.inj (hrx₃.symm.trans hrz)
    rw [hserial, hn.opens p op hop] at hop'
    rw [hchan, ← Option.some.inj hop']
  · intro hcurrent p hheld
    obtain ⟨rx, hrx⟩ := Option.isSome_iff_exists.mp hheld
    rw [hlookup] at hrx
    split_ifs at hrx with hp
    obtain ⟨op, hop⟩ := Option.isSome_iff_exists.mp ((hopen p).mp hp)
    have hop₂ := hn.opens p op hop
    refine ⟨x₃, op, hx₃, hserial ▸ hop₂, ⟨rx, by rw [hlookup, if_pos hp, hrx], ?_⟩,
      fun ns todo hns => absurd hns (hpc ns todo)⟩
    obtain hold | ⟨op', hop', hchan⟩ := hn.added p rx hrx
    · exact hcurrent p rx op hold hop
    · rw [hchan, Option.some.inj (hop₂.symm.trans hop')]

end MonitorWorld

open MonitorWorld in
/-- When a refresh follows the ports. After a refresh the stream has receivers of
exactly the ports that were open when it began, and, if none was closed meanwhile,
each is of the current opening and everything that arrives on it can be emitted,
exactly when the loop found every port of the snapshot that it had no receiver of
still open, and, if none was closed meanwhile, no receiver was left from an earlier
opening. -/
theorem refresh_follows_iff {h : ℕ} {es during : List MonitorEvent} {order order' : List String}
    {w w₁ w₂ w₃ : MonitorWorld} {x x₃ : SseStream} (hrun : monitoring.run es = some w)
    (hx : w.streams h = some x) (hpc : x.pc = .naming)
    (hbegin : monitoring.step w (.stream h order) = some w₁)
    (hduring : monitoring.runFrom w₁ during = some w₂)
    (hgoes : monitoring.Along (fun s e _ => s.endsRefresh h e = false) w₁ during)
    (hends : w₂.endsRefresh h (.stream h order') = true)
    (hend : monitoring.step w₂ (.stream h order') = some w₃) (hx₃ : w₃.streams h = some x₃) :
    ((∀ p, (x₃.receivers.lookup p).isSome ↔ (w.serial.ports.lookup p).isSome) ∧
      (monitoring.Along (fun s _ t => s.keepsOpen t = true) w₁ during →
        ∀ p, (x₃.receivers.lookup p).isSome → w₃.Follows h p ∧ w₃.Emits h p)) ↔
    (monitoring.Along (fun s e _ => s.misses h e = false) w₁ during ∧
      (monitoring.Along (fun s _ t => s.keepsOpen t = true) w₁ during →
        ∀ p rx op, x.receivers.lookup p = some rx → w.serial.ports.lookup p = some op →
          rx.chan = op.tx)) := by
  obtain ⟨hperm, hr₁, hserial₁⟩ := refreshing_begin hx hpc hbegin
  have hnodup : order.Nodup := hperm.nodup_iff.mpr w.serial.ports.nodupKeys
  have hopen : ∀ p, p ∈ order ↔ (w.serial.ports.lookup p).isSome = true := by
    intro p
    rw [hperm.mem_iff, AList.lookup_isSome, AList.mem_keys]
  have hheld := held_iff_found hr₁ hnodup hduring hgoes hends hend hx₃
  have hfollows : monitoring.Along (fun s _ t => s.keepsOpen t = true) w₁ during →
      ((∀ p, (x₃.receivers.lookup p).isSome → w₃.Follows h p) ↔
        ∀ p rx op, x.receivers.lookup p = some rx → w.serial.ports.lookup p = some op →
          rx.chan = op.tx) := by
    intro hkeeps
    rw [← hserial₁]
    exact follows_iff_current (x := { x with pc := .subscribing order order }) hr₁
      (hserial₁ ▸ hopen) hduring hgoes hkeeps hends hend hx₃
  have hrun₃ : monitoring.run (es ++ .stream h order :: (during ++ [.stream h order'])) =
      some w₃ := by
    refine monitoring.run_append_eq_some.mpr ⟨w, hrun, ?_⟩
    refine monitoring.runFrom_cons_eq_some.mpr ⟨w₁, hbegin, ?_⟩
    rw [monitoring.runFrom_append, hduring]
    exact monitoring.runFrom_cons_eq_some.mpr ⟨w₃, hend, rfl⟩
  rw [← hheld]
  refine and_congr (forall_congr' fun p => by rw [hopen]) (forall_congr' fun hkeeps => ?_)
  rw [← hfollows hkeeps]
  exact forall₂_congr fun p _ => and_iff_left_of_imp fun hf => hf.emits hrun₃

def SsePc.isNaming : SsePc → Bool
  | .naming => true
  | _ => false

/-- After this run stream 0 refreshes without a pause, with port "P" open, and `test`
holds of where that begins and ends. -/
def refreshesTo (es : List MonitorEvent)
    (test : MonitorWorld → SseStream → MonitorWorld → SseStream → Bool) : Bool :=
  (monitoring.run es).any fun w => (w.streams 0).any fun x =>
    x.pc.isNaming && (monitoring.step w (.stream 0 ["P"])).any fun w₁ =>
      decide (monitoring.Along (fun s e _ => s.endsRefresh 0 e = false) w₁ [.stream 0 []]) &&
      decide (monitoring.Along (fun s e _ => s.misses 0 e = false) w₁ [.stream 0 []]) &&
      decide (monitoring.Along (fun s _ t => s.keepsOpen t = true) w₁ [.stream 0 []]) &&
      (monitoring.runFrom w₁ [.stream 0 []]).any fun w₂ =>
        w₂.endsRefresh 0 (.stream 0 ["P"]) &&
          (monitoring.step w₂ (.stream 0 ["P"])).any fun w₃ => (w₃.streams 0).any fun x₃ =>
            test w x w₃ x₃

private theorem exists_refresh {es : List MonitorEvent}
    {test : MonitorWorld → SseStream → MonitorWorld → SseStream → Bool}
    (h : refreshesTo es test = true) : ∃ (w w₁ w₂ w₃ : MonitorWorld) (x x₃ : SseStream),
    monitoring.run es = some w ∧ w.streams 0 = some x ∧ x.pc = .naming ∧
    monitoring.step w (.stream 0 ["P"]) = some w₁ ∧
    monitoring.runFrom w₁ [.stream 0 []] = some w₂ ∧
    monitoring.Along (fun s e _ => s.endsRefresh 0 e = false) w₁ [.stream 0 []] ∧
    monitoring.Along (fun s e _ => s.misses 0 e = false) w₁ [.stream 0 []] ∧
    monitoring.Along (fun s _ t => s.keepsOpen t = true) w₁ [.stream 0 []] ∧
    w₂.endsRefresh 0 (.stream 0 ["P"]) = true ∧
    monitoring.step w₂ (.stream 0 ["P"]) = some w₃ ∧ w₃.streams 0 = some x₃ ∧
    test w x w₃ x₃ = true := by
  simp only [refreshesTo, Option.any_eq_true, Bool.and_eq_true, decide_eq_true_eq] at h
  obtain ⟨w, hw, x, hx, hnaming, w₁, hw₁, ⟨⟨hgoes, hfinds⟩, hkeeps⟩, w₂, hw₂, hends, w₃, hw₃, x₃,
    hx₃, htest⟩ := h
  have hpc : x.pc = .naming := by
    cases hpc : x.pc <;> simp_all [SsePc.isNaming]
  exact ⟨w, w₁, w₂, w₃, x, x₃, hw, hx, hpc, hw₁, hw₂, hgoes, hfinds, hkeeps, hends, hw₃, hx₃, htest⟩

/-- A port is open, and a browser connects. -/
def watchedPort : List MonitorEvent :=
  (Event.connect 0 :: issue 0 (portRequest "open_port" "P") 2).map .daemon ++ [.accept 0]

/-- The theorem for the first refresh. -/
theorem refresh_follows_first : ∃ (w w₃ : MonitorWorld) (x₃ : SseStream),
    monitoring.run watchedPort = some w ∧ w₃.streams 0 = some x₃ ∧
    (x₃.receivers.lookup "P").isSome = true ∧ w₃.Follows 0 "P" ∧ w₃.Emits 0 "P" := by
  have hrun : refreshesTo watchedPort (fun w x _ _ =>
      x.receivers.keys.isEmpty && (w.serial.ports.lookup "P").isSome) = true := by
    decide +kernel
  obtain ⟨w, w₁, w₂, w₃, x, x₃, hw, hx, hpc, hw₁, hw₂, hgoes, hfinds, hkeeps, hends, hw₃, hx₃,
    htest⟩ := exists_refresh hrun
  simp only [Bool.and_eq_true, List.isEmpty_iff] at htest
  have hnone : ∀ p rx op, x.receivers.lookup p = some rx → w.serial.ports.lookup p = some op →
      rx.chan = op.tx := by
    intro p rx op hrx
    have hempty : p ∉ x.receivers.keys := by simp [htest.1]
    simp [AList.lookup_eq_none.mpr hempty] at hrx
  obtain ⟨hheld, hfollows⟩ := (refresh_follows_iff hw hx hpc hw₁ hw₂ hgoes hends hw₃ hx₃).mpr
    ⟨hfinds, fun _ => hnone⟩
  have hP := (hheld "P").mpr htest.2
  exact ⟨w, w₃, x₃, hw, hx₃, hP, hfollows hkeeps "P" hP⟩

/-- After the first round the port is closed and opened again. -/
def reopenedPort : List MonitorEvent :=
  watchedPort ++ [.stream 0 ["P"], .stream 0 [], .stream 0 ["P"], .stream 0 [], .stream 0 [],
    .stream 0 []] ++
    (issue 0 (portRequest "close_port" "P") 2 ++ issue 0 (portRequest "open_port" "P") 2).map
      .daemon

/-- A stream can miss that a port was opened again. -/
theorem refresh_not_always_follows :
    ¬ ∀ (h : ℕ) (es during : List MonitorEvent) (order order' : List String)
      (w w₁ w₂ w₃ : MonitorWorld) (x x₃ : SseStream), monitoring.run es = some w →
      w.streams h = some x → x.pc = .naming →
      monitoring.step w (.stream h order) = some w₁ → monitoring.runFrom w₁ during = some w₂ →
      monitoring.Along (fun s e _ => s.endsRefresh h e = false) w₁ during →
      w₂.endsRefresh h (.stream h order') = true →
      monitoring.step w₂ (.stream h order') = some w₃ → w₃.streams h = some x₃ →
      monitoring.Along (fun s _ t => s.keepsOpen t = true) w₁ during →
        ∀ p, (x₃.receivers.lookup p).isSome → w₃.Follows h p := by
  intro hfollows
  have hrun : refreshesTo reopenedPort (fun _ _ w₃ x₃ =>
      ((x₃.receivers.lookup "P").any fun rx => rx.chan == 0) &&
        (w₃.serial.ports.lookup "P").any fun op => op.tx == 1) = true := by
    decide +kernel
  obtain ⟨w, w₁, w₂, w₃, x, x₃, hw, hx, hpc, hw₁, hw₂, hgoes, -, hkeeps, hends, hw₃, hx₃, htest⟩ :=
    exists_refresh hrun
  simp only [Bool.and_eq_true, Option.any_eq_true, beq_iff_eq] at htest
  obtain ⟨⟨rx, hrx, hold⟩, op, hop, hnew⟩ := htest
  obtain ⟨y, op', hy, hop', ⟨ry, hry, hchan⟩, -⟩ := hfollows 0 _ _ _ _ w w₁ w₂ w₃ x x₃ hw hx hpc hw₁
    hw₂ hgoes hends hw₃ hx₃ hkeeps "P" (by simp [hrx])
  obtain rfl := Option.some.inj (hx₃.symm.trans hy)
  obtain rfl := Option.some.inj (hrx.symm.trans hry)
  obtain rfl := Option.some.inj (hop.symm.trans hop')
  rw [hold, hnew] at hchan
  exact absurd hchan (by decide)

end Commmon

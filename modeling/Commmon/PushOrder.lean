/-
# At most one push for an entry

The receivers of a port that a client has, in the order in which they are used,
are the one that the streaming task polls and then those on their way to it. A
new receiver is made when the command is processed, and the older one is dropped
when the task reads its queue. In between the older one may still receive, and
what it receives the newer one receives again. As long as it does not, an entry
is pushed at most once, and the pushes are in the order of arrival.

Closes are not excluded here: the channels of a port's openings are numbered in
their order, so the order of arrival goes on over them.
-/

import Commmon.Pushes
import Commmon.Streaming

set_option autoImplicit false

namespace Commmon

open Broadcast

/-- `a` was broadcast before `b`, on the same channel or on an older one. -/
def Arrival.Precedes (a b : Arrival) : Prop := a.chan < b.chan ∨ a.chan = b.chan ∧ a.pos < b.pos

/-- Neither `rx` nor what it becomes will receive `a`. -/
def Arrival.Before (a : Arrival) (rx : Receiver) : Prop :=
  a.chan < rx.chan ∨ a.chan = rx.chan ∧ a.pos < rx.next

/-- A position that a channel of the port has reached. -/
structure SerialManager.Reached (m : SerialManager) (p : String) (k : ChannelId) (pos : ℕ) :
    Prop where
  made : k < m.fresh
  le_tail : pos ≤ (m.channels k).tail
  not_later : ∀ op, m.ports.lookup p = some op → k ≤ op.tx

theorem SerialManager.Reached.changes {m m' : SerialManager} {p : String} {k : ChannelId}
    {pos : ℕ} (h : m.Reached p k pos) (hchanges : SerialManager.Changes m m') :
    m'.Reached p k pos := by
  refine ⟨Nat.lt_of_lt_of_le h.made hchanges.later.fresh_le,
    h.le_tail.trans (hchanges.later.tail_le h.made), fun op hop => ?_⟩
  obtain ⟨hsame, -⟩ | ⟨-, ⟨op', hop', htx⟩, -⟩ | ⟨-, hnone, -⟩ := hchanges.lookup_ports p
  · exact h.not_later op (hsame ▸ hop)
  · obtain rfl := Option.some.inj (hop'.symm.trans hop)
    exact htx ▸ h.made.le
  · exact absurd (hnone.symm.trans hop) (by simp)

/-- The receiver that a command brings to the task. -/
def RxSubCommand.rxOf (p : String) : RxSubCommand → Option Receiver
  | .subscribe port rx => if port = p then some rx else none
  | _ => none

/-- What has been received for a port, and the receivers in the order of their
use. -/
structure RxLine where
  pushed : List Arrival
  receivers : List Receiver

/-- The receivers of a port that are on their way to the task. -/
def Client.waiting (cl : Client) (p : String) : List Receiver :=
  cl.pending.filterMap (RxSubCommand.rxOf p)

def Client.rxLine (cl : Client) (p : String) : RxLine where
  pushed := rxPushes p cl.written ++ (cl.task.rx p).inHand
  receivers := (cl.task.rx p).slot.toList ++ cl.waiting p

namespace RxLine

/-- What can happen to the receivers of a port. Only the first one receives, and
only where `receiving` allows it. -/
inductive Steps (m : SerialManager) (p : String) (receiving : Prop) : RxLine → RxLine → Prop
  | kept (x y : RxLine) (hpushed : y.pushed.Sublist x.pushed)
      (hreceivers : y.receivers.Sublist x.receivers) : Steps m p receiving x y
  | received (pushed : List Arrival) (rx : Receiver) (rest : List Receiver) (entry : RxEntry)
      (hreceiving : receiving) (hentry : (m.channels rx.chan).sent[rx.next]? = some entry) :
      Steps m p receiving ⟨pushed, rx :: rest⟩
        ⟨pushed ++ [⟨rx.chan, rx.next, entry⟩], { rx with next := rx.next + 1 } :: rest⟩
  | skipped (pushed : List Arrival) (rx : Receiver) (rest : List Receiver)
      (hlost : rx.next < (m.channels rx.chan).oldest) :
      Steps m p receiving ⟨pushed, rx :: rest⟩
        ⟨pushed, { rx with next := (m.channels rx.chan).oldest } :: rest⟩
  | subscribed (pushed : List Arrival) (receivers : List Receiver) (op : OpenPort)
      (hop : m.ports.lookup p = some op) :
      Steps m p receiving ⟨pushed, receivers⟩
        ⟨pushed, receivers ++ [⟨op.tx, (m.channels op.tx).tail⟩]⟩

/-- What holds as long as no two receivers get the same entry. -/
structure Ordered (m : SerialManager) (p : String) (x : RxLine) : Prop where
  pushed : x.pushed.Pairwise Arrival.Precedes
  before : ∀ a ∈ x.pushed, ∀ rx ∈ x.receivers, a.Before rx
  receivers : x.receivers.Pairwise fun rx rx' => rx.chan ≤ rx'.chan
  reached : ∀ rx ∈ x.receivers, m.Reached p rx.chan rx.next
  arrived : ∀ a ∈ x.pushed, m.Reached p a.chan (a.pos + 1)

/-- The first receiver is about to get an entry that a later one will get too. -/
def Overlaps (m : SerialManager) (x : RxLine) : Prop :=
  ∃ rx rest, x.receivers = rx :: rest ∧ rx.next < (m.channels rx.chan).tail ∧
    ∃ rx' ∈ rest, rx'.chan = rx.chan ∧ rx'.next ≤ rx.next

variable {m m' : SerialManager} {p : String} {x y : RxLine}

theorem Ordered.changes (h : Ordered m p x) (hchanges : SerialManager.Changes m m') :
    Ordered m' p x where
  pushed := h.pushed
  before := h.before
  receivers := h.receivers
  reached rx hrx := (h.reached rx hrx).changes hchanges
  arrived a ha := (h.arrived a ha).changes hchanges

theorem Ordered.kept (h : Ordered m p x) (hpushed : y.pushed.Sublist x.pushed)
    (hreceivers : y.receivers.Sublist x.receivers) : Ordered m p y where
  pushed := h.pushed.sublist hpushed
  before a ha rx hrx := h.before a (hpushed.subset ha) rx (hreceivers.subset hrx)
  receivers := h.receivers.sublist hreceivers
  reached rx hrx := h.reached rx (hreceivers.subset hrx)
  arrived a ha := h.arrived a (hpushed.subset ha)

theorem ordered_nil : Ordered m p ⟨[], []⟩ := ⟨.nil, by simp, .nil, by simp, by simp⟩

theorem Ordered.received {pushed : List Arrival} {rx : Receiver} {rest : List Receiver}
    {entry : RxEntry} (h : Ordered m p ⟨pushed, rx :: rest⟩)
    (hentry : (m.channels rx.chan).sent[rx.next]? = some entry)
    (hclear : ¬ Overlaps m ⟨pushed, rx :: rest⟩) :
    Ordered m p
      ⟨pushed ++ [⟨rx.chan, rx.next, entry⟩], { rx with next := rx.next + 1 } :: rest⟩ := by
  have hlt : rx.next < (m.channels rx.chan).tail := (List.getElem?_eq_some_iff.mp hentry).1
  have hfirst : ∀ a ∈ pushed, a.Before rx := fun a ha => h.before a ha rx List.mem_cons_self
  have hlater : ∀ rx' ∈ rest, rx.chan ≤ rx'.chan := (List.pairwise_cons.mp h.receivers).1
  have hrx := h.reached rx List.mem_cons_self
  refine ⟨?_, ?_, ?_, ?_, ?_⟩
  · refine List.pairwise_append.mpr ⟨h.pushed, List.pairwise_singleton _ _, fun a ha b hb => ?_⟩
    obtain rfl := List.mem_singleton.mp hb
    exact hfirst a ha
  · intro a ha rx' hrx'
    rcases List.mem_append.mp ha with ha | ha <;> rcases List.mem_cons.mp hrx' with rfl | hrx'
    · obtain hchan | ⟨hchan, hpos⟩ := hfirst a ha
      · exact Or.inl hchan
      · exact Or.inr ⟨hchan, Nat.lt_succ_of_lt hpos⟩
    · exact h.before a ha rx' (List.mem_cons_of_mem _ hrx')
    · obtain rfl := List.mem_singleton.mp ha
      exact Or.inr ⟨rfl, Nat.lt_succ_self _⟩
    · -- a later receiver of the same channel starts behind the entry
      obtain rfl := List.mem_singleton.mp ha
      obtain hchan | hchan := (hlater rx' hrx').lt_or_eq
      · exact Or.inl hchan
      · refine Or.inr ⟨hchan, Nat.not_le.mp fun hle => ?_⟩
        exact hclear ⟨rx, rest, rfl, hlt, rx', hrx', hchan.symm, hle⟩
  · exact List.pairwise_cons.mpr (List.pairwise_cons.mp h.receivers)
  · refine List.forall_mem_cons.mpr ⟨⟨hrx.made, hlt, hrx.not_later⟩, fun rx' hrx' => ?_⟩
    exact h.reached rx' (List.mem_cons_of_mem _ hrx')
  · refine List.forall_mem_append.mpr ⟨h.arrived, fun a ha => ?_⟩
    obtain rfl := List.mem_singleton.mp ha
    exact ⟨hrx.made, hlt, hrx.not_later⟩

theorem Ordered.skipped {pushed : List Arrival} {rx : Receiver} {rest : List Receiver}
    (h : Ordered m p ⟨pushed, rx :: rest⟩) (hlost : rx.next < (m.channels rx.chan).oldest) :
    Ordered m p ⟨pushed, { rx with next := (m.channels rx.chan).oldest } :: rest⟩ := by
  have hrx := h.reached rx List.mem_cons_self
  refine ⟨h.pushed, fun a ha => List.forall_mem_cons.mpr ⟨?_, fun rx' hrx' => ?_⟩, ?_, ?_,
    h.arrived⟩
  · obtain hchan | ⟨hchan, hpos⟩ := h.before a ha rx List.mem_cons_self
    · exact Or.inl hchan
    · exact Or.inr ⟨hchan, hpos.trans hlost⟩
  · exact h.before a ha rx' (List.mem_cons_of_mem _ hrx')
  · exact List.pairwise_cons.mpr (List.pairwise_cons.mp h.receivers)
  · refine List.forall_mem_cons.mpr ⟨⟨hrx.made, Nat.sub_le _ _, hrx.not_later⟩, ?_⟩
    exact fun rx' hrx' => h.reached rx' (List.mem_cons_of_mem _ hrx')

/-- A new receiver starts behind everything that has arrived. -/
theorem Ordered.subscribed {pushed : List Arrival} {receivers : List Receiver} {op : OpenPort}
    (h : Ordered m p ⟨pushed, receivers⟩) (hop : m.ports.lookup p = some op) :
    Ordered m p ⟨pushed, receivers ++ [⟨op.tx, (m.channels op.tx).tail⟩]⟩ := by
  refine ⟨h.pushed, fun a ha => List.forall_mem_append.mpr ⟨h.before a ha, fun rx hrx => ?_⟩,
    ?_, List.forall_mem_append.mpr ⟨h.reached, fun rx hrx => ?_⟩, h.arrived⟩
  · obtain rfl := List.mem_singleton.mp hrx
    have harrived := h.arrived a ha
    obtain hchan | hchan := (harrived.not_later op hop).lt_or_eq
    · exact Or.inl hchan
    · exact Or.inr ⟨hchan, hchan ▸ harrived.le_tail⟩
  · refine List.pairwise_append.mpr
      ⟨h.receivers, List.pairwise_singleton _ _, fun rx hrx b hb => ?_⟩
    obtain rfl := List.mem_singleton.mp hb
    exact (h.reached rx hrx).not_later op hop
  · obtain rfl := List.mem_singleton.mp hrx
    refine ⟨m.tx_lt p op hop, le_rfl, fun op' hop' => ?_⟩
    obtain rfl := Option.some.inj (hop.symm.trans hop')
    exact le_rfl

/-- A step keeps the order unless two receivers overlap. -/
theorem Steps.ordered {receiving : Prop} (hsteps : Steps m p receiving x y) (h : Ordered m p x)
    (hclear : receiving → ¬ Overlaps m x) : Ordered m p y := by
  cases hsteps with
  | kept x y hpushed hreceivers => exact h.kept hpushed hreceivers
  | received pushed rx rest entry hreceiving hentry => exact h.received hentry (hclear hreceiving)
  | skipped pushed rx rest hlost => exact h.skipped hlost
  | subscribed pushed receivers op hop => exact h.subscribed hop

end RxLine

section Client

variable {m m' : SerialManager} {cl cl' : Client} {p : String}

/-- A command that does not subscribe brings nothing to the task. -/
theorem TaskMaps.lookup_apply (maps : TaskMaps) (cmd : RxSubCommand) (p : String) :
    (maps.apply cmd).rxReceivers.lookup p = cmd.rxOf p ∧ (cmd.rxOf p).isSome ∨
      cmd.rxOf p = none ∧ ((maps.apply cmd).rxReceivers.lookup p = none ∨
        (maps.apply cmd).rxReceivers.lookup p = maps.rxReceivers.lookup p) := by
  cases cmd with
  | subscribe port rx =>
      by_cases hp : p = port
      · subst hp
        exact Or.inl (by simp [apply, RxSubCommand.rxOf])
      · exact Or.inr ⟨by simp [RxSubCommand.rxOf, Ne.symm hp], Or.inr (by simp [apply, hp])⟩
  | unsubscribe port =>
      refine Or.inr ⟨rfl, ?_⟩
      rw [apply, Table.lookup_erase]
      split_ifs
      · exact Or.inl rfl
      · exact Or.inr rfl
  | addFilter port keywords rx => exact Or.inr ⟨rfl, Or.inr rfl⟩
  | removeFilter port => exact Or.inr ⟨rfl, Or.inr rfl⟩
  | setFilterKeywords port keywords =>
      refine Or.inr ⟨rfl, Or.inr ?_⟩
      rw [apply]
      split <;> rfl

/-- The commands that bring the receivers of one kind for a port. -/
structure Brings (p : String) (kind : RxSubCommand → Option Receiver) : Prop where
  subscribe : ∀ port rx, kind (.subscribe port rx) = none ∨
    port = p ∧ kind (.subscribe port rx) = some rx
  addFilter : ∀ port keywords rx, kind (.addFilter port keywords rx) = none ∨
    port = p ∧ kind (.addFilter port keywords rx) = some rx
  unsubscribe : ∀ port, kind (.unsubscribe port) = none
  removeFilter : ∀ port, kind (.removeFilter port) = none
  setFilterKeywords : ∀ port keywords, kind (.setFilterKeywords port keywords) = none

private theorem RxSubCommand.brings_rxOf (p : String) : Brings p (RxSubCommand.rxOf p) where
  subscribe port rx := by
    by_cases hp : port = p
    · exact Or.inr ⟨hp, by simp [rxOf, hp]⟩
    · exact Or.inl (by simp [rxOf, hp])
  addFilter port keywords rx := Or.inl rfl
  unsubscribe port := rfl
  removeFilter port := rfl
  setFilterKeywords port keywords := rfl

variable {kind : RxSubCommand → Option Receiver}

private theorem Dispatch.Begins.brings {s s' : ClientSession} {req : Request} {pc : Pc}
    (h : Begins m s req m' s' pc) (hkind : Brings p kind) : pc.unsent.filterMap kind = [] := by
  cases h with
  | closed port op resp hcmd hport hopen hok =>
      rw [unsent_closeSends, List.filterMap_append]
      split_ifs <;> simp [hkind.unsubscribe, hkind.removeFilter]
  | unsubscribed port success hcmd hport hmem => simp [Pc.unsent, hkind.unsubscribe]
  | extended port existing keywords success hcmd hport hkeywords hexisting =>
      simp [Pc.unsent, hkind.setFilterKeywords]
  | unfiltered port success existing hcmd hport hexisting =>
      simp [Pc.unsent, hkind.removeFilter]
  | _ => rfl

private theorem Client.pending_of_idle (hidle : cl.dispatch = none) :
    cl.pending.filterMap kind = cl.queue.filterMap kind := by
  simp [pending, unsent, hidle]

private theorem Client.pending_of_pc {req : Request} {pc : Pc}
    (hpc : cl.dispatch = some (req, pc)) :
    cl.pending.filterMap kind = cl.queue.filterMap kind ++ pc.unsent.filterMap kind := by
  simp [pending, unsent, hpc]

/-- A request that begins brings no receiver. -/
theorem Dispatch.Begins.line {s' : ClientSession} {req : Request} {pc : Pc}
    (h : Begins m cl.session req m' s' pc) (hidle : cl.dispatch = none) (hkind : Brings p kind) :
    (Client.pending { cl with session := s', dispatch := some (req, pc) }).filterMap kind =
      cl.pending.filterMap kind := by
  rw [Client.pending_of_idle hidle, Client.pending_of_pc rfl, h.brings hkind, List.append_nil]

/-- A command of the client only adds a receiver where it takes one. -/
theorem Client.Advances.line {req : Request} {pc : Pc} (h : cl.Advances m req pc cl')
    (hpc : cl.dispatch = some (req, pc)) (hkind : Brings p kind) (pushed : List Arrival)
    (slot : List Receiver) :
    RxLine.Steps m p False ⟨pushed, slot ++ cl.pending.filterMap kind⟩
      ⟨pushed, slot ++ cl'.pending.filterMap kind⟩ := by
  have hpending : cl.pending.filterMap kind = _ := Client.pending_of_pc hpc
  have hkept : ∀ {waiting : List Receiver}, waiting.Sublist (cl.pending.filterMap kind) →
      RxLine.Steps m p False ⟨pushed, slot ++ cl.pending.filterMap kind⟩
        ⟨pushed, slot ++ waiting⟩ :=
    fun hwaiting => .kept _ _ (List.Sublist.refl _) (hwaiting.append_left slot)
  cases h with
  | subscribed port success op hop =>
      obtain hnone | ⟨rfl, hsome⟩ := hkind.subscribe port ⟨op.tx, (m.channels op.tx).tail⟩
      · apply hkept
        rw [hpending, Client.pending_of_pc rfl]
        simp [Pc.unsent, hnone]
      · rw [hpending, Client.pending_of_pc rfl]
        simpa [Pc.unsent, hsome] using RxLine.Steps.subscribed pushed
          (slot ++ cl.queue.filterMap kind) op hop
  | filtered port keywords success op hop =>
      obtain hnone | ⟨rfl, hsome⟩ := hkind.addFilter port keywords ⟨op.tx, (m.channels op.tx).tail⟩
      · apply hkept
        rw [hpending, Client.pending_of_pc rfl]
        simp [Pc.unsent, hnone]
      · rw [hpending, Client.pending_of_pc rfl]
        simpa [Pc.unsent, hsome] using RxLine.Steps.subscribed pushed
          (slot ++ cl.queue.filterMap kind) op hop
  | drained port clear s hround hdrain => exact hkept (List.Sublist.refl _)
  | sent cmd success hlive =>
      apply hkept
      rw [hpending, Client.pending_of_pc rfl]
      simp [Pc.unsent, List.filterMap_cons]
  | told cmd next hlive =>
      apply hkept
      rw [hpending, Client.pending_of_pc rfl, List.filterMap_append, List.append_assoc,
        ← List.filterMap_append]
      exact List.Sublist.refl _
  | ignored cmd next hended =>
      apply hkept
      rw [hpending, Client.pending_of_pc rfl]
      exact ((List.sublist_cons_self cmd next.unsent).filterMap _).append_left _
  | wrote resp =>
      apply hkept
      rw [hpending, Client.pending_of_idle rfl]
      exact List.sublist_append_left _ _
  | _ =>
      apply hkept
      rw [hpending, Client.pending_of_pc rfl]
      exact (List.nil_sublist _).append_left _

private theorem Client.Advances.rxPushes_eq {req : Request} {pc : Pc}
    (h : cl.Advances m req pc cl') : rxPushes p cl'.written = rxPushes p cl.written := by
  cases h with
  | wrote resp => exact rxPushes_answered _ _ _ _
  | _ => rfl

theorem Client.Advances.rxLine {req : Request} {pc : Pc} (h : cl.Advances m req pc cl')
    (hpc : cl.dispatch = some (req, pc)) :
    RxLine.Steps m p False (cl.rxLine p) (cl'.rxLine p) := by
  have hline := h.line hpc (RxSubCommand.brings_rxOf p)
    (rxPushes p cl.written ++ (cl.task.rx p).inHand) (cl.task.rx p).slot.toList
  rw [Client.rxLine, Client.rxLine, h.task_eq, h.rxPushes_eq]
  exact hline

theorem Dispatch.Begins.rxLine {s' : ClientSession} {req : Request} {pc : Pc}
    (h : Begins m cl.session req m' s' pc) (hidle : cl.dispatch = none) :
    Client.rxLine { cl with session := s', dispatch := some (req, pc) } p = cl.rxLine p := by
  have hline := h.line hidle (RxSubCommand.brings_rxOf p)
  simp only [Client.rxLine, Client.waiting, hline]

theorem RxState.Polls.rxLine {polling : Prop} {v v' : RxState} {emitted : List Arrival}
    (h : v.Polls m polling v' emitted) (pushes : List Arrival) (waiting : List Receiver) :
    RxLine.Steps m p (polling ∧ v.slot.isSome) ⟨pushes ++ v.inHand, v.slot.toList ++ waiting⟩
      ⟨pushes ++ (emitted ++ v'.inHand), v'.slot.toList ++ waiting⟩ := by
  cases h with
  | received rx entry noticed hpolling hentry hheld =>
      rw [List.nil_append, List.append_nil]
      exact .received pushes rx waiting entry ⟨hpolling, rfl⟩ hentry
  | lagged rx noticed hpolling hlost => simpa using RxLine.Steps.skipped pushes rx waiting hlost
  | dropped slot => exact .kept _ _ (List.Sublist.refl _) (List.sublist_append_right _ _)
  | _ => exact .kept _ _ (List.Sublist.refl _) (List.Sublist.refl _)

/-- A step of the task either receives for the port, or drops what there is. -/
theorem Client.rxLine_streamed {order : List String} {writeOk : Bool} {task : StreamTask}
    {queue : List RxSubCommand} {lines : List Push}
    (h : cl.task.step m cl.queue order writeOk = some (task, queue, lines)) :
    RxLine.Steps m p (cl.task.polls p ∧ (cl.task.rx p).slot.isSome) (cl.rxLine p)
      ({ cl with
        task := task, queue := queue,
        written := cl.written ++ lines.map Outgoing.push }.rxLine p) := by
  obtain ⟨⟨-, ⟨cmd, hqueue, hmaps⟩, hhand, hhand', -, -⟩, rfl⟩ | ⟨rfl, hpolls⟩ |
    ⟨-, rfl, rfl, rfl⟩ :=
    StreamTask.step_polls (p := p) h
  · replace hmaps : task.maps = cl.task.maps.apply cmd := hmaps
    refine .kept _ _ ?_ ?_
    · simp only [rxLine, hhand, hhand', List.map_nil, List.append_nil]
      exact List.Sublist.refl _
    · simp only [rxLine, waiting, pending, unsent, hqueue, StreamTask.rx, hmaps, List.cons_append,
        List.filterMap_cons]
      obtain ⟨hslot, hsome⟩ | ⟨hnone, hslot | hslot⟩ := cl.task.maps.lookup_apply cmd p
      · obtain ⟨rx, hrx⟩ := Option.isSome_iff_exists.mp hsome
        rw [hslot, hrx]
        exact List.sublist_append_right _ _
      · rw [hslot, hnone]
        exact List.sublist_append_right _ _
      · rw [hslot, hnone]
  · have hline := hpolls.rxLine (p := p) (rxPushes p cl.written) (cl.waiting p)
    rw [← List.append_assoc, ← rxPushes_pushed] at hline
    exact hline
  · refine .kept _ _ ?_ ?_
    · simp only [rxLine, List.map_nil, List.append_nil]
      exact (List.nil_sublist _).append_left _
    · simp only [rxLine, waiting, pending, unsent, List.nil_append, List.filterMap_append]
      exact (List.sublist_append_right _ _).trans (List.sublist_append_right _ _)

end Client

/-- The task is about to receive an entry of `p` that arrived after a subscription
of `p` that it has not taken out of its queue. -/
def Client.overlaps (cl : Client) (m : SerialManager) (p : String) : Bool :=
  cl.task.polls p && (cl.task.maps.rxReceivers.lookup p).any fun rx =>
    rx.next < (m.channels rx.chan).tail &&
      (cl.waiting p).any fun rx' => rx'.chan = rx.chan && rx'.next ≤ rx.next

/-- The same, at a step of the task of `c`. -/
def World.overlaps (c : ClientId) (p : String) (w : World) : Event → Bool
  | .client d (.task _ _) => d = c && (w.clients c).any fun cl => cl.overlaps w.serial p
  | _ => false

private theorem Client.overlaps_iff {cl : Client} {m : SerialManager} {p : String} :
    cl.overlaps m p = true ↔ cl.task.polls p = true ∧
      ∃ rx, cl.task.maps.rxReceivers.lookup p = some rx ∧ rx.next < (m.channels rx.chan).tail ∧
        ∃ rx' ∈ cl.waiting p, rx'.chan = rx.chan ∧ rx'.next ≤ rx.next := by
  simp [overlaps, Option.any_eq_true]

/-- The task receives only where the condition looks. -/
theorem Client.overlaps_of_polls {cl : Client} {m : SerialManager} {p : String}
    (hpolls : cl.task.polls p ∧ (cl.task.rx p).slot.isSome)
    (hoverlaps : RxLine.Overlaps m (cl.rxLine p)) : cl.overlaps m p = true := by
  obtain ⟨rx, hslot⟩ := Option.isSome_iff_exists.mp hpolls.2
  obtain ⟨first, rest, hfirst, hlt, rx', hrx', hchan, hle⟩ := hoverlaps
  rw [rxLine, hslot] at hfirst
  obtain ⟨rfl, rfl⟩ := List.cons.inj hfirst
  exact overlaps_iff.mpr ⟨hpolls.1, rx, hslot, hlt, rx', hrx', hchan, hle⟩

theorem Client.rxLine_new (p : String) : Client.new.rxLine p = ⟨[], []⟩ := rfl

theorem Client.rxLine_disconnect (cl : Client) (p : String) :
    cl.disconnect.rxLine p = ⟨rxPushes p cl.written, []⟩ := by
  rw [rxLine, waiting, pending_of_idle rfl]
  exact congrArg (RxLine.mk · []) (List.append_nil _)

/-- The receivers of a client's port are in order as long as none overlap. -/
theorem rxLine_ordered {c : ClientId} {p : String} {es : List Event} {w : World}
    (hrun : daemon.run es = some w)
    (halong : daemon.Along (fun w e _ => w.overlaps c p e = false) daemon.init es)
    {cl : Client} (hclient : w.clients c = some cl) :
    RxLine.Ordered w.serial p (cl.rxLine p) := by
  refine daemon.run_history (P := fun es w =>
    daemon.Along (fun w e _ => w.overlaps c p e = false) daemon.init es →
      ∀ cl, w.clients c = some cl → RxLine.Ordered w.serial p (cl.rxLine p))
    ?_ ?_ hrun halong cl hclient
  · intro _ cl hcl
    simp [daemon] at hcl
  · intro es w e w' hes ih hstep halong cl' hcl'
    obtain ⟨hbefore, hlast⟩ := (daemon.along_append hes).mp halong
    have hclear : w.overlaps c p e = false := (hlast w' hstep).1
    have hseen := World.step_seen hstep c
    have hchanges := hseen.changes
    cases hseen with
    | joined he hclient hclient' hserial =>
        obtain rfl := Option.some.inj (hclient'.symm.trans hcl')
        exact Client.rxLine_new p ▸ RxLine.ordered_nil
    | left cl he hclient hidle hclient' hserial =>
        obtain rfl := Option.some.inj (hclient'.symm.trans hcl')
        rw [Client.rxLine_disconnect]
        exact ((ih hbefore cl hclient).changes hchanges).kept (List.sublist_append_left _ _)
          (List.nil_sublist _)
    | own cl cl'' ce he hclient hconnected hsteps hclient' =>
        obtain rfl := Option.some.inj (hclient'.symm.trans hcl')
        have hordered := ih hbefore cl hclient
        refine RxLine.Ordered.changes ?_ hchanges
        cases ce with
        | request req env =>
            cases hsteps with
            | began req env m' s' pc hidle hbegins =>
                rw [hbegins.rxLine hidle]
                exact hordered
        | dispatch =>
            generalize w'.serial = m' at hsteps
            cases hsteps with
            | advanced req pc cl' hpc hadvances =>
                exact (hadvances.rxLine hpc).ordered hordered False.elim
        | task order writeOk =>
            subst he
            obtain ⟨task, queue, lines, htask, rfl⟩ := World.step_task hstep hclient hcl'
            apply (Client.rxLine_streamed htask).ordered hordered
            intro hpolls hoverlaps
            have hoverlaps' := Client.overlaps_of_polls hpolls hoverlaps
            simp [World.overlaps, hclient, hoverlaps'] at hclear
    | elsewhere hsame hchanges hevent => exact (ih hbefore cl' (hsame ▸ hcl')).changes hchanges

/-- At most one push for an entry. In every run in which the streaming task
never receives an entry of `p` that a waiting subscription will receive too, the
entries of `p` that are pushed to the client are all different and in the order
of their arrival. -/
theorem pushed_once_in_order {c : ClientId} {p : String} {es : List Event} {w : World}
    (hrun : daemon.run es = some w)
    (halong : daemon.Along (fun w e _ => w.overlaps c p e = false) daemon.init es)
    {cl : Client} (hclient : w.clients c = some cl) :
    (rxPushes p cl.written).Nodup ∧ (rxPushes p cl.written).Pairwise Arrival.Precedes := by
  have hpairwise := (List.pairwise_append.mp (rxLine_ordered hrun halong hclient).pushed).1
  refine ⟨hpairwise.imp fun {a b} hab => ?_, hpairwise⟩
  rintro rfl
  obtain hchan | ⟨-, hpos⟩ := hab
  · exact lt_irrefl _ hchan
  · exact lt_irrefl _ hpos

/-- A port is opened and subscribed, and the task takes the subscription. -/
def subscribedOnce : List Event := queuedSubscription ++ [stream 0 [], stream 0 ["P"]]

/-- An entry that arrives then. -/
def pushedOnce : List Event :=
  subscribedOnce ++ [.deliver 0 ⟨"12:00:00", [0x6F, 0x6B]⟩, stream 0 [], stream 0 []]

private theorem pushedOnce_pushed : (daemon.run pushedOnce).any (fun w =>
    (w.clients 0).any fun cl => (rxPushes "P" cl.written).length == 1) = true := by
  decide +kernel

/-- The theorem for a single subscription. -/
theorem pushed_once_single : ∃ w cl, daemon.run pushedOnce = some w ∧
    daemon.Along (fun w e _ => w.overlaps 0 "P" e = false) daemon.init pushedOnce ∧
    w.clients 0 = some cl ∧ (rxPushes "P" cl.written).length = 1 ∧
    (rxPushes "P" cl.written).Nodup ∧ (rxPushes "P" cl.written).Pairwise Arrival.Precedes := by
  have halong : daemon.Along (fun w e _ => w.overlaps 0 "P" e = false) daemon.init pushedOnce := by
    decide +kernel
  obtain ⟨w, hw, hany⟩ := (Option.any_eq_true _ _).mp pushedOnce_pushed
  obtain ⟨cl, hcl, hlength⟩ := (Option.any_eq_true _ _).mp hany
  exact ⟨w, cl, hw, halong, hcl, by simpa using hlength, pushed_once_in_order hw halong hcl⟩

/-- A step that closes a port. -/
def World.closes (p : String) (w w' : World) : Bool :=
  (w.serial.ports.lookup p).isSome && (w'.serial.ports.lookup p).isNone

/-- During a pass the client unsubscribes and subscribes again, and then an entry
arrives. The pass receives it with the older receiver, and the next one with the
newer. -/
def pushedTwice : List Event :=
  subscribedOnce ++ issue 0 (portRequest "unsubscribe_rx" "P") 2 ++
    issue 0 (portRequest "subscribe_rx" "P") 3 ++ [.deliver 0 ⟨"12:00:00", [0x6F, 0x6B]⟩] ++
    List.replicate 7 (stream 0 []) ++ [stream 0 ["P"], stream 0 [], stream 0 []]

private theorem pushedTwice_pushed : (daemon.run pushedTwice).any (fun w =>
    (w.clients 0).any fun cl => !decide (rxPushes "P" cl.written).Nodup) = true := by
  decide +kernel

/-- An entry can be pushed twice, though the port is never closed. -/
theorem pushed_not_always_once :
    ¬ ∀ (c : ClientId) (p : String) (es : List Event) (w : World) (cl : Client),
      daemon.run es = some w →
      daemon.Along (fun w _ w' => w.closes p w' = false) daemon.init es →
      w.clients c = some cl →
        (rxPushes p cl.written).Nodup ∧ (rxPushes p cl.written).Pairwise Arrival.Precedes := by
  intro hordered
  have hopen : daemon.Along (fun w _ w' => w.closes "P" w' = false) daemon.init pushedTwice := by
    decide +kernel
  obtain ⟨w, hw, hany⟩ := (Option.any_eq_true _ _).mp pushedTwice_pushed
  obtain ⟨cl, hcl, htwice⟩ := (Option.any_eq_true _ _).mp hany
  have honce := (hordered 0 "P" pushedTwice w cl hw hopen hcl).1
  simp [honce] at htwice

end Commmon

/-
# Where the entries of a client come from

An entry goes a long way to a client: over a broadcast channel, into a buffer or through
the hands of a streaming task, past receivers that are made, replaced and dropped while
ports are closed and opened again. Whatever happens on the way, what a client is given
for a port was delivered by the port's own device, with the bytes that it was delivered
with.
-/

import Commmon.PushOrder
import Commmon.ReadLog

set_option autoImplicit false

namespace Commmon

open Broadcast

/-- The entry that an event delivers on a channel. -/
def Event.deliveredOn (k : ChannelId) : Event → Option RxEntry
  | .deliver k' entry => if k' = k then some entry else none
  | _ => none

def deliveries (k : ChannelId) (es : List Event) : List RxEntry :=
  es.filterMap (Event.deliveredOn k)

private theorem deliveries_snoc (k : ChannelId) (es : List Event) (e : Event) :
    deliveries k (es ++ [e]) = deliveries k es ++ (e.deliveredOn k).toList := by
  rw [deliveries, List.filterMap_append, ← deliveries]
  cases h : e.deliveredOn k <;> simp [h]

/-- At some point of the run the channel was that of the port. -/
def OpenedAs (es : List Event) (p : String) (k : ChannelId) : Prop :=
  ∃ before w op, before <+: es ∧ daemon.run before = some w ∧
    w.serial.ports.lookup p = some op ∧ op.tx = k

theorem OpenedAs.later {es : List Event} {p : String} {k : ChannelId} (h : OpenedAs es p k)
    (more : List Event) : OpenedAs (es ++ more) p k := by
  obtain ⟨before, w, op, hbefore, hrun, hop, htx⟩ := h
  exact ⟨before, w, op, hbefore.trans (List.prefix_append _ _), hrun, hop, htx⟩

theorem OpenedAs.now {es : List Event} {w : World} (hrun : daemon.run es = some w) {p : String}
    {op : OpenPort} (hop : w.serial.ports.lookup p = some op) : OpenedAs es p op.tx :=
  ⟨es, w, op, List.prefix_refl _, hrun, hop, rfl⟩

private theorem openedAs_snoc {es : List Event} {e : Event} {w : World}
    (hrun : daemon.run (es ++ [e]) = some w) {p : String} {k : ChannelId}
    (h : OpenedAs (es ++ [e]) p k) :
    OpenedAs es p k ∨ ∃ op, w.serial.ports.lookup p = some op ∧ op.tx = k := by
  obtain ⟨before, w', op, hbefore, hrun', hop, htx⟩ := h
  rcases List.prefix_concat_iff.mp hbefore with rfl | hshort
  · obtain rfl := Option.some.inj (hrun'.symm.trans hrun)
    exact Or.inr ⟨op, hop, htx⟩
  · exact Or.inl ⟨before, w', op, hshort, hrun', hop, htx⟩

/-- A channel is of one port. It is made when a port is opened, and never again. -/
theorem openedAs_unique {es : List Event} {w : World} (hrun : daemon.run es = some w) :
    (∀ p k, OpenedAs es p k → k < w.serial.fresh) ∧
      ∀ p q k, OpenedAs es p k → OpenedAs es q k → p = q := by
  refine daemon.run_history (P := fun es w => (∀ p k, OpenedAs es p k → k < w.serial.fresh) ∧
    ∀ p q k, OpenedAs es p k → OpenedAs es q k → p = q) ?_ ?_ hrun
  · have hnone : ∀ p k, ¬ OpenedAs [] p k := by
      rintro p k ⟨before, w, op, hbefore, hrun, hop, -⟩
      obtain rfl := List.prefix_nil.mp hbefore
      obtain rfl := Option.some.inj hrun
      simp [daemon, SerialManager.new] at hop
    exact ⟨fun p k h => absurd h (hnone p k), fun p q k h => absurd h (hnone p k)⟩
  · intro es w e w' hes ih hstep
    obtain ⟨hlt, hone⟩ := ih
    have hrun' : daemon.run (es ++ [e]) = some w' := daemon.run_snoc_eq_some.mpr ⟨w, hes, hstep⟩
    have hchanges := (World.step_seen hstep 0).changes
    -- What is open now was open before, or has a channel that was not there.
    have hfrom : ∀ p k, OpenedAs (es ++ [e]) p k → OpenedAs es p k ∨
        k = w.serial.fresh ∧ ∃ op, w'.serial.ports.lookup p = some op ∧ op.tx = k := by
      intro p k h
      obtain hold | ⟨op, hop, htx⟩ := openedAs_snoc hrun' h
      · exact Or.inl hold
      · obtain ⟨hsame, -⟩ | ⟨-, ⟨op', hop', htx'⟩, -⟩ | ⟨-, hnone, -⟩ := hchanges.lookup_ports p
        · exact Or.inl (htx ▸ .now hes (hsame ▸ hop))
        · obtain rfl := Option.some.inj (hop'.symm.trans hop)
          exact Or.inr ⟨htx.symm.trans htx', op', hop, htx⟩
        · exact absurd (hnone.symm.trans hop) (by simp)
    refine ⟨fun p k h => ?_, fun p q k hp hq => ?_⟩
    · obtain hold | ⟨-, op, hop, rfl⟩ := hfrom p k h
      · exact Nat.lt_of_lt_of_le (hlt p k hold) hchanges.later.fresh_le
      · exact w'.serial.tx_lt p op hop
    · obtain hp | ⟨hk, op, hop, htx⟩ := hfrom p k hp <;>
        obtain hq | ⟨hk', op', hop', htx'⟩ := hfrom q k hq
      · exact hone p q k hp hq
      · exact absurd hk' (Nat.ne_of_lt (hlt p k hp))
      · exact absurd hk (Nat.ne_of_lt (hlt q k hq))
      · exact w'.serial.tx_inj p q op op' hop hop' (htx.trans htx'.symm)

/-- What the channels hold is what has been delivered; the ones not made yet are unused. -/
structure SerialManager.Holds (m : SerialManager) (es : List Event) : Prop where
  sent : ∀ k, (m.channels k).sent = deliveries k es
  unused : ∀ k, m.fresh ≤ k → (m.channels k).sent = [] ∧ m.readTasks k = .ended

namespace SerialManager.Holds

variable {m : SerialManager} {es : List Event}

theorem insertPort (h : m.Holds es) (port : String) (config : PortConfig) :
    (m.insertPort port config).Holds es where
  sent k := by
    by_cases hk : k = m.fresh
    · subst hk
      rw [← h.sent, (h.unused _ le_rfl).1]
      simp [SerialManager.insertPort, Channel.new]
    · rw [← h.sent]
      simp [SerialManager.insertPort, hk]
  unused k hk := by
    have hne : k ≠ m.fresh := (Nat.ne_of_lt hk).symm
    have hle : m.fresh ≤ k := Nat.le_of_succ_le hk
    simpa [SerialManager.insertPort, hne] using h.unused k hle

theorem removePort (h : m.Holds es) {port : String} {op : OpenPort}
    (hop : m.ports.lookup port = some op) : (m.removePort port op).Holds es where
  sent k := by
    rw [← h.sent]
    by_cases hk : k = op.tx
    · simp [SerialManager.removePort, hk]
    · simp [SerialManager.removePort, hk]
  unused k hk := by
    have hne : k ≠ op.tx := (Nat.ne_of_lt (Nat.lt_of_lt_of_le (m.tx_lt port op hop) hk)).symm
    simpa [SerialManager.removePort, hne] using h.unused k hk

theorem begins {m' : SerialManager} {s s' : ClientSession} {req : Request} {pc : Pc}
    (h : m.Holds es) (hbegins : Dispatch.Begins m s req m' s' pc) : m'.Holds es := by
  cases hbegins with
  | opened port resp hcmd hport hclosed hok => exact h.insertPort _ _
  | closed port op resp hcmd hport hopen hok => exact h.removePort hopen
  | _ => exact h

end SerialManager.Holds

theorem Client.Steps.holds {m m' : SerialManager} {cl cl' : Client} {ce : ClientEvent}
    {es : List Event} (hsteps : cl.Steps m ce m' cl') (h : m.Holds es) : m'.Holds es := by
  cases hsteps with
  | began req env m' s' pc hidle hbegins => exact h.begins hbegins
  | advanced req pc cl' hpc hadvances => exact h
  | streamed order writeOk task queue lines hrunning hmoves => exact h

/-- A step that delivers nothing. -/
theorem SerialManager.Holds.quiet {m : SerialManager} {es : List Event} {e : Event}
    (h : m.Holds es) (hquiet : ∀ k, e.deliveredOn k = none) : m.Holds (es ++ [e]) where
  sent k := by
    rw [deliveries_snoc, hquiet, h.sent]
    exact (List.append_nil _).symm
  unused := h.unused

private theorem World.step_holds {w w' : World} {e : Event} (hstep : w.step e = some w')
    {es : List Event} (h : w.serial.Holds es) : w'.serial.Holds (es ++ [e]) := by
  cases e with
  | connect c =>
      simp only [step] at hstep
      split at hstep
      · cases hstep
      · exact Option.some.inj hstep ▸ h.quiet fun k => rfl
  | disconnect c =>
      simp only [step] at hstep
      split at hstep
      · split_ifs at hstep
        exact Option.some.inj hstep ▸ h.quiet fun k => rfl
      · cases hstep
  | client c ce =>
      simp only [step] at hstep
      split at hstep
      · split_ifs at hstep
        obtain ⟨r, hr, rfl⟩ := Option.map_eq_some_iff.mp hstep
        refine SerialManager.Holds.quiet ?_ fun k => rfl
        exact (Client.step_steps hr).holds h
      · cases hstep
  | deliver k entry =>
      obtain ⟨m, hm, rfl⟩ := Option.map_eq_some_iff.mp hstep
      have hlive : w.serial.readTasks k ≠ .ended := by
        unfold SerialManager.deliver at hm
        split_ifs at hm with hlive
        exact hlive.1
      obtain rfl := SerialManager.deliver_eq_some hm
      refine ⟨fun k' => ?_, fun k' hk' => ?_⟩
      · rw [deliveries_snoc, ← h.sent]
        by_cases hk : k' = k
        · simp [hk, Event.deliveredOn]
        · simp [hk, Ne.symm hk, Event.deliveredOn]
      · have hne : k' ≠ k := fun hk => hlive (hk ▸ (h.unused k' hk').2)
        simpa [hne] using h.unused k' hk'
  | endReadTask k =>
      obtain ⟨m, hm, rfl⟩ := Option.map_eq_some_iff.mp hstep
      unfold SerialManager.endReadTask at hm
      split_ifs at hm
      obtain rfl := Option.some.inj hm
      refine SerialManager.Holds.quiet ⟨fun k' => ?_, fun k' hk' => ?_⟩ fun k => rfl
      · rw [← h.sent]
        by_cases hk : k' = k
        · simp [hk]
        · simp [hk]
      · have hunused := h.unused k' hk'
        by_cases hk : k' = k
        · subst hk
          simpa using hunused.1
        · simpa [hk] using hunused

private theorem holds_of_run {es : List Event} {w : World} (hrun : daemon.run es = some w) :
    w.serial.Holds es := by
  refine daemon.run_history (P := fun es w => w.serial.Holds es) ?_ ?_ hrun
  · exact ⟨fun k => rfl, fun k _ => ⟨rfl, rfl⟩⟩
  · exact fun es w e w' hes ih hstep => World.step_holds hstep ih

/-- The entry was delivered by the device of the port, at its place. -/
structure Arrival.From (a : Arrival) (p : String) (es : List Event) : Prop where
  opened : OpenedAs es p a.chan
  delivered : (deliveries a.chan es)[a.pos]? = some a.entry

theorem Arrival.From.later {a : Arrival} {p : String} {es : List Event} (h : a.From p es)
    (e : Event) : a.From p (es ++ [e]) where
  opened := h.opened.later [e]
  delivered := by
    rw [deliveries_snoc, List.getElem?_append_left (List.getElem?_eq_some_iff.mp h.delivered).1]
    exact h.delivered

theorem Arrival.From.more {a : Arrival} {p : String} {es : List Event} (h : a.From p es)
    (fs : List Event) : a.From p (es ++ fs) := by
  induction fs using List.reverseRecOn with
  | nil => rwa [List.append_nil]
  | append_singleton fs e ih =>
      rw [← List.append_assoc]
      exact ih.later e

section

variable {es : List Event} {w : World} {p : String}

/-- What a receiver of the port receives. -/
theorem Arrival.from_received (hrun : daemon.run es = some w) {rx : Receiver} {entry : RxEntry}
    (hopened : OpenedAs es p rx.chan)
    (hentry : (w.serial.channels rx.chan).sent[rx.next]? = some entry) :
    Arrival.From ⟨rx.chan, rx.next, entry⟩ p es := by
  refine ⟨hopened, ?_⟩
  rw [← (holds_of_run hrun).sent]
  exact hentry

/-- The receivers of a port are of the port, and so is what they have received. -/
structure RxLine.Sourced (es : List Event) (p : String) (x : RxLine) : Prop where
  receivers : ∀ rx ∈ x.receivers, OpenedAs es p rx.chan
  pushed : ∀ a ∈ x.pushed, a.From p es

theorem RxLine.Sourced.later {x : RxLine} (h : x.Sourced es p) (e : Event) :
    x.Sourced (es ++ [e]) p :=
  ⟨fun rx hrx => (h.receivers rx hrx).later [e], fun a ha => (h.pushed a ha).later e⟩

private theorem RxLine.Steps.sourced {receiving : Prop} {x y : RxLine}
    (hsteps : RxLine.Steps w.serial p receiving x y) (hrun : daemon.run es = some w)
    (h : x.Sourced es p) : y.Sourced es p := by
  cases hsteps with
  | kept x y hpushed hreceivers =>
      exact ⟨fun rx hrx => h.receivers rx (hreceivers.subset hrx),
        fun a ha => h.pushed a (hpushed.subset ha)⟩
  | received pushed rx rest entry hreceiving hentry =>
      obtain ⟨hrx, hrest⟩ := List.forall_mem_cons.mp h.receivers
      refine ⟨List.forall_mem_cons.mpr ⟨hrx, hrest⟩, List.forall_mem_append.mpr ⟨h.pushed, ?_⟩⟩
      exact List.forall_mem_singleton.mpr (Arrival.from_received hrun hrx hentry)
  | skipped pushed rx rest hlost =>
      exact ⟨List.forall_mem_cons.mpr (List.forall_mem_cons.mp h.receivers), h.pushed⟩
  | subscribed pushed receivers op hop =>
      refine ⟨List.forall_mem_append.mpr ⟨h.receivers, ?_⟩, h.pushed⟩
      exact List.forall_mem_singleton.mpr (.now hrun hop)

private theorem rxLine_sourced (hrun : daemon.run es = some w) {c : ClientId} {cl : Client}
    (hclient : w.clients c = some cl) : (cl.rxLine p).Sourced es p := by
  refine client_history (P := fun es _ cl => (cl.rxLine p).Sourced es p) ?_ ?_ ?_ ?_ hrun hclient
  · intro es w
    rw [Client.rxLine_new]
    exact ⟨by simp, by simp⟩
  · intro es w w' cl hidle ih
    rw [Client.rxLine_disconnect]
    refine ⟨by simp, fun a ha => (ih.pushed a ?_).later _⟩
    exact List.mem_append_left _ ha
  · intro es w w' cl cl' ce hes hstep hclient hclient' _ hsteps ih
    refine RxLine.Sourced.later ?_ _
    cases ce with
    | request req env =>
        generalize w'.serial = m' at hsteps
        cases hsteps with
        | began req env m' s' pc hidle hbegins => exact hbegins.rxLine hidle ▸ ih
    | dispatch =>
        generalize w'.serial = m' at hsteps
        cases hsteps with
        | advanced req pc cl' hpc hadvances => exact (hadvances.rxLine hpc).sourced hes ih
    | task order writeOk =>
        obtain ⟨task, queue, lines, htask, rfl⟩ := World.step_task hstep hclient hclient'
        exact (Client.rxLine_streamed htask).sourced hes ih
  · exact fun es w w' e cl _ _ _ _ _ ih => ih.later e

/-- The receiver of a port, what is buffered of it and what has been read of it. -/
structure Client.Sourced (es : List Event) (p : String) (cl : Client) : Prop where
  receiver : ∀ rx, cl.session.receivers.lookup p = some rx → OpenedAs es p rx.chan
  buffered : ∀ a ∈ cl.session.buffer p, a.From p es
  read : ∀ r ∈ cl.returns, ∀ L, readOf p r = some L → ∀ a ∈ L, a.From p es

theorem Client.Sourced.later {cl : Client} (h : cl.Sourced es p) (e : Event) :
    cl.Sourced (es ++ [e]) p :=
  ⟨fun rx hrx => (h.receiver rx hrx).later [e], fun a ha => (h.buffered a ha).later e,
    fun r hr L hL a ha => (h.read r hr L hL a ha).later e⟩

private theorem Fetches.sourced {rx rx' : Option Receiver} {b b' : List Arrival}
    (h : Fetches w.serial p rx b rx' b') (hrun : daemon.run es = some w)
    (hrx : ∀ r, rx = some r → OpenedAs es p r.chan) (hb : ∀ a ∈ b, a.From p es) :
    (∀ r, rx' = some r → OpenedAs es p r.chan) ∧ ∀ a ∈ b', a.From p es := by
  cases h with
  | same => exact ⟨hrx, hb⟩
  | attached op b hop =>
      refine ⟨fun r hr => ?_, by simp⟩
      obtain rfl := Option.some.inj hr
      exact .now hrun hop
  | stored r b entry hentry =>
      have hopened := hrx r rfl
      refine ⟨fun r' hr' => ?_, fun a ha => ?_⟩
      · obtain rfl := Option.some.inj hr'
        exact hopened
      · obtain ha | rfl := Window.mem_of_mem_push ha
        · exact hb a ha
        · exact Arrival.from_received hrun hopened hentry

private theorem Client.PortStep.sourced {cl cl' : Client} (hstep : cl.PortStep w.serial p cl')
    (hrun : daemon.run es = some w) (h : cl.Sourced es p) : cl'.Sourced es p := by
  cases hstep with
  | kept rs hfetches hreturns hother =>
      obtain ⟨hrx, hb⟩ := hfetches.sourced hrun h.receiver h.buffered
      refine ⟨hrx, hb, fun r hr L hL => ?_⟩
      rw [hreturns] at hr
      obtain hr | hr := List.mem_append.mp hr
      · exact h.read r hr L hL
      · exact absurd hL (by simp [hother r hr])
  | forgot r hpc hcloses hreturns hrx hbuffer =>
      refine ⟨by simp [hrx], by simp [hbuffer], fun r' hr' L hL => ?_⟩
      rw [hreturns] at hr'
      obtain hr' | hr' := List.mem_append.mp hr'
      · exact h.read r' hr' L hL
      · obtain rfl := List.mem_singleton.mp hr'
        have hcmd : r'.1.cmd ≠ "read_port" := by
          rw [hcloses.1]
          decide
        exact absurd hL (by simp [readOf_eq_none_of_cmd hcmd])
  | read r rx next hrx hstops hrx' hread hbuffer hreturns =>
      refine ⟨fun rx' hlookup => ?_, fun a ha => ?_, fun r' hr' L hL => ?_⟩
      · obtain rfl := Option.some.inj (hrx'.symm.trans hlookup)
        exact h.receiver rx hrx
      · rw [hbuffer] at ha
        split_ifs at ha
        · cases ha
        · exact h.buffered a ha
      · rw [hreturns] at hr'
        obtain hr' | hr' := List.mem_append.mp hr'
        · exact h.read r' hr' L hL
        · obtain rfl := List.mem_singleton.mp hr'
          obtain rfl := Option.some.inj (hread.symm.trans hL)
          exact h.buffered

theorem client_sourced (hrun : daemon.run es = some w) {c : ClientId} {cl : Client}
    (hclient : w.clients c = some cl) : cl.Sourced es p := by
  refine client_history (P := fun es _ cl => cl.Sourced es p) ?_ ?_ ?_ ?_ hrun hclient
  · intro es w
    exact ⟨by simp [Client.new, ClientSession.new], by simp [Client.new, ClientSession.new,
      ClientSession.buffer], by simp [Client.new, Client.returns]⟩
  · intro es w w' cl hidle ih
    have hreturns : cl.disconnect.returns = cl.returns := by
      rw [Client.returns_of_idle hidle]
      exact Client.returns_of_idle rfl
    refine Client.Sourced.later ⟨?_, ?_, ?_⟩ _
    · simp [Client.disconnect, ClientSession.new]
    · simp [Client.disconnect, ClientSession.new, ClientSession.buffer]
    · rw [hreturns]
      exact ih.read
  · intro es w w' cl cl' ce hes _ hclient _ _ hsteps ih
    have hfits : ∀ req pc, cl.dispatch = some (req, pc) → pc.Fits req :=
      fun req pc hpc => fits_of_run hes hclient hpc
    exact ((hsteps.portStep hfits p).sourced hes ih).later _
  · exact fun es w w' e cl _ _ _ _ _ ih => ih.later e

/-- Nothing a client is given is made up. In every run, each entry that a client has
read of a port or has been pushed for it was delivered by the device of that port, in this
place and with these bytes; and no entry is from two ports. -/
theorem entries_delivered (hrun : daemon.run es = some w) {c : ClientId} {cl : Client}
    (hclient : w.clients c = some cl) (p : String) :
    (∀ r ∈ cl.returns, ∀ L, readOf p r = some L → ∀ a ∈ L, a.From p es) ∧
      (∀ a ∈ rxPushes p cl.written, a.From p es) ∧
      ∀ (a : Arrival) (q : String), a.From p es → a.From q es → p = q :=
  ⟨(client_sourced hrun hclient).read,
    fun a ha => (rxLine_sourced hrun hclient).pushed a (List.mem_append_left _ ha),
    fun a q hp hq => (openedAs_unique hrun).2 p q a.chan hp.opened hq.opened⟩

end

/-- The pushed entry is also read. -/
def pushedThenRead : List Event := pushedOnce ++ issue 0 (readRequest "P" true) 4

private theorem pushedThenRead_given : (daemon.run pushedThenRead).any (fun w =>
    (w.clients 0).any fun cl => (rxPushes "P" cl.written).length == 1 &&
      (cl.returns.filterMap (readOf "P")).flatten.length == 1) = true := by
  decide +kernel

theorem entries_delivered_once : ∃ w cl, daemon.run pushedThenRead = some w ∧
    w.clients 0 = some cl ∧ (rxPushes "P" cl.written).length = 1 ∧
    (∀ a ∈ rxPushes "P" cl.written, a.From "P" pushedThenRead) ∧
    ∀ r ∈ cl.returns, ∀ L, readOf "P" r = some L → ∀ a ∈ L, a.From "P" pushedThenRead := by
  obtain ⟨w, hrun, hany⟩ := (Option.any_eq_true _ _).mp pushedThenRead_given
  obtain ⟨cl, hclient, hgiven⟩ := (Option.any_eq_true _ _).mp hany
  simp only [Bool.and_eq_true, beq_iff_eq] at hgiven
  obtain ⟨hread, hpushed, -⟩ := entries_delivered hrun hclient "P"
  exact ⟨w, cl, hrun, hclient, hgiven.1, hpushed, hread⟩

end Commmon

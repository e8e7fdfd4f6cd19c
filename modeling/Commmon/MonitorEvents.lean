/-
# The event stream of the web monitor

A browser that is connected to the monitor has a loop of its own. In every round
it refreshes its receivers: it takes the names of the open ports, subscribes each
that it has no receiver of, and drops its other receivers. Then it reads them all
and emits what it gets.

A refresh compares names. A port that was closed and opened again between two
rounds has its old name, so the loop keeps the receiver of the closed channel and
never reads the new one.
-/

import Mathlib.Logic.Relation
import Commmon.Daemon
import Commmon.DaemonSteps

set_option autoImplicit false

namespace Commmon

open Broadcast

/-- Where a stream stands in its loop. `names` are the ports that were open when
the refresh began. -/
inductive SsePc
  | naming
  | subscribing (names todo : List String)
  | polling (todo : List String) (gotData : Bool)
  | sleeping

/-- A stream of `sse_handler`, with what it has emitted. -/
structure SseStream where
  receivers : Table String Receiver
  pc : SsePc
  emitted : List (String × Arrival)

namespace SseStream

def new : SseStream := ⟨∅, .naming, []⟩

/-- Subscribe a port unless there is a receiver of that name. -/
def subscribe (x : SseStream) (m : SerialManager) (name : String) : Table String Receiver :=
  match x.receivers.lookup name with
  | some _ => x.receivers
  | none =>
      match m.subscribe name with
      | some rx => x.receivers.insert name rx
      | none => x.receivers

/-- One step of the loop. `order` is the order in which a map is visited. -/
def step (x : SseStream) (m : SerialManager) (order : List String) : Option SseStream :=
  match x.pc with
  | .naming =>
      if order.Perm m.ports.keys then some { x with pc := .subscribing order order } else none
  | .subscribing names (name :: todo) =>
      some { x with receivers := x.subscribe m name, pc := .subscribing names todo }
  | .subscribing names [] =>
      let kept := x.receivers.retain fun name => decide (name ∈ names)
      if kept.keys.isEmpty then some { x with receivers := kept, pc := .sleeping }
      else if order.Perm kept.keys then
        some { x with receivers := kept, pc := .polling order false }
      else none
  | .polling (name :: todo) gotData =>
      match x.receivers.lookup name with
      | none => some { x with pc := .polling todo gotData }
      | some rx =>
          match m.tryRecv rx with
          | (.ok pos entry, rx') =>
              some {
                receivers := x.receivers.insert name rx'
                pc := .polling (name :: todo) true
                emitted := x.emitted ++ [(name, ⟨rx.chan, pos, entry⟩)] }
          | (_, rx') =>
              some { x with receivers := x.receivers.insert name rx', pc := .polling todo gotData }
  | .polling [] gotData => some { x with pc := if gotData then .naming else .sleeping }
  | .sleeping => some { x with pc := .naming }

end SseStream

/-- A stream whose browser has left takes no more steps. -/
structure MonitorWorld where
  daemon : World
  streams : ℕ → Option SseStream

inductive MonitorEvent
  | daemon (e : Event)
  | accept (h : ℕ)
  | stream (h : ℕ) (order : List String)

namespace MonitorWorld

def serial (w : MonitorWorld) : SerialManager := w.daemon.serial

def setStream (w : MonitorWorld) (h : ℕ) (x : SseStream) : MonitorWorld :=
  { w with streams := Function.update w.streams h (some x) }

def step (w : MonitorWorld) : MonitorEvent → Option MonitorWorld
  | .daemon e => (w.daemon.step e).map fun d => { w with daemon := d }
  | .accept h =>
      match w.streams h with
      | some _ => none
      | none => some (w.setStream h .new)
  | .stream h order =>
      match w.streams h with
      | some x => (x.step w.serial order).map fun x' => w.setStream h x'
      | none => none

end MonitorWorld

/-- All runs of the daemon with its event streams. -/
def monitoring : StepSystem MonitorWorld MonitorEvent where
  init := ⟨daemon.init, fun _ => none⟩
  step := MonitorWorld.step

namespace SseStream

variable {x x' : SseStream} {m : SerialManager} {names todo order : List String}

/-- Subscribing adds a receiver at most, and only of a port that had none. -/
theorem lookup_subscribe (x : SseStream) (m : SerialManager) (name p : String) :
    (x.subscribe m name).lookup p =
      if p = name ∧ x.receivers.lookup p = none then m.subscribe name
      else x.receivers.lookup p := by
  unfold subscribe
  split
  · rename_i rx hrx
    rcases eq_or_ne p name with rfl | hp
    · simp [hrx]
    · simp [hp]
  · rename_i hnone
    split
    · rename_i rx hrx
      rw [Table.lookup_insert, hrx]
      rcases eq_or_ne p name with rfl | hp
      · simp [hnone]
      · simp [hp]
    · rename_i hrx
      rcases eq_or_ne p name with rfl | hp
      · simp [hnone, hrx]
      · simp [hp]

/-- A step of the refresh that comes to a port. -/
theorem step_subscribing {name : String} (hpc : x.pc = .subscribing names (name :: todo))
    (hstep : x.step m order = some x') :
    x'.pc = .subscribing names todo ∧ x'.receivers = x.subscribe m name := by
  simp only [step, hpc] at hstep
  obtain rfl := Option.some.inj hstep
  exact ⟨rfl, rfl⟩

/-- The step that ends a refresh keeps the receivers of the snapshot's ports. -/
theorem step_retain (hpc : x.pc = .subscribing names []) (hstep : x.step m order = some x') :
    (∀ p, x'.receivers.lookup p = if p ∈ names then x.receivers.lookup p else none) ∧
      ∀ ns todo, x'.pc ≠ .subscribing ns todo := by
  simp only [step, hpc] at hstep
  have hkept := Table.lookup_retain x.receivers (fun name => decide (name ∈ names))
  simp only [decide_eq_true_eq] at hkept
  split_ifs at hstep
  · obtain rfl := Option.some.inj hstep
    exact ⟨hkept, by simp⟩
  · obtain rfl := Option.some.inj hstep
    exact ⟨hkept, by simp⟩

end SseStream

namespace MonitorWorld

variable {w w' : MonitorWorld} {e : MonitorEvent}

/-- What a step is for a stream. -/
inductive Seen (h : ℕ) (w : MonitorWorld) (e : MonitorEvent) (w' : MonitorWorld) : Prop
  | elsewhere (hsame : w'.streams h = w.streams h) (he : ∀ order, e ≠ .stream h order)
  | accepted (hnew : w.streams h = none) (hx' : w'.streams h = some .new)
  | own (order : List String) (x x' : SseStream) (he : e = .stream h order)
      (hx : w.streams h = some x) (hmove : x.step w.serial order = some x')
      (hx' : w'.streams h = some x') (hserial : w'.serial = w.serial)

theorem streams_setStream (w : MonitorWorld) (h i : ℕ) (x : SseStream) :
    (w.setStream h x).streams i = if i = h then some x else w.streams i :=
  Function.update_apply _ _ _ _

theorem step_seen (hstep : monitoring.step w e = some w') (h : ℕ) : Seen h w e w' := by
  cases e with
  | daemon e =>
      obtain ⟨d, -, rfl⟩ := Option.map_eq_some_iff.mp hstep
      exact .elsewhere rfl (by simp)
  | accept i =>
      simp only [monitoring, step] at hstep
      split at hstep
      · exact absurd hstep (by simp)
      · rename_i hnew
        obtain rfl := Option.some.inj hstep
        by_cases hh : h = i
        · subst hh
          exact .accepted hnew (by simp [streams_setStream])
        · exact .elsewhere (by simp [streams_setStream, hh]) (by simp)
  | stream i order =>
      simp only [monitoring, step] at hstep
      split at hstep
      · rename_i x hx
        obtain ⟨x', hx', rfl⟩ := Option.map_eq_some_iff.mp hstep
        by_cases hh : h = i
        · subst hh
          exact .own order x x' rfl hx hx' (by simp [streams_setStream]) rfl
        · exact .elsewhere (by simp [streams_setStream, hh]) (by simp [Ne.symm hh])
      · exact absurd hstep (by simp)

theorem step_changes (hstep : monitoring.step w e = some w') :
    SerialManager.Changes w.serial w'.serial := by
  cases e with
  | daemon e =>
      obtain ⟨d, hd, rfl⟩ := Option.map_eq_some_iff.mp hstep
      exact (World.step_seen hd 0).changes
  | accept i =>
      simp only [monitoring, step] at hstep
      split at hstep
      · exact absurd hstep (by simp)
      · obtain rfl := Option.some.inj hstep
        exact .same _
  | stream i order =>
      simp only [monitoring, step] at hstep
      split at hstep
      · obtain ⟨x', -, rfl⟩ := Option.map_eq_some_iff.mp hstep
        exact .same _
      · exact absurd hstep (by simp)

/-- A refresh of stream `h` is under way: it began with the ports `names`, is done
with `done`, and the ports `todo` are left. -/
structure Refreshing (h : ℕ) (names done todo : List String) (x : SseStream)
    (w : MonitorWorld) : Prop where
  stream : w.streams h = some x
  pc : x.pc = .subscribing names todo
  names_eq : names = done ++ todo

/-- A step with which the refresh of stream `h` ends. -/
def endsRefresh (h : ℕ) (w : MonitorWorld) : MonitorEvent → Bool
  | .stream i _ => i = h && (w.streams h).any fun x =>
      match x.pc with
      | .subscribing _ [] => true
      | _ => false
  | _ => false

/-- The refresh of stream `h` comes to a port that it has no receiver of, and
which has been closed. -/
def misses (h : ℕ) (w : MonitorWorld) : MonitorEvent → Bool
  | .stream i _ => i = h && (w.streams h).any fun x =>
      match x.pc with
      | .subscribing _ (name :: _) =>
          (x.receivers.lookup name).isNone && (w.serial.ports.lookup name).isNone
      | _ => false
  | _ => false

/-- No port is closed in the step. -/
def keepsOpen (w w' : MonitorWorld) : Bool :=
  w.serial.ports.keys.all fun p => (w'.serial.ports.lookup p).isSome

variable {h : ℕ} {names done todo : List String} {x : SseStream}

/-- A step of a refresh that does not end it: it goes on elsewhere, or subscribes
the next port. -/
theorem Refreshing.step (hr : w.Refreshing h names done todo x)
    (hstep : monitoring.step w e = some w') (hgoes : w.endsRefresh h e = false) :
    (w'.Refreshing h names done todo x ∧ ∀ order, e ≠ .stream h order) ∨
    ∃ order name rest x', e = .stream h order ∧ todo = name :: rest ∧
      w'.Refreshing h names (done ++ [name]) rest x' ∧
      x'.receivers = x.subscribe w.serial name ∧ w'.serial = w.serial := by
  cases step_seen hstep h with
  | elsewhere hsame he => exact Or.inl ⟨⟨hsame.trans hr.stream, hr.pc, hr.names_eq⟩, he⟩
  | accepted hnew hx' => exact absurd (hr.stream.symm.trans hnew) (by simp)
  | own order y x' he hx hmove hx' hserial =>
      obtain rfl := Option.some.inj (hr.stream.symm.trans hx)
      subst he
      cases todo with
      | nil => simp [endsRefresh, hx, hr.pc] at hgoes
      | cons name rest =>
          obtain ⟨hpc, hreceivers⟩ := SseStream.step_subscribing hr.pc hmove
          refine Or.inr ⟨order, name, rest, x', rfl, rfl, ⟨hx', hpc, ?_⟩, hreceivers, hserial⟩
          rw [hr.names_eq, List.append_assoc]
          rfl

/-- A refresh begins with the names of the open ports. -/
theorem refreshing_begin {order : List String} (hx : w.streams h = some x) (hpc : x.pc = .naming)
    (hstep : monitoring.step w (.stream h order) = some w') :
    order.Perm w.serial.ports.keys ∧
      w'.Refreshing h order [] order { x with pc := .subscribing order order } ∧
      w'.serial = w.serial := by
  cases step_seen hstep h with
  | elsewhere hsame he => exact absurd rfl (he order)
  | accepted hnew hx' => exact absurd (hx.symm.trans hnew) (by simp)
  | own order' y x' he hy hmove hx' hserial =>
      obtain rfl := Option.some.inj (hx.symm.trans hy)
      obtain ⟨-, rfl⟩ := MonitorEvent.stream.inj he
      simp only [SseStream.step, hpc] at hmove
      split_ifs at hmove with hperm
      obtain rfl := Option.some.inj hmove
      exact ⟨hperm, ⟨hx', rfl, rfl⟩, hserial⟩

/-- Where a refresh ends, the stream has the receivers of the snapshot's ports. -/
theorem Refreshing.end {order : List String} {x' : SseStream}
    (hr : w.Refreshing h names done todo x)
    (hends : w.endsRefresh h (.stream h order) = true)
    (hstep : monitoring.step w (.stream h order) = some w') (hx' : w'.streams h = some x') :
    todo = [] ∧ w'.serial = w.serial ∧
      (∀ p, x'.receivers.lookup p = if p ∈ names then x.receivers.lookup p else none) ∧
        ∀ ns todo, x'.pc ≠ .subscribing ns todo := by
  cases todo with
  | cons name rest => simp [endsRefresh, hr.stream, hr.pc] at hends
  | nil =>
      cases step_seen hstep h with
      | elsewhere hsame he => exact absurd rfl (he order)
      | accepted hnew hx' => exact absurd (hr.stream.symm.trans hnew) (by simp)
      | own order' y z he hy hmove hz hserial =>
          obtain rfl := Option.some.inj (hr.stream.symm.trans hy)
          obtain rfl := Option.some.inj (hx'.symm.trans hz)
          obtain ⟨-, rfl⟩ := MonitorEvent.stream.inj he
          exact ⟨rfl, hserial, SseStream.step_retain hr.pc hmove⟩

/-- The refresh has a receiver of every port that it is done with. -/
def Covered (h : ℕ) (names : List String) (w : MonitorWorld) : Prop :=
  ∃ done todo x, w.Refreshing h names done todo x ∧
    ∀ p ∈ done, (x.receivers.lookup p).isSome = true

theorem Covered.step (hc : w.Covered h names) (hstep : monitoring.step w e = some w')
    (hgoes : w.endsRefresh h e = false) (hfinds : w.misses h e = false) :
    w'.Covered h names := by
  obtain ⟨done, todo, x, hr, hall⟩ := hc
  obtain ⟨hr', -⟩ | ⟨order, name, rest, x', rfl, rfl, hr', hreceivers, -⟩ := hr.step hstep hgoes
  · exact ⟨done, todo, x, hr', hall⟩
  · refine ⟨_, rest, x', hr', fun p hp => ?_⟩
    rw [hreceivers, SseStream.lookup_subscribe]
    split_ifs with hnew
    · obtain ⟨rfl, hnone⟩ := hnew
      have hopen : (w.serial.ports.lookup p).isNone = false := by
        simpa [misses, hr.stream, hr.pc, hnone] using hfinds
      cases hop : w.serial.ports.lookup p with
      | none => simp [hop] at hopen
      | some op => simp [SerialManager.subscribe, hop]
    · rcases List.mem_append.mp hp with hdone | hname
      · exact hall p hdone
      · obtain rfl := List.mem_singleton.mp hname
        rw [not_and] at hnew
        exact Option.isSome_iff_ne_none.mpr (hnew rfl)

/-- The refresh is done with a port and has no receiver of it. -/
def Missed (h : ℕ) (names : List String) (w : MonitorWorld) : Prop :=
  ∃ done todo x p, w.Refreshing h names done todo x ∧ p ∈ done ∧ x.receivers.lookup p = none

theorem Missed.step (hnodup : names.Nodup) (hm : w.Missed h names)
    (hstep : monitoring.step w e = some w') (hgoes : w.endsRefresh h e = false) :
    w'.Missed h names := by
  obtain ⟨done, todo, x, p, hr, hp, hnone⟩ := hm
  obtain ⟨hr', -⟩ | ⟨order, name, rest, x', rfl, rfl, hr', hreceivers, -⟩ := hr.step hstep hgoes
  · exact ⟨done, todo, x, p, hr', hp, hnone⟩
  · refine ⟨_, rest, x', p, hr', List.mem_append_left _ hp, ?_⟩
    have hne : p ≠ name := by
      rintro rfl
      rw [hr.names_eq] at hnodup
      exact List.disjoint_of_nodup_append hnodup hp List.mem_cons_self
    rw [hreceivers, SseStream.lookup_subscribe, if_neg (fun hnew => hne hnew.1), hnone]

private theorem missed_of_misses (hc : ∃ done todo x, w.Refreshing h names done todo x)
    (hstep : monitoring.step w e = some w') (hgoes : w.endsRefresh h e = false)
    (hmisses : w.misses h e = true) : w'.Missed h names := by
  obtain ⟨done, todo, x, hr⟩ := hc
  obtain ⟨-, he⟩ | ⟨order, name, rest, x', rfl, rfl, hr', hreceivers, -⟩ := hr.step hstep hgoes
  · cases e with
    | stream i order =>
        simp only [misses, Bool.and_eq_true, decide_eq_true_eq] at hmisses
        exact absurd (hmisses.1 ▸ rfl) (he order)
    | _ => simp [misses] at hmisses
  · simp only [misses, hr.stream, hr.pc, decide_true, Option.any_some, Bool.true_and,
      Bool.and_eq_true, Option.isNone_iff_eq_none] at hmisses
    refine ⟨_, rest, x', name, hr', by simp, ?_⟩
    rw [hreceivers, SseStream.lookup_subscribe, if_pos ⟨rfl, hmisses.1⟩]
    exact SerialManager.subscribe_eq_none.mpr hmisses.2

/-- A refresh that has missed no port in the end never missed one. -/
theorem along_of_not_missed (hnodup : names.Nodup) {during : List MonitorEvent}
    (hc : ∃ done todo x, w.Refreshing h names done todo x)
    (hrun : monitoring.runFrom w during = some w')
    (hgoes : monitoring.Along (fun s e _ => s.endsRefresh h e = false) w during)
    (hnot : ¬ w'.Missed h names) :
    monitoring.Along (fun s e _ => s.misses h e = false) w during := by
  induction during generalizing w with
  | nil => trivial
  | cons e during ih =>
      obtain ⟨s, hs, hrest⟩ := monitoring.runFrom_cons_eq_some.mp hrun
      obtain ⟨hfirst, hafter⟩ := hgoes s hs
      have hc' : ∃ done todo x, s.Refreshing h names done todo x := by
        obtain ⟨done, todo, x, hr⟩ := hc
        obtain ⟨hr', -⟩ | ⟨_, name, rest, x', -, -, hr', -, -⟩ := hr.step hs hfirst
        · exact ⟨done, todo, x, hr'⟩
        · exact ⟨_, rest, x', hr'⟩
      intro t ht
      obtain rfl := Option.some.inj (hs.symm.trans ht)
      refine ⟨?_, ih hc' hrest hafter⟩
      by_contra hmisses
      have hmissed := missed_of_misses hc hs hfirst (by simpa using hmisses)
      exact hnot (monitoring.runFrom_invariant_along (P := fun s => s.Missed h names)
        (A := fun _ => True) (Q := fun s e _ => s.endsRefresh h e = false)
        (fun _ _ _ _ hgoes hm hstep => hm.step hnodup hstep hgoes) (fun _ _ => trivial) hafter
        hmissed hrest)

/-- A port that stays open keeps its opening. -/
theorem lookup_of_keepsOpen (hstep : monitoring.step w e = some w') (hkeeps : w.keepsOpen w' = true)
    {p : String} {op : OpenPort} (hop : w.serial.ports.lookup p = some op) :
    w'.serial.ports.lookup p = some op := by
  have hmem : p ∈ w.serial.ports.keys := by
    by_contra hnot
    simp [AList.lookup_eq_none.mpr hnot] at hop
  have hopen : (w'.serial.ports.lookup p).isSome = true := List.all_eq_true.mp hkeeps p hmem
  obtain ⟨hsame, -⟩ | ⟨hnone, -, -⟩ | ⟨-, hnone, -⟩ := (step_changes hstep).lookup_ports p
  · exact hsame.trans hop
  · exact absurd (hop.symm.trans hnone) (by simp)
  · simp [hnone] at hopen

/-- What a refresh that began at `w₀` with stream `x₀` has, if no port is closed:
the receivers that were there, and receivers of current openings. -/
structure Renewed (h : ℕ) (w₀ : MonitorWorld) (x₀ : SseStream) (w : MonitorWorld) (x : SseStream) :
    Prop where
  stream : w.streams h = some x
  opens : ∀ p op, w₀.serial.ports.lookup p = some op → w.serial.ports.lookup p = some op
  kept : ∀ p rx, x₀.receivers.lookup p = some rx → x.receivers.lookup p = some rx
  added : ∀ p rx, x.receivers.lookup p = some rx → x₀.receivers.lookup p = some rx ∨
    ∃ op, w.serial.ports.lookup p = some op ∧ rx.chan = op.tx

theorem Renewed.step {w₀ : MonitorWorld} {x₀ : SseStream} (hn : w₀.Renewed h x₀ w x)
    (hr : ∃ done todo, w.Refreshing h names done todo x)
    (hstep : monitoring.step w e = some w') (hgoes : w.endsRefresh h e = false)
    (hkeeps : w.keepsOpen w' = true) :
    ∃ x', w₀.Renewed h x₀ w' x' ∧ ∃ done todo, w'.Refreshing h names done todo x' := by
  obtain ⟨done, todo, hr⟩ := hr
  have hopens : ∀ p op, w₀.serial.ports.lookup p = some op →
      w'.serial.ports.lookup p = some op :=
    fun p op hop => lookup_of_keepsOpen hstep hkeeps (hn.opens p op hop)
  obtain ⟨hr', -⟩ | ⟨order, name, rest, x', rfl, rfl, hr', hreceivers, hserial⟩ :=
    hr.step hstep hgoes
  · refine ⟨x, ⟨hr'.stream, hopens, hn.kept, fun p rx hrx => ?_⟩, done, todo, hr'⟩
    obtain hold | ⟨op, hop, hchan⟩ := hn.added p rx hrx
    · exact Or.inl hold
    · exact Or.inr ⟨op, lookup_of_keepsOpen hstep hkeeps hop, hchan⟩
  · refine ⟨x', ⟨hr'.stream, hopens, fun p rx hrx => ?_, fun p rx hrx => ?_⟩, _, _, hr'⟩
    · have hold := hn.kept p rx hrx
      rw [hreceivers, SseStream.lookup_subscribe, if_neg (by simp [hold]), hold]
    · rw [hreceivers, SseStream.lookup_subscribe] at hrx
      rw [hserial]
      split_ifs at hrx with hnew
      · obtain ⟨op, hop, rfl⟩ := SerialManager.subscribe_eq_some.mp hrx
        exact Or.inr ⟨op, hnew.1 ▸ hop, rfl⟩
      · exact hn.added p rx hrx

end MonitorWorld

end Commmon

/-
# A client's registrations, as its session and its streaming task keep them

What a client subscribes to or filters is kept twice. The session has the set of
subscribed ports and the keywords of every filter; the streaming task has a
receiver for each of them. A `Feed` reads one port's registration of one kind
from both sides, and its view is the abstract mirror of that registration. Every
step of the daemon is a step of the mirror, or leaves it alone, so the mirror's
invariant holds in every reachable world.
-/

import Commmon.DaemonSteps
import Commmon.Lib.Mirror

set_option autoImplicit false

namespace Commmon

open Mirror (View Step)
open Relation (ReflGen)

/-! ## What is on its way to the streaming task -/

/-- The commands that the rest of a command will send. -/
def Pc.unsent : Pc → List RxSubCommand
  | .send cmd _ => [cmd]
  | .tell cmd next => cmd :: next.unsent
  | _ => []

/-- The port that a command has closed and will make the session forget. -/
def Pc.closing : Pc → Option String
  | .onPortClosed port _ => some port
  | .tell _ next => next.closing
  | _ => none

namespace Client

def unsent (cl : Client) : List RxSubCommand :=
  match cl.dispatch with
  | some (_, pc) => pc.unsent
  | none => []

def closing (cl : Client) : Option String :=
  match cl.dispatch with
  | some (_, pc) => pc.closing
  | none => none

/-- The commands that the streaming task will get. -/
def pending (cl : Client) : List RxSubCommand := cl.queue ++ cl.unsent

end Client

/-! ## One registration -/

/-- How to read one registration: the session's record, the task's slot, what a
command does to the slot, the list of ports that the task will drop, and where
dispatch stands when it takes a receiver for it. -/
structure Feed (β : Type) where
  record : ClientSession → Option β
  slot : TaskMaps → Option (ℕ × β)
  command : RxSubCommand → Option (Mirror.Command β)
  closed : TaskPc → List String
  taking : Pc → Prop

/-- The subscription of a port. -/
def rxFeed (p : String) : Feed Unit where
  record s := if p ∈ s.rxSubscriptions then some () else none
  slot maps := (maps.rxReceivers.lookup p).map fun rx => (rx.chan, ())
  command
    | .subscribe port rx => if port = p then some (.set rx.chan ()) else none
    | .unsubscribe port => if port = p then some .unset else none
    | _ => none
  closed := TaskPc.closedRx
  taking pc := pc = .subscribeTake p

/-- The filter of a port. -/
def filterFeed (p : String) : Feed (List String) where
  record s := s.filterSubscriptions.lookup p
  slot maps := (maps.filterStates.lookup p).map fun st => (st.rx.chan, st.keywords)
  command
    | .addFilter port keywords rx => if port = p then some (.set rx.chan keywords) else none
    | .removeFilter port => if port = p then some .unset else none
    | .setFilterKeywords port keywords => if port = p then some (.modify keywords) else none
    | _ => none
  closed := TaskPc.closedFilters
  taking pc := ∃ keywords success, pc = .filterTake p keywords success

namespace Feed

variable {β : Type}

/-- The mirror of a registration of the port `p`. -/
def view (F : Feed β) (p : String) (m : SerialManager) (cl : Client) (lost : Prop) : View β where
  record := F.record cl.session
  slot := F.slot cl.task.maps
  pending := cl.pending.filterMap F.command
  current := (m.ports.lookup p).map OpenPort.tx
  fresh := m.fresh
  condemned := p ∈ F.closed cl.task.pc
  closing := cl.closing = some p
  lost := lost

/-- What the steps rely on: a command acts on the slot as the feed says, the
record reads only the registrations of the session, and closing a port tells the
task to drop the slot if there is a record. -/
structure Lawful (F : Feed β) (p : String) : Prop where
  record_new : F.record .new = none
  slot_new : F.slot ⟨∅, ∅⟩ = none
  slot_apply : ∀ maps cmd, F.slot (maps.apply cmd) =
    (F.command cmd).elim (F.slot maps) fun c => c.apply (F.slot maps)
  record_same : ∀ s s', ClientSession.SameRegistrations s s' → F.record s' = F.record s
  record_closed : ∀ s port, F.record (s.onPortClosed port) =
    if port = p then none else F.record s
  closeSends : ∀ s port resp, (Dispatch.closeSends s port resp).unsent.filterMap F.command =
    if port = p ∧ (F.record s).isSome then [.unset] else []
  closed_commands : F.closed .commands = []

/-- Applying commands one after another. -/
theorem Lawful.slot_foldl {F : Feed β} {p : String} (hF : F.Lawful p) (cmds : List RxSubCommand)
    (maps : TaskMaps) : F.slot (cmds.foldl TaskMaps.apply maps) =
      Mirror.applyAll (cmds.filterMap F.command) (F.slot maps) := by
  induction cmds generalizing maps with
  | nil => rfl
  | cons cmd cmds ih =>
      rw [List.foldl_cons, ih, hF.slot_apply maps cmd, List.filterMap_cons]
      cases F.command cmd <;> rfl

end Feed

@[simp]
theorem unsent_closeSends (s : ClientSession) (port : String) (resp : Response) :
    (Dispatch.closeSends s port resp).unsent =
      (if port ∈ s.rxSubscriptions then [.unsubscribe port] else []) ++
      (if (s.filterSubscriptions.lookup port).isSome then [.removeFilter port] else []) := by
  unfold Dispatch.closeSends
  split_ifs <;> rfl

@[simp]
theorem closing_closeSends (s : ClientSession) (port : String) (resp : Response) :
    (Dispatch.closeSends s port resp).closing = some port := by
  unfold Dispatch.closeSends
  split_ifs <;> rfl

private theorem rxFeed_slot_apply (p : String) (maps : TaskMaps) (cmd : RxSubCommand) :
    (rxFeed p).slot (maps.apply cmd) =
      ((rxFeed p).command cmd).elim ((rxFeed p).slot maps)
        fun c => c.apply ((rxFeed p).slot maps) := by
  cases cmd with
  | subscribe port rx =>
      by_cases hp : p = port
      · subst hp
        simp [rxFeed, TaskMaps.apply]
      · simp [rxFeed, TaskMaps.apply, hp, Ne.symm hp]
  | unsubscribe port =>
      by_cases hp : p = port
      · subst hp
        simp [rxFeed, TaskMaps.apply]
      · simp [rxFeed, TaskMaps.apply, hp, Ne.symm hp]
  | addFilter port keywords rx => rfl
  | removeFilter port => rfl
  | setFilterKeywords port keywords =>
      simp only [rxFeed, TaskMaps.apply]
      split <;> rfl

private theorem filterFeed_slot_apply (p : String) (maps : TaskMaps) (cmd : RxSubCommand) :
    (filterFeed p).slot (maps.apply cmd) =
      ((filterFeed p).command cmd).elim ((filterFeed p).slot maps)
        fun c => c.apply ((filterFeed p).slot maps) := by
  cases cmd with
  | subscribe port rx => rfl
  | unsubscribe port => rfl
  | addFilter port keywords rx =>
      by_cases hp : p = port
      · subst hp
        simp [filterFeed, TaskMaps.apply, FilterState.new]
      · simp [filterFeed, TaskMaps.apply, hp, Ne.symm hp]
  | removeFilter port =>
      by_cases hp : p = port
      · subst hp
        simp [filterFeed, TaskMaps.apply]
      · simp [filterFeed, TaskMaps.apply, hp, Ne.symm hp]
  | setFilterKeywords port keywords =>
      by_cases hp : p = port
      · subst hp
        cases hst : maps.filterStates.lookup p with
        | none => simp [filterFeed, TaskMaps.apply, hst]
        | some st =>
            simp [filterFeed, TaskMaps.apply, hst, FilterState.setKeywords]
      · cases hst : maps.filterStates.lookup port with
        | none => simp [filterFeed, TaskMaps.apply, hst, Ne.symm hp]
        | some st => simp [filterFeed, TaskMaps.apply, hst, hp, Ne.symm hp]

theorem rxFeed_lawful (p : String) : (rxFeed p).Lawful p where
  record_new := by simp [rxFeed, ClientSession.new]
  slot_new := by simp [rxFeed]
  slot_apply := rxFeed_slot_apply p
  record_same s s' h := by simp only [rxFeed, h.rxSubscriptions]
  record_closed s port := by
    by_cases hp : port = p
    · simp [rxFeed, hp]
    · simp [rxFeed, hp, Ne.symm hp]
  closeSends s port resp := by
    by_cases hp : port = p
    · subst hp
      by_cases hmem : port ∈ s.rxSubscriptions <;>
        by_cases hfilter : (s.filterSubscriptions.lookup port).isSome <;>
        simp [rxFeed, hmem, hfilter]
    · by_cases hmem : port ∈ s.rxSubscriptions <;>
        by_cases hfilter : (s.filterSubscriptions.lookup port).isSome <;>
        simp [rxFeed, hmem, hfilter, hp]
  closed_commands := rfl

theorem filterFeed_lawful (p : String) : (filterFeed p).Lawful p where
  record_new := by simp [filterFeed, ClientSession.new]
  slot_new := by simp [filterFeed]
  slot_apply := filterFeed_slot_apply p
  record_same s s' h := by simp only [filterFeed, h.filterSubscriptions]
  record_closed s port := by
    by_cases hp : port = p
    · simp [filterFeed, hp]
    · simp [filterFeed, hp, Ne.symm hp]
  closeSends s port resp := by
    by_cases hp : port = p
    · subst hp
      by_cases hmem : port ∈ s.rxSubscriptions <;>
        by_cases hfilter : (s.filterSubscriptions.lookup port).isSome <;>
        simp [filterFeed, hmem, hfilter]
    · by_cases hmem : port ∈ s.rxSubscriptions <;>
        by_cases hfilter : (s.filterSubscriptions.lookup port).isSome <;>
        simp [filterFeed, hmem, hfilter, hp]
  closed_commands := rfl

/-! ## Steps that do not concern the session -/

/-- A change of the ports, in any view whose generations are the channels of `p`. -/
theorem step_of_changes {β : Type} {p : String} {m m' : SerialManager} {lost' : Prop}
    (hchanges : SerialManager.Changes m m') (v : View β)
    (hcurrent : v.current = (m.ports.lookup p).map OpenPort.tx) (hfresh : v.fresh = m.fresh)
    (hlost : lost' ↔ v.lost ∨ (m.ports.lookup p).isSome ∧ m'.ports.lookup p = none) :
    ReflGen Step v { v with
      current := (m'.ports.lookup p).map OpenPort.tx, fresh := m'.fresh, lost := lost' } := by
  obtain ⟨hsame, hle⟩ | ⟨hnone, ⟨op, hop, htx⟩, hsucc⟩ | ⟨hsome, hnone, heq⟩ :=
    hchanges.lookup_ports p
  · have hkept : lost' ↔ v.lost := by
      refine hlost.trans (or_iff_left ?_)
      rintro ⟨hsome, hnone⟩
      simp [← hsame, hnone] at hsome
    rw [hsame, ← hcurrent, propext hkept]
    exact .single (.age v _ (hfresh ▸ hle))
  · have hkept : lost' ↔ v.lost := hlost.trans (or_iff_left (by simp [hnone]))
    rw [hop, propext hkept]
    refine .single (.renew v op.tx m'.fresh ?_ ?_ ?_)
    · rw [hcurrent, hnone, Option.map_none]
    · rw [hfresh, htx]
    · rw [htx, hsucc]
      exact Nat.lt_succ_self _
  · have htrue : lost' = True := propext (iff_true_intro (hlost.mpr (Or.inr ⟨hsome, hnone⟩)))
    rw [hnone, heq, ← hfresh, htrue]
    exact .single (.loseTo v)

namespace Feed

variable {β : Type} {F : Feed β} {p : String} {m m' : SerialManager} {cl cl' : Client}
  {lost lost' : Prop}

/-- A view does not change when none of what it reads does. -/
theorem view_same (hrecord : F.record cl'.session = F.record cl.session)
    (hslot : F.slot cl'.task.maps = F.slot cl.task.maps)
    (hpending : cl'.pending.filterMap F.command = cl.pending.filterMap F.command)
    (hclosed : p ∈ F.closed cl'.task.pc ↔ p ∈ F.closed cl.task.pc)
    (hclosing : cl'.closing = some p ↔ cl.closing = some p)
    (hport : m'.ports.lookup p = m.ports.lookup p) (hfresh : m'.fresh = m.fresh)
    (hlost : lost' ↔ lost) :
    ReflGen Step (F.view p m cl lost) (F.view p m' cl' lost') := by
  have heq : F.view p m' cl' lost' = F.view p m cl lost := by
    simp only [view, hrecord, hslot, hpending, hclosed, hclosing, hport, hfresh, hlost]
  exact heq ▸ ReflGen.refl

/-- The ports change, and the client does not. -/
theorem view_elsewhere (hchanges : SerialManager.Changes m m')
    (hlost : lost' ↔ lost ∨ (m.ports.lookup p).isSome ∧ m'.ports.lookup p = none) :
    ReflGen Step (F.view p m cl lost) (F.view p m' cl lost') :=
  step_of_changes hchanges (F.view p m cl lost) rfl rfl hlost

/-- The task takes a command off its queue. -/
theorem view_applied (hF : F.Lawful p) {cmd : RxSubCommand} {rest : List RxSubCommand}
    (hqueue : cl.queue = cmd :: rest) (hclosed : F.closed cl.task.pc = [])
    (written : List Outgoing) :
    ReflGen Step (F.view p m cl lost)
      (F.view p m { cl with
        task := ⟨cl.task.maps.apply cmd, .commands⟩, queue := rest, written := written }
        lost) := by
  have hslot := hF.slot_apply cl.task.maps cmd
  have hclosed' := hF.closed_commands
  rcases hcmd : F.command cmd with - | c
  · rw [hcmd] at hslot
    refine view_same rfl hslot ?_ (by simp [hclosed, hclosed']) Iff.rfl rfl rfl Iff.rfl
    simp [Client.pending, Client.unsent, hqueue, hcmd]
  · rw [hcmd] at hslot
    have heq : F.view p m { cl with
        task := ⟨cl.task.maps.apply cmd, .commands⟩, queue := rest, written := written } lost =
        { F.view p m cl lost with
          slot := c.apply (F.slot cl.task.maps)
          pending := (rest ++ cl.unsent).filterMap F.command } := by
      simp [view, hslot, hclosed, hclosed', Client.pending, Client.unsent, Client.closing]
    refine heq ▸ .single (.consume _ c _ ?_ (by simp [view, hclosed]))
    simp [view, Client.pending, hqueue, hcmd]

/-- The task notices that its channel has closed. -/
theorem view_noticed {pc : TaskPc} (hsound : m.Sound)
    (hgone : ∀ k value, F.slot cl.task.maps = some (k, value) →
      (m.channels k).isClosed = true)
    (hclosed : p ∈ F.closed pc) (written : List Outgoing) :
    ReflGen Step (F.view p m cl lost)
      (F.view p m { cl with task := ⟨cl.task.maps, pc⟩, written := written } lost) := by
  have heq : F.view p m { cl with task := ⟨cl.task.maps, pc⟩, written := written } lost =
      { F.view p m cl lost with condemned := True } := by
    simp [view, hclosed, Client.pending, Client.unsent, Client.closing]
  refine heq ▸ .single (.notice _ fun k value hslot hcurrent => ?_)
  obtain ⟨op, hop, rfl⟩ := Option.map_eq_some_iff.mp hcurrent
  have hopen := hsound.isClosed_eq_false hop
  simp [hgone op.tx value hslot] at hopen

/-- The task drops what it has noticed. -/
theorem view_dropped {task : StreamTask} (hslot : F.slot task.maps = none)
    (hclosed : p ∈ F.closed cl.task.pc) (hclosed' : p ∉ F.closed task.pc)
    (written : List Outgoing) :
    ReflGen Step (F.view p m cl lost)
      (F.view p m { cl with task := task, written := written } lost) := by
  have heq : F.view p m { cl with task := task, written := written } lost =
      { F.view p m cl lost with slot := none, condemned := False } := by
    simp [view, hslot, hclosed', Client.pending, Client.unsent, Client.closing]
  exact heq ▸ .single (.drop _ hclosed)

end Feed

/-! ## The streaming task's steps -/

section Streamed

variable {p : String} {m : SerialManager} {cl : Client} {lost : Prop} {task : StreamTask}
  {queue : List RxSubCommand} {lines : List Push}

private theorem rxFeed_streamed (hsound : m.Sound)
    (hmoves : cl.task.Moves m cl.queue task queue lines) (hlive : task.isEnded = false)
    (written : List Outgoing) :
    ReflGen Step ((rxFeed p).view p m cl lost)
      ((rxFeed p).view p m { cl with task := task, queue := queue, written := written }
        lost) := by
  cases hmoves with
  | died => simp [StreamTask.stopped, StreamTask.isEnded] at hlive
  | applied cmd rest hqueue hrx hfilters =>
      exact Feed.view_applied (rxFeed_lawful p) hqueue hrx written
  | went pc lines hpc hrx hfilters =>
      exact Feed.view_same rfl rfl rfl (by simp [rxFeed, hrx]) Iff.rfl rfl rfl Iff.rfl
  | rxReceived port rx next pc hpc hlookup hrx hfilters =>
      refine Feed.view_same rfl ?_ rfl (by simp [rxFeed, hrx]) Iff.rfl rfl rfl Iff.rfl
      by_cases hp : p = port
      · subst hp
        simp [rxFeed, hlookup]
      · simp [rxFeed, hp]
  | rxNoticed port rx pc hpc hlookup hclosed hrx hfilters =>
      by_cases hp : p = port
      · subst hp
        refine Feed.view_noticed hsound (fun k value hslot => ?_) (by simp [rxFeed, hrx]) written
        obtain ⟨rfl, -⟩ : rx.chan = k ∧ () = value := by simpa [rxFeed, hlookup] using hslot
        exact hclosed
      · exact Feed.view_same rfl rfl rfl (by simp [rxFeed, hrx, hp]) Iff.rfl rfl rfl Iff.rfl
  | rxDropped pc hpc hrx hfilters =>
      by_cases hp : p ∈ cl.task.pc.closedRx
      · exact Feed.view_dropped (by simp [rxFeed, Table.lookup_eraseAll, hp]) hp
          (by simp [rxFeed, hrx]) written
      · refine Feed.view_same rfl ?_ rfl (by simp [rxFeed, hrx, hp]) Iff.rfl rfl rfl Iff.rfl
        simp [rxFeed, Table.lookup_eraseAll, hp]
  | filterReceived port st st' pc hpc hlookup hchan hkeywords hrx hfilters =>
      exact Feed.view_same rfl rfl rfl (by simp [rxFeed, hrx]) Iff.rfl rfl rfl Iff.rfl
  | filterNoticed port st pc hpc hlookup hclosed hrx hfilters =>
      exact Feed.view_same rfl rfl rfl (by simp [rxFeed, hrx]) Iff.rfl rfl rfl Iff.rfl
  | filterDropped pc hpc hrx hfilters =>
      exact Feed.view_same rfl rfl rfl (by simp [rxFeed, hrx]) Iff.rfl rfl rfl Iff.rfl

private theorem filterFeed_streamed (hsound : m.Sound)
    (hmoves : cl.task.Moves m cl.queue task queue lines) (hlive : task.isEnded = false)
    (written : List Outgoing) :
    ReflGen Step ((filterFeed p).view p m cl lost)
      ((filterFeed p).view p m { cl with task := task, queue := queue, written := written }
        lost) := by
  cases hmoves with
  | died => simp [StreamTask.stopped, StreamTask.isEnded] at hlive
  | applied cmd rest hqueue hrx hfilters =>
      exact Feed.view_applied (filterFeed_lawful p) hqueue hfilters written
  | went pc lines hpc hrx hfilters =>
      exact Feed.view_same rfl rfl rfl (by simp [filterFeed, hfilters]) Iff.rfl rfl rfl Iff.rfl
  | rxReceived port rx next pc hpc hlookup hrx hfilters =>
      exact Feed.view_same rfl rfl rfl (by simp [filterFeed, hfilters]) Iff.rfl rfl rfl Iff.rfl
  | rxNoticed port rx pc hpc hlookup hclosed hrx hfilters =>
      exact Feed.view_same rfl rfl rfl (by simp [filterFeed, hfilters]) Iff.rfl rfl rfl Iff.rfl
  | rxDropped pc hpc hrx hfilters =>
      exact Feed.view_same rfl rfl rfl (by simp [filterFeed, hfilters]) Iff.rfl rfl rfl Iff.rfl
  | filterReceived port st st' pc hpc hlookup hchan hkeywords hrx hfilters =>
      refine Feed.view_same rfl ?_ rfl (by simp [filterFeed, hfilters]) Iff.rfl rfl rfl Iff.rfl
      by_cases hp : p = port
      · subst hp
        simp [filterFeed, hlookup, hchan, hkeywords]
      · simp [filterFeed, hp]
  | filterNoticed port st pc hpc hlookup hclosed hrx hfilters =>
      by_cases hp : p = port
      · subst hp
        refine Feed.view_noticed hsound (fun k value hslot => ?_)
          (by simp [filterFeed, hfilters]) written
        obtain ⟨rfl, -⟩ : st.rx.chan = k ∧ st.keywords = value := by
          simpa [filterFeed, hlookup] using hslot
        exact hclosed
      · exact Feed.view_same rfl rfl rfl (by simp [filterFeed, hfilters, hp]) Iff.rfl rfl rfl
          Iff.rfl
  | filterDropped pc hpc hrx hfilters =>
      by_cases hp : p ∈ cl.task.pc.closedFilters
      · exact Feed.view_dropped (by simp [filterFeed, Table.lookup_eraseAll, hp]) hp
          (by simp [filterFeed, hfilters]) written
      · refine Feed.view_same rfl ?_ rfl (by simp [filterFeed, hfilters, hp]) Iff.rfl rfl rfl
          Iff.rfl
        simp [filterFeed, Table.lookup_eraseAll, hp]

end Streamed

/-! ## The steps of a command -/

section Advanced

variable {β : Type} {F : Feed β} {p : String} {m : SerialManager} {cl cl' : Client}
  {lost lost' : Prop} {req : Request} {pc : Pc}

/-- A command goes on without anything new to send. -/
theorem Feed.view_went_on (hpc : cl.dispatch = some (req, pc)) {s : ClientSession} {pc' : Pc}
    (hrecord : F.record s = F.record cl.session)
    (hunsent : pc'.unsent.filterMap F.command = pc.unsent.filterMap F.command)
    (hclosing : pc'.closing = some p ↔ pc.closing = some p) (hlost : lost' ↔ lost) :
    ReflGen Step (F.view p m cl lost)
      (F.view p m { cl with session := s, dispatch := some (req, pc') } lost') := by
  refine Feed.view_same hrecord rfl ?_ Iff.rfl ?_ rfl rfl hlost
  · simp [Client.pending, Client.unsent, hpc, hunsent]
  · simp [Client.closing, hpc, hclosing]

/-- Where no receiver for a registration is taken, a command only moves its
messages along, or forgets a port. -/
theorem Feed.view_advanced (hF : F.Lawful p) (hpc : cl.dispatch = some (req, pc))
    (hadvances : cl.Advances m req pc cl') (hlive : cl'.task.isEnded = false)
    (hsubscribe : ∀ port, pc ≠ .subscribeTake port)
    (hfilter : ∀ port keywords success, pc ≠ .filterTake port keywords success)
    (hlost : lost' ↔ lost) :
    ReflGen Step (F.view p m cl lost) (F.view p m cl' lost') := by
  cases hadvances with
  | ensured port resp =>
      have hsame := cl.session.ensureSubscribed_sameRegistrations m port
      exact Feed.view_went_on hpc (hF.record_same _ _ hsame) rfl Iff.rfl hlost
  | forgot port resp =>
      by_cases hp : port = p
      · have heq : F.view p m { cl with
            session := cl.session.onPortClosed port, dispatch := some (req, .reply resp) } lost' =
            { F.view p m cl lost with record := none, closing := False } := by
          simp [Feed.view, hF.record_closed, hp, hlost, Client.pending, Client.unsent, hpc,
            Pc.unsent, Client.closing, Pc.closing]
        exact heq ▸ .single (.forget _ (by simp [Feed.view, Client.closing, hpc, Pc.closing, hp]))
      · exact Feed.view_went_on hpc (by simp [hF.record_closed, hp]) rfl
          (by simp [Pc.closing, hp]) hlost
  | missed port pc msg hmissed hnone =>
      obtain rfl | ⟨keywords, success, rfl⟩ := hmissed
      · exact absurd rfl (hsubscribe port)
      · exact absurd rfl (hfilter port keywords success)
  | subscribed port success op hop => exact absurd rfl (hsubscribe port)
  | filtered port keywords success op hop => exact absurd rfl (hfilter port keywords success)
  | readEnsured port clear =>
      have hsame := cl.session.ensureSubscribed_sameRegistrations m port
      exact Feed.view_went_on hpc (hF.record_same _ _ hsame) rfl Iff.rfl hlost
  | drained port clear s hround hpc' =>
      have hdrain := cl.session.drainOne_sameRegistrations m port
      rw [hround] at hdrain
      exact Feed.view_same (hF.record_same _ _ hdrain) rfl rfl Iff.rfl Iff.rfl rfl rfl hlost
  | answered port clear s hround =>
      have hdrain := cl.session.drainOne_sameRegistrations m port
      rw [hround] at hdrain
      have hanswer := s.answerRead_sameRegistrations port clear
      exact Feed.view_went_on hpc
        ((hF.record_same _ _ hanswer).trans (hF.record_same _ _ hdrain)) rfl Iff.rfl hlost
  | failed cmd success hended => exact absurd (hended.symm.trans hlive) (by simp)
  | sent cmd success hrunning =>
      refine Feed.view_same rfl rfl ?_ Iff.rfl ?_ rfl rfl hlost
      · simp [Client.pending, Client.unsent, hpc, Pc.unsent]
      · simp [Client.closing, hpc, Pc.closing]
  | ignored cmd next hended => exact absurd (hended.symm.trans hlive) (by simp)
  | told cmd next hrunning =>
      refine Feed.view_same rfl rfl ?_ Iff.rfl ?_ rfl rfl hlost
      · simp [Client.pending, Client.unsent, hpc, Pc.unsent]
      · simp [Client.closing, hpc, Pc.closing]
  | wrote resp =>
      refine Feed.view_same rfl rfl ?_ Iff.rfl ?_ rfl rfl hlost
      · simp [Client.pending, Client.unsent, hpc, Pc.unsent]
      · simp [Client.closing, hpc, Pc.closing]

/-- A receiver of the current channel is taken and sent to the task. -/
theorem Feed.view_took (value : β) {op : OpenPort} (hop : m.ports.lookup p = some op)
    (hpc : cl.dispatch = some (req, pc)) (hunsent : pc.unsent = []) (hclosing : pc.closing = none)
    {s : ClientSession} {cmd : RxSubCommand} {success : String}
    (hrecord : F.record s = some value) (hcmd : F.command cmd = some (.set op.tx value))
    (hlost : ¬ lost') :
    ReflGen Step (F.view p m cl lost)
      (F.view p m { cl with session := s, dispatch := some (req, .send cmd success) } lost') := by
  have heq : F.view p m { cl with session := s, dispatch := some (req, .send cmd success) } lost' =
      { F.view p m cl lost with
        record := some value
        pending := (F.view p m cl lost).pending ++ [.set op.tx value]
        lost := False } := by
    simp [Feed.view, hrecord, Client.pending, Client.unsent, hpc, hunsent, Pc.unsent, hcmd,
      Client.closing, Pc.closing, hclosing, hlost]
  exact heq ▸ .single (.take _ op.tx value (by simp [Feed.view, hop])
    (by simp [Feed.view, Client.closing, hpc, hclosing]))

private theorem rxFeed_advanced (hpc : cl.dispatch = some (req, pc))
    (hadvances : cl.Advances m req pc cl') (hlive : cl'.task.isEnded = false)
    (hlost : lost' ↔ lost ∧ ¬ ((rxFeed p).taking pc ∧ (m.ports.lookup p).isSome)) :
    ReflGen Step ((rxFeed p).view p m cl lost) ((rxFeed p).view p m cl' lost') := by
  by_cases htake : ∃ port, pc = .subscribeTake port
  · obtain ⟨port, rfl⟩ := htake
    cases hadvances with
    | missed port' pc msg hmissed hnone =>
        obtain rfl : port = port' := by simpa using hmissed
        refine Feed.view_went_on hpc rfl rfl Iff.rfl (hlost.trans (and_iff_left ?_))
        rintro ⟨heq, hsome⟩
        obtain rfl : port = p := by simpa [rxFeed] using heq
        simp [hnone] at hsome
    | subscribed port success op hop =>
        by_cases hp : port = p
        · subst hp
          have hlost' : ¬ lost' := by simp [hlost, rxFeed, hop]
          exact Feed.view_took () hop hpc rfl rfl (by simp [rxFeed]) (by simp [rxFeed]) hlost'
        · exact Feed.view_went_on hpc (by simp [rxFeed, Ne.symm hp])
            (by simp [rxFeed, Pc.unsent, hp]) Iff.rfl
            (hlost.trans (and_iff_left (by simp [rxFeed, hp])))
  · have htake' : ∀ port, pc ≠ .subscribeTake port := not_exists.mp htake
    have hkept : lost' ↔ lost := hlost.trans (and_iff_left fun h => htake' p h.1)
    by_cases hfilter : ∃ port keywords success, pc = .filterTake port keywords success
    · obtain ⟨port, keywords, success, rfl⟩ := hfilter
      cases hadvances with
      | missed port' pc msg hmissed hnone => exact Feed.view_went_on hpc rfl rfl Iff.rfl hkept
      | filtered port keywords success op hop =>
          exact Feed.view_went_on hpc rfl rfl Iff.rfl hkept
    · exact Feed.view_advanced (rxFeed_lawful p) hpc hadvances hlive htake'
        (fun port keywords success h => hfilter ⟨port, keywords, success, h⟩) hkept

private theorem filterFeed_advanced (hpc : cl.dispatch = some (req, pc))
    (hadvances : cl.Advances m req pc cl') (hlive : cl'.task.isEnded = false)
    (hlost : lost' ↔ lost ∧ ¬ ((filterFeed p).taking pc ∧ (m.ports.lookup p).isSome)) :
    ReflGen Step ((filterFeed p).view p m cl lost) ((filterFeed p).view p m cl' lost') := by
  by_cases htake : ∃ port keywords success, pc = .filterTake port keywords success
  · obtain ⟨port, keywords, success, rfl⟩ := htake
    cases hadvances with
    | missed port' pc msg hmissed hnone =>
        obtain rfl : port = port' := by simpa using hmissed
        refine Feed.view_went_on hpc rfl rfl Iff.rfl (hlost.trans (and_iff_left ?_))
        rintro ⟨heq, hsome⟩
        obtain rfl : port = p := by simpa [filterFeed] using heq
        simp [hnone] at hsome
    | filtered port keywords success op hop =>
        by_cases hp : port = p
        · subst hp
          have hlost' : ¬ lost' := by simp [hlost, filterFeed, hop]
          exact Feed.view_took keywords hop hpc rfl rfl (by simp [filterFeed])
            (by simp [filterFeed]) hlost'
        · exact Feed.view_went_on hpc (by simp [filterFeed, Ne.symm hp])
            (by simp [filterFeed, Pc.unsent, hp]) Iff.rfl
            (hlost.trans (and_iff_left (by simp [filterFeed, hp])))
  · have hkept : lost' ↔ lost := by
      refine hlost.trans (and_iff_left ?_)
      rintro ⟨⟨keywords, success, h⟩, -⟩
      exact htake ⟨p, keywords, success, h⟩
    by_cases hsubscribe : ∃ port, pc = .subscribeTake port
    · obtain ⟨port, rfl⟩ := hsubscribe
      cases hadvances with
      | missed port' pc msg hmissed hnone => exact Feed.view_went_on hpc rfl rfl Iff.rfl hkept
      | subscribed port success op hop => exact Feed.view_went_on hpc rfl rfl Iff.rfl hkept
    · exact Feed.view_advanced (filterFeed_lawful p) hpc hadvances hlive
        (not_exists.mp hsubscribe)
        (fun port keywords success h => htake ⟨port, keywords, success, h⟩) hkept

end Advanced

section Began

variable {β : Type} {F : Feed β} {p : String} {m m' : SerialManager} {cl : Client}
  {s' : ClientSession} {lost lost' : Prop} {req : Request} {pc : Pc}

/-- A command begins without anything to send for this registration. -/
theorem Feed.view_began (hidle : cl.dispatch = none)
    (hrecord : F.record s' = F.record cl.session)
    (hunsent : pc.unsent.filterMap F.command = []) (hclosing : pc.closing ≠ some p)
    (hport : m'.ports.lookup p = m.ports.lookup p) (hfresh : m'.fresh = m.fresh)
    (hlost : lost' ↔ lost) :
    ReflGen Step (F.view p m cl lost)
      (F.view p m' { cl with session := s', dispatch := some (req, pc) } lost') := by
  refine Feed.view_same hrecord rfl ?_ Iff.rfl ?_ hport hfresh hlost
  · simp [Client.pending, Client.unsent, hidle, hunsent]
  · simp [Client.closing, hidle, hclosing]

/-- The client opens a port. -/
theorem Feed.view_opened (hidle : cl.dispatch = none) {port : String} {resp : Response}
    {config : PortConfig} (hclosed : m.ports.lookup port = none)
    (hlost : lost' ↔ lost) :
    ReflGen Step (F.view p m cl lost)
      (F.view p (m.insertPort port config)
        { cl with dispatch := some (req, .openEnsure port resp) } lost') := by
  have heq : F.view p (m.insertPort port config)
      { cl with dispatch := some (req, .openEnsure port resp) } lost' =
      F.view p (m.insertPort port config) cl lost := by
    simp [Feed.view, Client.pending, Client.unsent, hidle, Pc.unsent, Client.closing,
      Pc.closing, hlost]
  rw [heq]
  refine Feed.view_elsewhere (.opened m port config hclosed) (or_iff_left ?_).symm
  rintro ⟨hsome, hnone⟩
  rw [SerialManager.lookup_ports_insertPort] at hnone
  split_ifs at hnone
  simp [hnone] at hsome

/-- The client closes a port. -/
theorem Feed.view_closed (hF : F.Lawful p) (hidle : cl.dispatch = none) {port : String}
    {op : OpenPort} {resp : Response} (hlost : lost' ↔ lost) :
    ReflGen Step (F.view p m cl lost)
      (F.view p (m.removePort port op)
        { cl with dispatch := some (req, Dispatch.closeSends cl.session port resp) } lost') := by
  have hsends := hF.closeSends cl.session port resp
  by_cases hp : port = p
  · subst hp
    have heq : F.view port (m.removePort port op)
        { cl with dispatch := some (req, Dispatch.closeSends cl.session port resp) } lost' =
        { F.view port m cl lost with
          pending := (F.view port m cl lost).pending ++
            if port = port ∧ (F.record cl.session).isSome then [.unset] else []
          current := none
          closing := True } := by
      simp only [Feed.view, Client.pending, Client.unsent, hidle, List.append_nil,
        List.filterMap_append, hsends, Client.closing, closing_closeSends, hlost,
        SerialManager.lookup_ports_removePort, if_true, Option.map_none]
      rfl
    refine heq ▸ .single (.close _ _ ?_)
    rcases hrecord : F.record cl.session with - | value
    · exact Or.inr ⟨by simp, hrecord⟩
    · exact Or.inl (by simp)
  · exact Feed.view_began hidle rfl (by simp only [hsends, hp, false_and, if_false])
      (by simp [hp]) (by simp [Ne.symm hp]) rfl hlost

/-- The client drops the registration. -/
theorem Feed.view_unset (hidle : cl.dispatch = none) {cmd : RxSubCommand} {success : Response}
    (hrecord : F.record s' = none) (hcmd : F.command cmd = some .unset)
    (hlost : lost' ↔ lost) :
    ReflGen Step (F.view p m cl lost)
      (F.view p m
        { cl with session := s', dispatch := some (req, .tell cmd (.reply success)) } lost') := by
  have heq : F.view p m
      { cl with session := s', dispatch := some (req, .tell cmd (.reply success)) } lost' =
      { F.view p m cl lost with
        record := none, pending := (F.view p m cl lost).pending ++ [.unset] } := by
    simp [Feed.view, hrecord, Client.pending, Client.unsent, hidle, Pc.unsent, hcmd,
      Client.closing, Pc.closing, hlost]
  exact heq ▸ .single (.unset _)

private theorem rxFeed_began (hidle : cl.dispatch = none)
    (hbegins : Dispatch.Begins m cl.session req m' s' pc) (hlost : lost' ↔ lost) :
    ReflGen Step ((rxFeed p).view p m cl lost)
      ((rxFeed p).view p m' { cl with session := s', dispatch := some (req, pc) } lost') := by
  cases hbegins with
  | answered resp hresp =>
      exact Feed.view_began hidle rfl rfl (by simp [Pc.closing]) rfl rfl hlost
  | opened port resp hcmd hport hclosed hok => exact Feed.view_opened hidle hclosed hlost
  | closed port op resp hcmd hport hopen hok =>
      exact Feed.view_closed (rxFeed_lawful p) hidle hlost
  | subscribing port hcmd hport hnew =>
      exact Feed.view_began hidle rfl rfl (by simp [Pc.closing]) rfl rfl hlost
  | unsubscribed port success hcmd hport hmem =>
      by_cases hp : port = p
      · exact Feed.view_unset hidle (by simp [rxFeed, hp]) (by simp [rxFeed, hp]) hlost
      · exact Feed.view_began hidle (by simp [rxFeed, Ne.symm hp])
          (by simp [rxFeed, Pc.unsent, hp]) (by simp [Pc.closing]) rfl rfl hlost
  | filtering port keywords success hcmd hport hkeywords =>
      exact Feed.view_began hidle rfl rfl (by simp [Pc.closing]) rfl rfl hlost
  | extended port existing keywords success hcmd hport hkeywords hexisting =>
      exact Feed.view_began hidle rfl rfl (by simp [Pc.closing]) rfl rfl hlost
  | unfiltered port success existing hcmd hport hexisting =>
      exact Feed.view_began hidle rfl rfl (by simp [Pc.closing]) rfl rfl hlost
  | reading port hcmd hport =>
      exact Feed.view_began hidle rfl rfl (by simp [Pc.closing]) rfl rfl hlost

private theorem filterFeed_began (hidle : cl.dispatch = none)
    (hbegins : Dispatch.Begins m cl.session req m' s' pc) (hlost : lost' ↔ lost) :
    ReflGen Step ((filterFeed p).view p m cl lost)
      ((filterFeed p).view p m' { cl with session := s', dispatch := some (req, pc) } lost') := by
  cases hbegins with
  | answered resp hresp =>
      exact Feed.view_began hidle rfl rfl (by simp [Pc.closing]) rfl rfl hlost
  | opened port resp hcmd hport hclosed hok => exact Feed.view_opened hidle hclosed hlost
  | closed port op resp hcmd hport hopen hok =>
      exact Feed.view_closed (filterFeed_lawful p) hidle hlost
  | subscribing port hcmd hport hnew =>
      exact Feed.view_began hidle rfl rfl (by simp [Pc.closing]) rfl rfl hlost
  | unsubscribed port success hcmd hport hmem =>
      exact Feed.view_began hidle rfl rfl (by simp [Pc.closing]) rfl rfl hlost
  | filtering port keywords success hcmd hport hkeywords =>
      exact Feed.view_began hidle rfl rfl (by simp [Pc.closing]) rfl rfl hlost
  | extended port existing keywords success hcmd hport hkeywords hexisting =>
      by_cases hp : port = p
      · subst hp
        have heq : (filterFeed port).view port m { cl with
            session := { cl.session with filterSubscriptions :=
              cl.session.filterSubscriptions.insert port (mergeKeywords existing keywords) }
            dispatch := some (req,
              .send (.setFilterKeywords port (mergeKeywords existing keywords)) success) } lost' =
            { (filterFeed port).view port m cl lost with
              record := some (mergeKeywords existing keywords)
              pending := ((filterFeed port).view port m cl lost).pending ++
                [.modify (mergeKeywords existing keywords)] } := by
          simp [Feed.view, filterFeed, Client.pending, Client.unsent, hidle, Pc.unsent,
            Client.closing, Pc.closing, hlost]
        exact heq ▸ .single (.modify _ existing _ hexisting
          (by simp [Feed.view, Client.closing, hidle]))
      · exact Feed.view_began hidle (by simp [filterFeed, Ne.symm hp])
          (by simp [filterFeed, Pc.unsent, hp]) (by simp [Pc.closing]) rfl rfl hlost
  | unfiltered port success existing hcmd hport hexisting =>
      by_cases hp : port = p
      · subst hp
        exact Feed.view_unset hidle (by simp [filterFeed]) (by simp [filterFeed]) hlost
      · exact Feed.view_began hidle (by simp [filterFeed, Ne.symm hp])
          (by simp [filterFeed, Pc.unsent, hp]) (by simp [Pc.closing]) rfl rfl hlost
  | reading port hcmd hport =>
      exact Feed.view_began hidle rfl rfl (by simp [Pc.closing]) rfl rfl hlost

end Began

/-! ## Runs of the daemon -/

/-- A step in which the client `c` takes a receiver of `p`, where `taking` says
at which point of a command. -/
def Takes (taking : Pc → Prop) (c : ClientId) (p : String) (w : World) (e : Event)
    (_ : World) : Prop :=
  e = .client c .dispatch ∧
    (∃ cl req pc, w.clients c = some cl ∧ cl.dispatch = some (req, pc) ∧ taking pc) ∧
    (w.serial.ports.lookup p).isSome

/-- `subscribe_rx` takes the receiver that the streaming task will push from. -/
def SubscribeTakes (c : ClientId) (p : String) : World → Event → World → Prop :=
  Takes (rxFeed p).taking c p

/-- `filter_rx` or `add_filter_rx` takes the receiver of a new filter. -/
def FilterTakes (c : ClientId) (p : String) : World → Event → World → Prop :=
  Takes (filterFeed p).taking c p

namespace Feed

variable {β : Type} {F : Feed β} {p : String}

/-- Every step that the client itself takes is a step of the mirror. -/
def Tracked (F : Feed β) (p : String) : Prop :=
  ∀ (m m' : SerialManager) (cl cl' : Client) (ce : ClientEvent) (lost lost' : Prop),
    m.Sound → cl.Steps m ce m' cl' → cl'.task.isEnded = false →
    (lost' ↔ lost ∧ ¬ (ce = .dispatch ∧
      ∃ req pc, cl.dispatch = some (req, pc) ∧ F.taking pc ∧ (m.ports.lookup p).isSome)) →
    ReflGen Step (F.view p m cl lost) (F.view p m' cl' lost')

/-- A client that has just connected has no registration on either side. -/
theorem inv_new (hF : F.Lawful p) (m : SerialManager) (lost : Prop) :
    (F.view p m .new lost).Inv where
  current_lt := by
    intro k hk
    obtain ⟨op, hop, rfl⟩ := Option.map_eq_some_iff.mp hk
    exact m.tx_lt p op hop
  source_lt := by
    rintro k (⟨value, hslot⟩ | ⟨value, hmem⟩)
    · exact absurd (hF.slot_new.symm.trans hslot) (by simp)
    · simp [view, Client.new, Client.pending, Client.unsent] at hmem
  stale := by
    rintro - k (⟨value, hslot⟩ | ⟨value, hmem⟩)
    · exact absurd (hF.slot_new.symm.trans hslot) (by simp)
    · simp [view, Client.new, Client.pending, Client.unsent] at hmem
  condemned := fun _ k value hslot => absurd (hF.slot_new.symm.trans hslot) (by simp)
  live := fun value hrecord => absurd (hF.record_new.symm.trans hrecord) (by simp)
  mirrored := fun k value heff => absurd (hF.slot_new.symm.trans heff) (by simp)
  gone := fun _ => hF.slot_new

/-- The mirror of a registration. Its invariant holds in every reachable
world, as long as the streaming task runs. -/
theorem inv_of_run (hF : F.Lawful p) (htracked : F.Tracked p) {c : ClientId}
    {es : List Event} {w : World} (hrun : daemon.run es = some w) :
    ∀ cl, w.clients c = some cl → cl.task.isEnded = false →
      (F.view p w.serial cl
        (daemon.OccurredSince (ClosedByOther c p) (Takes F.taking c p) es)).Inv := by
  intro cl hclient
  refine client_history (P := fun es w cl => cl.task.isEnded = false → (F.view p w.serial cl
    (daemon.OccurredSince (ClosedByOther c p) (Takes F.taking c p) es)).Inv) ?_ ?_ ?_ ?_ hrun
    hclient
  · intro es w _
    exact inv_new hF _ _
  · intro es w w' cl _ _ hlive
    simp [Client.disconnect, StreamTask.stopped, StreamTask.isEnded] at hlive
  · intro es w w' cl cl' ce hes hstep hclient _ _ hsteps ih hlive
    refine Mirror.inv_of_reflGen
      (htracked _ _ _ _ ce _ _ (sound_of_run hes) hsteps hlive ?_) (ih (hsteps.running hlive))
    rw [closedByOther_own hes hstep rfl, Takes]
    simp [hclient]
  · intro es w w' e cl hes hstep _ hchanges hevent ih hlive
    have hreset : ¬ Takes F.taking c p w e w' := by
      rintro ⟨he, -⟩
      obtain ⟨d, de, hd, hde⟩ | ⟨-, hnot⟩ := hevent
      · exact hd (Event.client.inj (hde.symm.trans he)).1
      · exact hnot _ he
    exact Mirror.inv_of_reflGen
      (view_elsewhere hchanges (closedByOther_elsewhere hes hstep hreset hevent)) (ih hlive)

end Feed

theorem rxFeed_tracked (p : String) : (rxFeed p).Tracked p := by
  intro m m' cl cl' ce lost lost' hsound hsteps hlive hlost
  cases hsteps with
  | began req env m' s' pc hidle hbegins =>
      exact rxFeed_began hidle hbegins (hlost.trans (and_iff_left (by simp)))
  | advanced req pc cl' hpc hadvances =>
      refine rxFeed_advanced hpc hadvances hlive (hlost.trans ?_)
      simp [hpc]
  | streamed order writeOk task queue lines hrunning hmoves =>
      obtain rfl : lost' = lost := propext (hlost.trans (and_iff_left (by simp)))
      exact rxFeed_streamed hsound hmoves hlive _

theorem filterFeed_tracked (p : String) : (filterFeed p).Tracked p := by
  intro m m' cl cl' ce lost lost' hsound hsteps hlive hlost
  cases hsteps with
  | began req env m' s' pc hidle hbegins =>
      exact filterFeed_began hidle hbegins (hlost.trans (and_iff_left (by simp)))
  | advanced req pc cl' hpc hadvances =>
      refine filterFeed_advanced hpc hadvances hlive (hlost.trans ?_)
      simp [hpc]
  | streamed order writeOk task queue lines hrunning hmoves =>
      obtain rfl : lost' = lost := propext (hlost.trans (and_iff_left (by simp)))
      exact filterFeed_streamed hsound hmoves hlive _

end Commmon

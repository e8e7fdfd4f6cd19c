/-
# Keywords once, hits once

A filter reports an occurrence of a keyword twice if the keyword is twice in its
list, or if the entry is scanned twice. The first happens exactly if a list with a
repetition has set the filter. The second happens if a filter is set again while the
streaming task has entries to scan that have arrived since: the new receiver will get
them too.
-/

import Commmon.FilterLists
import Commmon.FilterScans

set_option autoImplicit false

namespace Commmon

open Broadcast

/-- The receiver that a command brings to the filter of a port. -/
def RxSubCommand.filterRxOf (p : String) : RxSubCommand → Option Receiver
  | .addFilter port _ rx => if port = p then some rx else none
  | _ => none

private theorem RxSubCommand.brings_filterRxOf (p : String) :
    Brings p (RxSubCommand.filterRxOf p) where
  subscribe port rx := Or.inl rfl
  addFilter port keywords rx := by
    by_cases hp : port = p
    · exact Or.inr ⟨hp, by simp [filterRxOf, hp]⟩
    · exact Or.inl (by simp [filterRxOf, hp])
  unsubscribe port := rfl
  removeFilter port := rfl
  setFilterKeywords port keywords := rfl

/-- The receivers of filters of a port that are on their way to the task. -/
def Client.filtersWaiting (cl : Client) (p : String) : List Receiver :=
  cl.pending.filterMap (RxSubCommand.filterRxOf p)

/-- What has been scanned for a port, and the receivers in the order of their use. -/
def Client.filterLine (cl : Client) (p : String) (scanned : List Arrival) : RxLine where
  pushed := scanned
  receivers := ((cl.task.filter p).slot.map (·.rx)).toList ++ cl.filtersWaiting p

section Client

variable {m m' : SerialManager} {cl cl' : Client} {p : String} {scanned : List Arrival}

/-- The receiver of a filter is kept, or the command brings it. -/
theorem TaskMaps.filterRx_apply (maps : TaskMaps) (cmd : RxSubCommand) (p : String) :
    (((maps.apply cmd).filterStates.lookup p).map (·.rx)).toList.Sublist
      (((maps.filterStates.lookup p).map (·.rx)).toList ++ (cmd.filterRxOf p).toList) := by
  cases cmd with
  | subscribe port rx | unsubscribe port => exact List.sublist_append_left _ _
  | addFilter port keywords rx =>
      by_cases hp : p = port
      · subst hp
        simp [apply, RxSubCommand.filterRxOf, FilterState.new]
      · simp [apply, hp]
  | removeFilter port =>
      by_cases hp : p = port
      · subst hp
        simp [apply]
      · simp [apply, hp]
  | setFilterKeywords port keywords =>
      cases hst : maps.filterStates.lookup port with
      | none =>
          rw [apply, hst]
          exact List.sublist_append_left _ _
      | some st =>
          by_cases hp : p = port
          · subst hp
            simp [apply, hst, FilterState.setKeywords]
          · simp [apply, hst, hp]

theorem FilterView.Polls.line {polling : Prop} {v v' : FilterView} {written : List FilterHit}
    {scans : List Scan} (h : v.Polls m polling v' written scans) (waiting : List Receiver) :
    RxLine.Steps m p (polling ∧ v.slot.isSome)
      ⟨scanned, (v.slot.map (·.rx)).toList ++ waiting⟩
      ⟨scanned ++ scans.map (·.arrival), (v'.slot.map (·.rx)).toList ++ waiting⟩ := by
  cases h with
  | scanned st st' entry hpolling hentry hrx =>
      simp only [Option.map_some, hrx]
      exact .received scanned st.rx waiting entry ⟨hpolling, rfl⟩ hentry
  | lagged st hlost => simpa using RxLine.Steps.skipped scanned st.rx waiting hlost
  | dropped slot =>
      rw [List.map_nil, List.append_nil]
      exact .kept _ _ (List.Sublist.refl _) (List.sublist_append_right _ _)
  | still | wrote =>
      rw [List.map_nil, List.append_nil]
      exact .kept _ _ (List.Sublist.refl _) (List.Sublist.refl _)

/-- A step of the task either scans for the port, or drops what there is. -/
theorem Client.filterLine_streamed {order : List String} {writeOk : Bool} {task : StreamTask}
    {queue : List RxSubCommand} {lines : List Push} {written : List Outgoing}
    (h : cl.task.step m cl.queue order writeOk = some (task, queue, lines)) :
    RxLine.Steps m p (cl.task.filtersAt p ∧ (cl.task.filter p).slot.isSome)
      (cl.filterLine p scanned)
      (filterLine { cl with task := task, queue := queue, written := written } p
        (scanned ++ (cl.task.scans m p).map (·.arrival))) := by
  obtain ⟨⟨⟨cmd, hqueue, hmaps⟩, -, -⟩, -, hscans⟩ | ⟨rfl, hpolls⟩ | ⟨rfl, rfl, -, hscans⟩ :=
    StreamTask.step_filterPolls (p := p) h
  · rw [hscans, List.map_nil, List.append_nil]
    refine .kept _ _ (List.Sublist.refl _) ?_
    have hwaiting : cl.filtersWaiting p = (cmd.filterRxOf p).toList ++
        (queue ++ cl.unsent).filterMap (RxSubCommand.filterRxOf p) := by
      rw [filtersWaiting, pending, hqueue, List.cons_append, List.filterMap_cons]
      cases cmd.filterRxOf p <;> rfl
    simp only [filterLine, hwaiting, StreamTask.filter]
    rw [hmaps, ← List.append_assoc]
    exact (cl.task.maps.filterRx_apply cmd p).append_right _
  · exact hpolls.line _
  · rw [hscans, List.map_nil, List.append_nil]
    refine .kept _ _ (List.Sublist.refl _) ?_
    simp only [filterLine, filtersWaiting, pending, List.nil_append, List.filterMap_append]
    exact (List.sublist_append_right _ _).trans (List.sublist_append_right _ _)

private theorem Client.Advances.filterLine {req : Request} {pc : Pc} (h : cl.Advances m req pc cl')
    (hpc : cl.dispatch = some (req, pc)) :
    RxLine.Steps m p False (cl.filterLine p scanned) (cl'.filterLine p scanned) := by
  have hline := h.line hpc (RxSubCommand.brings_filterRxOf p) scanned
    ((cl.task.filter p).slot.map (·.rx)).toList
  rw [Client.filterLine, Client.filterLine, h.task_eq]
  exact hline

private theorem Dispatch.Begins.filterLine {s' : ClientSession} {req : Request} {pc : Pc}
    (h : Begins m cl.session req m' s' pc) (hidle : cl.dispatch = none) :
    Client.filterLine { cl with session := s', dispatch := some (req, pc) } p scanned =
      cl.filterLine p scanned := by
  have hline := h.line hidle (RxSubCommand.brings_filterRxOf p)
  simp only [Client.filterLine, Client.filtersWaiting, hline]

end Client

/-- The hits for the port that have been written to the client or are in hand. -/
def Client.hits (cl : Client) (p : String) : List FilterHit :=
  cl.written.filterMap (Outgoing.hitOf p) ++ (cl.task.filter p).inHand

namespace Client

variable {m m' : SerialManager} {cl cl' : Client} {p : String}

/-- What is written or in hand after a step was so before, or has been scanned. -/
theorem Polls.hits {polling : Prop} {v v' : FilterView} {written : List FilterHit}
    {scans : List Scan} (h : v.Polls m polling v' written scans) :
    written ++ v'.inHand = v.inHand ++ scans.flatMap Scan.hits := by
  cases h <;> simp

private theorem hits_streamed {order : List String} {writeOk : Bool} {task : StreamTask}
    {queue : List RxSubCommand} {lines : List Push}
    (h : cl.task.step m cl.queue order writeOk = some (task, queue, lines)) :
    (hits { cl with
      task := task, queue := queue, written := cl.written ++ lines.map Outgoing.push } p).Sublist
      (cl.hits p ++ (cl.task.scans m p).flatMap Scan.hits) := by
  have hwritten : hits { cl with
      task := task, queue := queue, written := cl.written ++ lines.map Outgoing.push } p =
      cl.written.filterMap (Outgoing.hitOf p) ++
        (lines.filterMap (Push.hitOf p) ++ (task.filter p).inHand) := by
    simp only [hits, List.filterMap_append, filterMap_hitOf_push, List.append_assoc]
  rw [hwritten, hits, List.append_assoc]
  apply List.Sublist.append_left
  obtain ⟨⟨-, hhand, hhand'⟩, rfl, hscans⟩ | ⟨-, hpolls⟩ | ⟨rfl, -, rfl, hscans⟩ :=
    StreamTask.step_filterPolls (p := p) h
  · rw [hhand, hhand', hscans]
    exact List.Sublist.refl _
  · rw [Polls.hits hpolls]
  · exact List.nil_sublist _

theorem Advances.hits_eq {req : Request} {pc : Pc} (h : cl.Advances m req pc cl') :
    cl'.hits p = cl.hits p := by
  have htask := h.task_eq
  cases h with
  | wrote resp => simp [hits, Outgoing.hitOf]
  | _ => rfl

/-- A filter scans for the keywords that it has. -/
theorem keywords_of_scans {x : Scan} (h : x ∈ cl.task.scans m p) :
    x.st.keywords ∈ cl.lists p := by
  rw [mem_lists]
  unfold StreamTask.scans at h
  split at h
  · rename_i st hat hst
    split at h
    · obtain rfl := List.mem_singleton.mp h
      exact Or.inl (by simp [TaskMaps.keywordsOf, hst])
    · simp at h
  · simp at h

end Client

/-- What a step scans for the client's port. -/
def World.scans (c : ClientId) (p : String) (w : World) : Event → List Scan
  | .client d (.task _ _) =>
      match w.clients c with
      | some cl => if d = c then cl.task.scans w.serial p else []
      | none => []
  | _ => []

/-- What a run has scanned for the client's port. -/
def scansOf (c : ClientId) (p : String) (es : List Event) : List Scan :=
  daemon.collect (World.scans c p) daemon.init es

private theorem scansOf_snoc {c : ClientId} {p : String} {es : List Event} {e : Event}
    {w w' : World} (hrun : daemon.run es = some w) (hstep : daemon.step w e = some w') :
    scansOf c p (es ++ [e]) = scansOf c p es ++ w.scans c p e :=
  daemon.collect_snoc hrun hstep

/-- The task is about to scan an entry of `p` that arrived after a filter of `p` was
made that it has not taken out of its queue. -/
def Client.filterOverlaps (cl : Client) (m : SerialManager) (p : String) : Bool :=
  cl.task.filtersAt p && (cl.task.maps.filterStates.lookup p).any fun st =>
    st.rx.next < (m.channels st.rx.chan).tail &&
      (cl.filtersWaiting p).any fun rx' => rx'.chan = st.rx.chan && rx'.next ≤ st.rx.next

/-- The same, at a step of the task of `c`. -/
def World.filterOverlaps (c : ClientId) (p : String) (w : World) : Event → Bool
  | .client d (.task _ _) => d = c && (w.clients c).any fun cl => cl.filterOverlaps w.serial p
  | _ => false

/-- The task scans only where the condition looks. -/
theorem Client.filterOverlaps_of_filtersAt {cl : Client} {m : SerialManager} {p : String}
    {scanned : List Arrival}
    (hat : cl.task.filtersAt p ∧ (cl.task.filter p).slot.isSome)
    (hoverlaps : RxLine.Overlaps m (cl.filterLine p scanned)) : cl.filterOverlaps m p = true := by
  obtain ⟨st, hst⟩ := Option.isSome_iff_exists.mp hat.2
  obtain ⟨first, rest, hfirst, hlt, rx', hrx', hchan, hle⟩ := hoverlaps
  rw [filterLine, hst] at hfirst
  obtain ⟨rfl, rfl⟩ := List.cons.inj hfirst
  have hlookup : cl.task.maps.filterStates.lookup p = some st := hst
  simp only [filterOverlaps, hat.1, hlookup, Option.any_some, Bool.true_and, Bool.and_eq_true,
    decide_eq_true_eq, List.any_eq_true]
  exact ⟨hlt, rx', hrx', hchan, hle⟩

/-- What holds of a client's port as long as no list has set its filter with a
keyword twice and no two receivers of it overlap. -/
structure Client.Scanned (cl : Client) (m : SerialManager) (p : String) (scans : List Scan) :
    Prop where
  ordered : RxLine.Ordered m p (cl.filterLine p (scans.map (·.arrival)))
  hits : (cl.hits p).Sublist (scans.flatMap Scan.hits)
  nodup : ∀ x ∈ scans, x.st.keywords.Nodup

namespace Client.Scanned

variable {m m' : SerialManager} {cl cl' : Client} {p : String} {scans : List Scan}

theorem changes (h : cl.Scanned m p scans) (hchanges : SerialManager.Changes m m') :
    cl.Scanned m' p scans :=
  ⟨h.ordered.changes hchanges, h.hits, h.nodup⟩

theorem began {s' : ClientSession} {req : Request} {pc : Pc} (h : cl.Scanned m p scans)
    (hidle : cl.dispatch = none) (hbegins : Dispatch.Begins m cl.session req m' s' pc) :
    Client.Scanned { cl with session := s', dispatch := some (req, pc) } m p scans where
  ordered := by
    rw [hbegins.filterLine hidle]
    exact h.ordered
  hits := h.hits
  nodup := h.nodup

theorem advanced {req : Request} {pc : Pc} (h : cl.Scanned m p scans)
    (hpc : cl.dispatch = some (req, pc)) (hadvances : cl.Advances m req pc cl') :
    cl'.Scanned m p scans where
  ordered := (hadvances.filterLine hpc).ordered h.ordered False.elim
  hits := by
    rw [hadvances.hits_eq]
    exact h.hits
  nodup := h.nodup

theorem streamed {order : List String} {writeOk : Bool} {task : StreamTask}
    {queue : List RxSubCommand} {lines : List Push} (h : cl.Scanned m p scans)
    (hstep : cl.task.step m cl.queue order writeOk = some (task, queue, lines))
    (hclear : cl.filterOverlaps m p = false) (hlists : ∀ keywords ∈ cl.lists p, keywords.Nodup) :
    Client.Scanned { cl with
      task := task, queue := queue, written := cl.written ++ lines.map Outgoing.push } m p
      (scans ++ cl.task.scans m p) where
  ordered := by
    rw [List.map_append]
    apply (Client.filterLine_streamed hstep).ordered h.ordered
    intro hat hoverlaps
    simp [Client.filterOverlaps_of_filtersAt hat hoverlaps] at hclear
  hits := by
    rw [List.flatMap_append]
    exact (Client.hits_streamed hstep).trans (h.hits.append_right _)
  nodup x hx := by
    rcases List.mem_append.mp hx with hold | hnew
    · exact h.nodup x hold
    · exact hlists _ (Client.keywords_of_scans hnew)

/-- A client that leaves drops its filters. -/
theorem disconnect (h : cl.Scanned m p scans) : cl.disconnect.Scanned m p scans where
  ordered := h.ordered.kept (List.Sublist.refl _) (List.nil_sublist _)
  hits := by
    apply List.Sublist.trans _ h.hits
    simp [Client.hits, Client.disconnect, StreamTask.filter, StreamTask.stopped, TaskPc.lines]
  nodup := h.nodup

end Client.Scanned

private theorem Client.orders_disconnect {cl : Client} (hidle : cl.dispatch = none) (p : String) :
    cl.disconnect.orders p = cl.orders p := by
  simp [orders, carriedOut, disconnect, hidle]

/-- The history rule for a client from the beginning of the run on. Before it connects
it counts as new. -/
theorem client_history_new {c : ClientId} {P : List Event → World → Client → Prop}
    (base : P [] daemon.init .new)
    (elsewhere : ∀ es w w' e cl, daemon.run es = some w → daemon.step w e = some w' →
      (∀ ce, e ≠ .client c ce) → SerialManager.Changes w.serial w'.serial →
      P es w cl → P (es ++ [e]) w' cl)
    (left : ∀ es w w' cl, daemon.run es = some w → daemon.step w (.disconnect c) = some w' →
      cl.dispatch = none → SerialManager.Changes w.serial w'.serial →
      P es w cl → P (es ++ [.disconnect c]) w' cl.disconnect)
    (own : ∀ es w w' cl cl' ce, daemon.run es = some w →
      daemon.step w (.client c ce) = some w' → w.clients c = some cl →
      w'.clients c = some cl' → cl.Steps w.serial ce w'.serial cl' →
      P es w cl → P (es ++ [.client c ce]) w' cl')
    {es : List Event} {w : World} (hrun : daemon.run es = some w) {cl : Client}
    (hclient : w.clients c = some cl) : P es w cl := by
  suffices hall : P es w ((w.clients c).getD .new) by
    rwa [hclient] at hall
  refine daemon.run_history (P := fun es w => P es w ((w.clients c).getD .new)) base ?_ hrun
  intro es w e w' hes ih hstep
  have hseen := World.step_seen hstep c
  have hchanges := hseen.changes
  cases hseen with
  | joined he hclient hclient' hserial =>
      rw [hclient, Option.getD_none] at ih
      rw [hclient', Option.getD_some]
      exact elsewhere es w w' e .new hes hstep (fun ce hce => by simp [he] at hce) hchanges ih
  | left cl he hclient hidle hclient' hserial =>
      rw [hclient, Option.getD_some] at ih
      rw [hclient', Option.getD_some]
      subst he
      exact left es w w' cl hes hstep hidle hchanges ih
  | own cl cl' ce he hclient hconnected hsteps hclient' =>
      rw [hclient, Option.getD_some] at ih
      rw [hclient', Option.getD_some]
      subst he
      exact own es w w' cl cl' ce hes hstep hclient hclient' hsteps ih
  | elsewhere hsame hchanges hevent =>
      rw [hsame]
      refine elsewhere es w w' e _ hes hstep (fun ce hce => ?_) hchanges ih
      obtain ⟨d, ce', hne, he⟩ | ⟨-, hnone⟩ := hevent
      · rw [hce] at he
        exact hne (Event.client.inj he).1.symm
      · exact hnone ce hce

/-- Nothing is scanned twice in a run in which no list has set the filter of the
port with a keyword twice and no two receivers of it overlap. -/
theorem scanned_of_run {c : ClientId} {p : String} {es : List Event} {w : World}
    (hrun : daemon.run es = some w)
    (halong : daemon.Along (fun w e _ => w.filterOverlaps c p e = false) daemon.init es)
    {cl : Client} (hclient : w.clients c = some cl) (hset : SetDistinctly (cl.orders p)) :
    cl.Scanned w.serial p (scansOf c p es) := by
  refine client_history_new (P := fun es w cl =>
    daemon.Along (fun w e _ => w.filterOverlaps c p e = false) daemon.init es →
      SetDistinctly (cl.orders p) → cl.Scanned w.serial p (scansOf c p es)) ?_ ?_ ?_ ?_ hrun
    hclient halong hset
  · intro _ _
    exact ⟨RxLine.ordered_nil, List.Sublist.refl _, by simp [scansOf, StepSystem.collect]⟩
  · intro es w w' e cl hes hstep hother hchanges ih halong hset
    have hbefore := ((daemon.along_append hes).mp halong).1
    have hnone : w.scans c p e = [] := by
      unfold World.scans
      split
      · rename_i d order writeOk
        split
        · rw [if_neg]
          rintro rfl
          exact hother _ rfl
        · rfl
      · rfl
    rw [scansOf_snoc hes hstep, hnone, List.append_nil]
    exact (ih hbefore hset).changes hchanges
  · intro es w w' cl hes hstep hidle hchanges ih halong hset
    have hbefore := ((daemon.along_append hes).mp halong).1
    rw [Client.orders_disconnect hidle] at hset
    rw [scansOf_snoc hes hstep]
    simp only [World.scans, List.append_nil]
    exact ((ih hbefore hset).changes hchanges).disconnect
  · intro es w w' cl cl' ce hes hstep hcl hcl' hsteps ih halong hset
    obtain ⟨hbefore, hlast⟩ := (daemon.along_append hes).mp halong
    have hclear : w.filterOverlaps c p (.client c ce) = false := (hlast w' hstep).1
    have hcarries := carries_of_step hes hstep hcl hcl'
    have hset' := hset.of_prefix (hcarries.orders_grow p)
    have hscanned := ih hbefore hset'
    have hstep' : w.step (.client c ce) = some w' := hstep
    rw [scansOf_snoc hes hstep]
    apply Client.Scanned.changes _ (World.step_seen hstep' c).changes
    cases ce with
    | request req env =>
        simp only [World.scans, List.append_nil]
        cases hsteps with
        | began req env m' s' pc hidle hbegins => exact hscanned.began hidle hbegins
    | dispatch =>
        simp only [World.scans, List.append_nil]
        generalize w'.serial = m' at hsteps
        cases hsteps with
        | advanced req pc cl' hpc hadvances => exact hscanned.advanced hpc hadvances
    | task order writeOk =>
        obtain ⟨task, queue, lines, htask, rfl⟩ := World.step_task hstep hcl hcl'
        simp only [World.scans, hcl, if_true]
        apply hscanned.streamed htask
        · simpa [World.filterOverlaps, hcl] using hclear
        · exact nodup_lists_of_run hes hcl hset'

/-- What a client has asked of a filter, it has asked of it ever after. -/
theorem orders_prefix_of_run {before after : List Event} {v w : World}
    (hbefore : daemon.run before = some v) (hrun : daemon.run (before ++ after) = some w)
    {c : ClientId} {x : Client} (hx : v.clients c = some x) (p : String) :
    ∃ cl, w.clients c = some cl ∧ x.orders p <+: cl.orders p := by
  refine daemon.run_history_from
    (P := fun _ w => ∃ cl, w.clients c = some cl ∧ x.orders p <+: cl.orders p) ?_ ?_ hrun
  · intro s hs
    obtain rfl := Option.some.inj (hbefore.symm.trans hs)
    exact ⟨x, hx, List.prefix_refl _⟩
  · intro es w e w' hes ih hstep
    obtain ⟨cl, hcl, hpre⟩ := ih
    cases World.step_seen hstep c with
    | joined he hnone hclient' hserial => simp [hcl] at hnone
    | left cl₀ he hclient hidle hclient' hserial =>
        obtain rfl := Option.some.inj (hclient.symm.trans hcl)
        exact ⟨_, hclient', (Client.orders_disconnect hidle p).symm ▸ hpre⟩
    | own cl₀ cl' ce he hclient hconnected hsteps hclient' =>
        obtain rfl := Option.some.inj (hclient.symm.trans hcl)
        subst he
        exact ⟨cl', hclient',
          hpre.trans ((carries_of_step hes hstep hclient hclient').orders_grow p)⟩
    | elsewhere hsame hchanges hevent => exact ⟨cl, hsame.trans hcl, hpre⟩

/-- The record of a port is the keywords given since the filter was set, each once, in
the order of their first appearance. -/
def Client.RecordsOnce (cl : Client) (p : String) : Prop :=
  cl.session.filterSubscriptions.lookup p = (givenBy (cl.orders p)).map List.eraseDups

/-- In every state of the run up to here. -/
def RecordedOnce (c : ClientId) (p : String) (es : List Event) : Prop :=
  ∀ before v x, before <+: es → daemon.run before = some v → v.clients c = some x →
    x.connected = true → x.RecordsOnce p

theorem RecordedOnce.of_prefix {c : ClientId} {p : String} {es es' : List Event}
    (h : RecordedOnce c p es) (hpre : es' <+: es) : RecordedOnce c p es' :=
  fun before v x hbefore => h before v x (hbefore.trans hpre)

/-- The records are sets only if the lists are that set a filter. -/
theorem setDistinctly_of_run {es : List Event} {w : World} (hrun : daemon.run es = some w)
    {c : ClientId} {cl : Client} (hclient : w.clients c = some cl) {p : String}
    (honce : RecordedOnce c p es) : SetDistinctly (cl.orders p) := by
  refine client_history (P := fun es _ cl => RecordedOnce c p es → SetDistinctly (cl.orders p))
    ?_ ?_ ?_ ?_ hrun hclient honce
  · intro es w _ before hbefore first hfirst
    obtain rfl := List.prefix_nil.mp hbefore
    simp [settingOf] at hfirst
  · intro es w w' cl hidle ih honce
    rw [Client.orders_disconnect hidle]
    exact ih (honce.of_prefix (List.prefix_append _ _))
  · intro es w w' cl cl' ce hes hstep hcl hcl' hconn hsteps ih honce
    have hset := ih (honce.of_prefix (List.prefix_append _ _))
    have hrun' : daemon.run (es ++ [.client c ce]) = some w' :=
      daemon.run_snoc_eq_some.mpr ⟨w, hes, hstep⟩
    have hconn' : cl'.connected = true := hsteps.connected_eq.trans hconn
    have hrecord := honce _ w' cl' (List.prefix_refl _) hrun' hcl' hconn'
    rw [Client.RecordsOnce, recorded_of_run hrun' hcl' hconn' p] at hrecord
    obtain ⟨hsame, -⟩ | ⟨order, hnext, -⟩ :=
      (carries_of_step hes hstep hcl hcl').orders_cases p
    · rw [hsame]
      exact hset
    · intro before hbefore
      rw [hnext] at hbefore hrecord
      obtain rfl | hbefore := List.prefix_concat_iff.mp hbefore
      · exact (recordedBy_eq_iff _).mp hrecord
      · exact hset before hbefore
  · intro es w w' e cl hes hstep hsame hchanges hevent ih honce
    exact ih (honce.of_prefix (List.prefix_append _ _))

/-- The notifications of a port that are written or in hand come from the scans, each
from another place, at which its keyword ends. -/
structure Client.NotifiedOnce (cl : Client) (p : String) (scans : List Scan) : Prop where
  hits : (cl.hits p).Sublist ((scans.flatMap Scan.found).map (·.hit))
  places : ((scans.flatMap Scan.found).map Occurrence.place).Nodup
  ends : ∀ x ∈ scans, ∀ o ∈ x.found, o.arrival = x.arrival ∧ 0 < o.ending ∧
    o.ending ≤ x.arrival.entry.data.length ∧
    asBytes o.hit.keyword <:+ x.st.carry ++ x.arrival.entry.data.take o.ending

private theorem Client.Scanned.notifiedOnce {cl : Client} {m : SerialManager} {p : String}
    {scans : List Scan} (h : cl.Scanned m p scans) : cl.NotifiedOnce p scans where
  hits := by
    simpa [List.map_flatMap] using h.hits
  places := by
    rw [List.map_flatMap, List.nodup_flatMap]
    refine ⟨fun x hx => Scan.nodup_places (h.nodup x hx), ?_⟩
    have hscanned : scans.Pairwise fun x y => x.arrival.Precedes y.arrival :=
      List.pairwise_map.mp h.ordered.pushed
    apply hscanned.imp
    intro x y hprecedes
    apply List.disjoint_left.mpr
    intro place hplace hplace'
    obtain ⟨o, ho, rfl⟩ := List.mem_map.mp hplace
    obtain ⟨o', ho', heq⟩ := List.mem_map.mp hplace'
    simp only [Occurrence.place, Prod.mk.injEq, (Scan.ends_of_mem_found ho).1,
      (Scan.ends_of_mem_found ho').1] at heq
    obtain ⟨-, hchan, hpos, -⟩ := heq
    obtain hlt | ⟨-, hlt⟩ := hprecedes
    · exact absurd hchan (Nat.ne_of_gt hlt)
    · exact absurd hpos (Nat.ne_of_gt hlt)
  ends _ _ _ ho := Scan.ends_of_mem_found ho

/-- When the keywords of a filter form a set. In every state of a run the record of
a port is the keywords given since its filter was set, each once and in the order of
their first appearance, exactly if no list that has set it has a keyword twice. Then
no occurrence of a keyword is notified twice, unless an entry is scanned that a filter
on its way will scan again. -/
theorem recordedOnce_iff {c : ClientId} {p : String} {es : List Event} {w : World}
    (hrun : daemon.run es = some w) {cl : Client} (hclient : w.clients c = some cl) :
    (RecordedOnce c p es ↔ SetDistinctly (cl.orders p)) ∧
      (SetDistinctly (cl.orders p) →
        daemon.Along (fun w e _ => w.filterOverlaps c p e = false) daemon.init es →
        cl.NotifiedOnce p (scansOf c p es)) := by
  refine ⟨⟨setDistinctly_of_run hrun hclient, ?_⟩, ?_⟩
  · rintro hset before v x ⟨after, rfl⟩ hbefore hx hconn
    obtain ⟨cl', hcl', hpre⟩ := orders_prefix_of_run hbefore hrun hx p
    obtain rfl := Option.some.inj (hclient.symm.trans hcl')
    rw [Client.RecordsOnce, recorded_of_run hbefore hx hconn p]
    exact (recordedBy_eq_iff _).mpr (hset _ hpre)
  · intro hset halong
    exact (scanned_of_run hrun halong hclient hset).notifiedOnce

/-- A request that names a port and a list of keywords. -/
def keywordsRequest (cmd port : String) (keywords : List String) : Request :=
  ⟨cmd, .object [("port", .string port), ("keywords", .array (keywords.map .string))]⟩

/-- A port is opened and filtered, the task takes the filter, an entry arrives, and a
pass scans it. -/
def filteredFor (keywords : List String) : List Event :=
  [.connect 0] ++ issue 0 (portRequest "open_port" "P") 2 ++
    issue 0 (keywordsRequest "filter_rx" "P" keywords) 3 ++
    [stream 0 [], stream 0 [], .deliver 0 ⟨"12:00:00", asBytes "A"⟩, stream 0 ["P"], stream 0 []]

/-- A keyword that is there is added again. -/
def addedAgain : List Event :=
  filteredFor ["A", "B"] ++ issue 0 (keywordsRequest "add_filter_rx" "P" ["B", "C"]) 2

private theorem addedAgain_once : (daemon.run addedAgain).any (fun w =>
    (w.clients 0).any fun cl => (cl.hits "P").length == 1 &&
      cl.session.filterSubscriptions.lookup "P" == some ["A", "B", "C"] &&
      (cl.orders "P").inits.all fun orders => decide (∀ first ∈ settingOf orders, first.Nodup)) =
    true := by
  decide +kernel

/-- The theorem where two lists share a keyword. -/
theorem recordedOnce_iff_addedAgain : ∃ w cl, daemon.run addedAgain = some w ∧
    w.clients 0 = some cl ∧ (cl.hits "P").length = 1 ∧ RecordedOnce 0 "P" addedAgain ∧
    cl.NotifiedOnce "P" (scansOf 0 "P" addedAgain) := by
  have hrun := addedAgain_once
  simp only [Option.any_eq_true, Bool.and_eq_true, beq_iff_eq, List.all_eq_true,
    decide_eq_true_eq, List.mem_inits] at hrun
  obtain ⟨w, hw, cl, hcl, ⟨hlength, -⟩, hset⟩ := hrun
  have halong : daemon.Along (fun w e _ => w.filterOverlaps 0 "P" e = false) daemon.init
      addedAgain := by
    decide +kernel
  obtain ⟨hiff, honce⟩ := recordedOnce_iff (p := "P") hw hcl
  exact ⟨w, cl, hw, hcl, hlength, hiff.mpr hset, honce hset halong⟩

private theorem filteredFor_twice : (daemon.run (filteredFor ["A", "A"])).any (fun w =>
    (w.clients 0).any fun cl => cl.connected && (cl.hits "P").length == 2 &&
      cl.session.filterSubscriptions.lookup "P" == some ["A", "A"] &&
      givenBy (cl.orders "P") == some ["A", "A"]) = true := by
  decide +kernel

/-- A filter can be recorded with a keyword twice. -/
theorem not_always_recordedOnce :
    ¬ ∀ (c : ClientId) (p : String) (es : List Event) (w : World) (cl : Client),
      daemon.run es = some w → w.clients c = some cl → cl.connected = true →
        cl.RecordsOnce p := by
  intro hrecorded
  have hrun := filteredFor_twice
  simp only [Option.any_eq_true, Bool.and_eq_true, beq_iff_eq] at hrun
  obtain ⟨w, hw, cl, hcl, ⟨⟨hconn, -⟩, hrecord⟩, hgiven⟩ := hrun
  have honce := hrecorded 0 "P" _ w cl hw hcl hconn
  rw [Client.RecordsOnce, hrecord, hgiven] at honce
  exact absurd honce (by decide)

end Commmon

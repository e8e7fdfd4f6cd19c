/-
# What a filter scans

A streaming task scans an entry of a port and holds the hits until they are written.
Every step of the task is such a scan of the port, writes a hit, drops the filter or
takes a command, or leaves the port alone. A hit is told from others by its place:
the entry in which its keyword ends, and how far into that entry. A scan reports a
place at most once if the filter has no keyword twice.
-/

import Commmon.HitContexts
import Commmon.PushOrder

set_option autoImplicit false

namespace Commmon

open Broadcast PatternSearch

/-- A filter and an entry that it scans. -/
structure Scan where
  st : FilterState
  arrival : Arrival

/-- A hit with the entry in which its keyword ends, and the number of bytes up to
there. -/
structure Occurrence where
  arrival : Arrival
  ending : ℕ
  hit : FilterHit

/-- The keyword and where in the stream it ends. -/
def Occurrence.place (o : Occurrence) : String × ChannelId × ℕ × ℕ :=
  (o.hit.keyword, o.arrival.chan, o.arrival.pos, o.ending)

namespace Scan

/-- The hits of a scan, in the order in which they are written. -/
def hits (x : Scan) : List FilterHit :=
  match x.st.scan x.arrival.entry with
  | some (hits, _) => hits.flatten
  | none => []

def found (x : Scan) : List Occurrence :=
  x.hits.map fun h =>
    ⟨x.arrival, h.abs + (asBytes h.keyword).length - x.st.carry.length, h⟩

theorem hits_eq (x : Scan) : x.hits = x.st.keywords.flatMap fun kw =>
    (hitOffsets kw x.st.carry x.arrival.entry.data).map
      (hitAt (x.st.carry ++ x.arrival.entry.data) x.arrival.entry.timestamp kw) := by
  simp only [hits, FilterState.scan_eq, List.flatMap]

@[simp]
theorem map_hit_found (x : Scan) : x.found.map (·.hit) = x.hits := by
  rw [found, List.map_map]
  exact List.map_id' x.hits

/-- A keyword that is reported is there, and it ends within the entry. -/
theorem ends_of_mem_hitOffsets {kw : String} {carry data : List UInt8} {abs : ℕ}
    (h : abs ∈ hitOffsets kw carry data) :
    carry.length < abs + (asBytes kw).length ∧
      abs + (asBytes kw).length ≤ carry.length + data.length ∧
      asBytes kw <:+ carry ++ data.take (abs + (asBytes kw).length - carry.length) := by
  have hocc := occursAt_of_mem_hitOffsets h
  unfold hitOffsets at h
  split_ifs at h with hne
  · simp at h
  · have hnew : carry.length < abs + (asBytes kw).length := by
      simpa using (List.mem_filter.mp h).2
    have hend := hocc.add_length_le hne
    rw [List.length_append] at hend
    refine ⟨hnew, hend, ?_⟩
    have htake : carry ++ data.take (abs + (asBytes kw).length - carry.length) =
        (carry ++ data).take (abs + (asBytes kw).length) := by
      rw [List.take_append, List.take_of_length_le hnew.le]
    have hdrop : ((carry ++ data).take (abs + (asBytes kw).length)).drop abs = asBytes kw := by
      rw [List.drop_take, Nat.add_sub_cancel_left]
      exact (List.prefix_iff_eq_take.mp hocc).symm
    have hsuffix := List.drop_suffix abs ((carry ++ data).take (abs + (asBytes kw).length))
    rw [htake]
    rwa [hdrop] at hsuffix

/-- The place of a hit is one of its entry, and the keyword ends there. -/
theorem ends_of_mem_found {x : Scan} {o : Occurrence} (h : o ∈ x.found) :
    o.arrival = x.arrival ∧ 0 < o.ending ∧ o.ending ≤ x.arrival.entry.data.length ∧
      asBytes o.hit.keyword <:+ x.st.carry ++ x.arrival.entry.data.take o.ending := by
  rw [found, hits_eq] at h
  simp only [List.mem_map, List.mem_flatMap] at h
  obtain ⟨hit, ⟨kw, -, abs, habs, rfl⟩, rfl⟩ := h
  obtain ⟨hnew, hend, hsuffix⟩ := ends_of_mem_hitOffsets habs
  exact ⟨rfl, Nat.sub_pos_of_lt hnew, Nat.sub_le_of_le_add (hend.trans_eq (Nat.add_comm _ _)),
    hsuffix⟩

/-- A scan reports no place twice if no keyword of the filter is there twice. -/
theorem nodup_places {x : Scan} (h : x.st.keywords.Nodup) :
    (x.found.map Occurrence.place).Nodup := by
  rw [found, hits_eq, List.map_map, List.map_flatMap, List.nodup_flatMap]
  constructor
  · intro kw _
    rw [List.map_map]
    apply List.Nodup.map_on
    · intro i hi j hj hij
      obtain ⟨hnew, -, -⟩ := ends_of_mem_hitOffsets hi
      obtain ⟨hnew', -, -⟩ := ends_of_mem_hitOffsets hj
      simp only [Function.comp_apply, hitAt, Occurrence.place, Prod.mk.injEq, true_and] at hij
      omega
    · unfold hitOffsets
      split_ifs
      · exact List.nodup_nil
      · exact ((pairwise_occurrences _ _).imp Nat.ne_of_lt).filter _
  · apply h.imp
    intro kw kw' hne
    apply List.disjoint_left.mpr
    intro place hplace hplace'
    simp only [List.mem_map] at hplace hplace'
    obtain ⟨hit, ⟨i, -, rfl⟩, rfl⟩ := hplace
    obtain ⟨hit', ⟨j, -, rfl⟩, heq⟩ := hplace'
    exact hne (Prod.mk.inj heq).1.symm

end Scan

/-- The hit that a line reports for the port. -/
def Push.hitOf (p : String) : Push → Option FilterHit
  | .rxData _ _ => none
  | .filterHit port hit => if port = p then some hit else none

def Outgoing.hitOf (p : String) : Outgoing → Option FilterHit
  | .response _ _ => none
  | .push line => line.hitOf p

theorem filterMap_hitOf_push (p : String) (lines : List Push) :
    (lines.map Outgoing.push).filterMap (Outgoing.hitOf p) = lines.filterMap (Push.hitOf p) := by
  rw [List.filterMap_map]
  rfl

/-- The lines of a scan are its hits. -/
theorem filterMap_hitOf_filterHit (p port : String) (hits : List FilterHit) :
    (hits.map (Push.filterHit port)).filterMap (Push.hitOf p) = if port = p then hits else [] := by
  by_cases hp : port = p
  · simp [hp, Push.hitOf, Function.comp_def]
  · simp [hp, Push.hitOf]

/-- The filter of a port and the hits that have been found and not been written. -/
structure FilterView where
  slot : Option FilterState
  inHand : List FilterHit

namespace StreamTask

def filter (t : StreamTask) (p : String) : FilterView where
  slot := t.maps.filterStates.lookup p
  inHand := t.pc.lines.filterMap (Push.hitOf p)

/-- The filtering pass is at the port, and has no line to write. -/
def filtersAt (t : StreamTask) (p : String) : Bool :=
  match t.pc with
  | .pollFilters [] (port :: _) _ _ => port = p
  | _ => false

/-- What the next step scans for the port. -/
def scans (t : StreamTask) (m : SerialManager) (p : String) : List Scan :=
  match t.filtersAt p, t.maps.filterStates.lookup p with
  | true, some st =>
      match (m.tryRecv st.rx).1 with
      | .ok pos entry => [⟨st, ⟨st.rx.chan, pos, entry⟩⟩]
      | _ => []
  | _, _ => []

end StreamTask

/-- What a step that takes no command does about a port, what it writes, and what it
scans. -/
inductive FilterView.Polls (m : SerialManager) (polling : Prop) :
    FilterView → FilterView → List FilterHit → List Scan → Prop
  | still (v : FilterView) : Polls m polling v v [] []
  | wrote (slot : Option FilterState) (hit : FilterHit) (rest : List FilterHit) :
      Polls m polling ⟨slot, hit :: rest⟩ ⟨slot, rest⟩ [hit] []
  | scanned (st st' : FilterState) (entry : RxEntry) (hpolling : polling)
      (hentry : (m.channels st.rx.chan).sent[st.rx.next]? = some entry)
      (hrx : st'.rx = { st.rx with next := st.rx.next + 1 }) :
      Polls m polling ⟨some st, []⟩
        ⟨some st', Scan.hits ⟨st, ⟨st.rx.chan, st.rx.next, entry⟩⟩⟩ []
        [⟨st, ⟨st.rx.chan, st.rx.next, entry⟩⟩]
  | lagged (st : FilterState) (hlost : st.rx.next < (m.channels st.rx.chan).oldest) :
      Polls m polling ⟨some st, []⟩
        ⟨some { st with rx := { st.rx with next := (m.channels st.rx.chan).oldest } }, []⟩ [] []
  | dropped (slot : Option FilterState) : Polls m polling ⟨slot, []⟩ ⟨none, []⟩ [] []

namespace StreamTask

variable {m : SerialManager} {t : StreamTask} {p : String}

/-- Elsewhere nothing is scanned. -/
theorem scans_of_not_filtersAt (h : t.filtersAt p = false) : t.scans m p = [] := by
  simp only [scans, h]

/-- A step that has no part in the filter of the port. -/
theorem filterPolls_still {t' : StreamTask} {written : List FilterHit}
    (hat : t.filtersAt p = false)
    (hslot : t'.maps.filterStates.lookup p = t.maps.filterStates.lookup p)
    (hlines : t.pc.lines.filterMap (Push.hitOf p) = [])
    (hlines' : t'.pc.lines.filterMap (Push.hitOf p) = []) (hwritten : written = []) :
    (t.filter p).Polls m (t.filtersAt p) (t'.filter p) written (t.scans m p) := by
  rw [scans_of_not_filtersAt hat, hwritten]
  have hsame : t'.filter p = t.filter p := by
    simp only [filter, hslot, hlines, hlines']
  rw [hsame]
  exact .still _

/-- Writing the first of the lines. -/
theorem filterPolls_line {t' : StreamTask} {line : Push} {lines : List Push}
    (hat : t.filtersAt p = false)
    (hslot : t'.maps.filterStates.lookup p = t.maps.filterStates.lookup p)
    (hlines : t.pc.lines = line :: lines) (hlines' : t'.pc.lines = lines) :
    (t.filter p).Polls m (t.filtersAt p) (t'.filter p) ([line].filterMap (Push.hitOf p))
      (t.scans m p) := by
  rw [scans_of_not_filtersAt hat]
  simp only [filter, hslot, hlines, hlines']
  cases hline : line.hitOf p with
  | none => simpa [hline] using FilterView.Polls.still _
  | some hit => simpa [hline] using FilterView.Polls.wrote _ hit _

private theorem pollRxAt_lines {port : String} {todo closed : List String} {gotData : Bool} :
    (t.pollRxAt m port todo closed gotData).maps.filterStates = t.maps.filterStates ∧
      (t.pollRxAt m port todo closed gotData).pc.lines.filterMap (Push.hitOf p) = [] := by
  unfold pollRxAt
  split
  · exact ⟨rfl, rfl⟩
  · split <;> exact ⟨rfl, rfl⟩

private theorem pollFilterAt_filterPolls {port : String} {todo closed : List String}
    {gotData : Bool} (hpc : t.pc = .pollFilters [] (port :: todo) closed gotData) :
    (t.filter p).Polls m (t.filtersAt p) ((t.pollFilterAt m port todo closed gotData).filter p) []
      (t.scans m p) := by
  have hfilter : t.filter p = ⟨t.maps.filterStates.lookup p, []⟩ := by
    simp only [filter, hpc, TaskPc.lines, List.filterMap_nil]
  have hat : t.filtersAt p = decide (port = p) := by simp only [filtersAt, hpc]
  rw [hfilter]
  unfold pollFilterAt
  by_cases hp : port = p
  · subst hp
    rw [decide_eq_true rfl] at hat
    unfold scans
    rw [hat]
    cases hlookup : t.maps.filterStates.lookup port with
    | none => simpa [filter, hlookup, TaskPc.lines] using FilterView.Polls.still _
    | some st =>
        simp only [SerialManager.tryRecv]
        obtain ⟨entry, hentry, -, -, h⟩ | ⟨hlost, h⟩ | ⟨-, -, h⟩ | ⟨-, -, h⟩ :=
          (m.channels st.rx.chan).tryRecv_cases st.rx.next <;>
          simp only [h, filter, TaskPc.lines, List.filterMap_nil, AList.lookup_insert, hlookup]
        · let st' : FilterState :=
            { st with
              rx := { st.rx with next := st.rx.next + 1 }
              carry := st.nextCarry entry.data }
          have hscan : FilterView.Polls m (true = true) ⟨some st, []⟩ ⟨some st', _⟩ [] _ :=
            .scanned st st' entry rfl hentry rfl
          simp only [FilterState.scan_eq, filterMap_hitOf_filterHit, if_true, Scan.hits,
            AList.lookup_insert] at hscan ⊢
          exact hscan
        · exact .lagged st hlost
        · exact .still _
        · exact .still _
  · rw [decide_eq_false hp] at hat
    rw [scans_of_not_filtersAt hat, hat]
    cases hlookup : t.maps.filterStates.lookup port with
    | none => exact .still _
    | some st =>
        simp only [SerialManager.tryRecv]
        obtain ⟨entry, -, -, -, h⟩ | ⟨-, h⟩ | ⟨-, -, h⟩ | ⟨-, -, h⟩ :=
          (m.channels st.rx.chan).tryRecv_cases st.rx.next <;>
          simp only [h, FilterState.scan_eq, filter, TaskPc.lines, List.filterMap_nil,
            AList.lookup_insert_ne (Ne.symm hp), filterMap_hitOf_filterHit, if_neg hp]
        all_goals exact .still _

/-- A task takes the first of its commands, and has nothing in hand. -/
structure TakesFilter (t : StreamTask) (queue : List RxSubCommand) (p : String) (t' : StreamTask)
    (queue' : List RxSubCommand) : Prop where
  command : ∃ cmd, queue = cmd :: queue' ∧ t'.maps = t.maps.apply cmd
  inHand : (t.filter p).inHand = []
  inHand' : (t'.filter p).inHand = []

/-- What a step of a streaming task does about a filter. -/
theorem step_filterPolls {queue : List RxSubCommand} {order : List String} {writeOk : Bool}
    {r : StreamTask × List RxSubCommand × List Push}
    (h : t.step m queue order writeOk = some r) :
    (t.TakesFilter queue p r.1 r.2.1 ∧ r.2.2 = [] ∧ t.scans m p = []) ∨
    (r.2.1 = queue ∧ (t.filter p).Polls m (t.filtersAt p) (r.1.filter p)
      (r.2.2.filterMap (Push.hitOf p)) (t.scans m p)) ∨
    (r.1 = .stopped ∧ r.2.1 = [] ∧ r.2.2 = [] ∧ t.scans m p = []) := by
  unfold step at h
  split at h
  · rename_i hpc
    have hat : t.filtersAt p = false := by rw [filtersAt, hpc]
    split at h
    · obtain rfl := Option.some.inj h
      refine Or.inl ⟨⟨⟨_, rfl, rfl⟩, ?_, ?_⟩, rfl, scans_of_not_filtersAt hat⟩
      · simp [filter, hpc, TaskPc.lines]
      · simp [filter, hpc, TaskPc.lines]
    · split_ifs at h <;> obtain rfl := Option.some.inj h
      · exact Or.inr (Or.inl ⟨rfl, filterPolls_still hat rfl (by rw [hpc]; rfl) rfl rfl⟩)
      · exact Or.inr (Or.inl ⟨rfl, filterPolls_still hat rfl (by rw [hpc]; rfl) rfl rfl⟩)
  · rename_i hpc
    have hat : t.filtersAt p = false := by rw [filtersAt, hpc]
    split at h
    · obtain rfl := Option.some.inj h
      refine Or.inl ⟨⟨⟨_, rfl, rfl⟩, ?_, ?_⟩, rfl, scans_of_not_filtersAt hat⟩
      · simp [filter, hpc, TaskPc.lines]
      · simp [filter, TaskPc.lines]
    · exact absurd h (by simp)
  · rename_i hpc
    have hat : t.filtersAt p = false := by rw [filtersAt, hpc]
    split_ifs at h with hok <;> obtain rfl := Option.some.inj h
    · exact Or.inr (Or.inl ⟨rfl, filterPolls_line hat rfl (by rw [hpc]; rfl) rfl⟩)
    · exact Or.inr (Or.inr ⟨rfl, rfl, rfl, scans_of_not_filtersAt hat⟩)
  · rename_i hpc
    obtain rfl := Option.some.inj h
    have hat : t.filtersAt p = false := by rw [filtersAt, hpc]
    obtain ⟨hfilters, hlines⟩ := pollRxAt_lines (m := m) (t := t) (p := p)
    refine Or.inr (Or.inl ⟨rfl, filterPolls_still hat ?_ ?_ hlines rfl⟩)
    · rw [hfilters]
    · rw [hpc]
      rfl
  · rename_i hpc
    have hat : t.filtersAt p = false := by rw [filtersAt, hpc]
    split_ifs at h
    obtain rfl := Option.some.inj h
    exact Or.inr (Or.inl ⟨rfl, filterPolls_still hat rfl (by rw [hpc]; rfl) rfl rfl⟩)
  · rename_i hpc
    have hat : t.filtersAt p = false := by rw [filtersAt, hpc]
    split_ifs at h with hok <;> obtain rfl := Option.some.inj h
    · exact Or.inr (Or.inl ⟨rfl, filterPolls_line hat rfl (by rw [hpc]; rfl) rfl⟩)
    · exact Or.inr (Or.inr ⟨rfl, rfl, rfl, scans_of_not_filtersAt hat⟩)
  · rename_i hpc
    obtain rfl := Option.some.inj h
    simp only [pollFilterAt_isEnded, Bool.false_eq_true, if_false]
    exact Or.inr (Or.inl ⟨trivial, pollFilterAt_filterPolls hpc⟩)
  · rename_i closed gotData hpc
    have hat : t.filtersAt p = false := by rw [filtersAt, hpc]
    obtain rfl := Option.some.inj h
    refine Or.inr (Or.inl ⟨rfl, ?_⟩)
    rw [scans_of_not_filtersAt hat]
    by_cases hp : p ∈ closed
    · cases gotData <;>
        simpa [filter, hpc, TaskPc.lines, Table.lookup_eraseAll, hp] using
          FilterView.Polls.dropped _
    · cases gotData <;>
        simpa [filter, hpc, TaskPc.lines, Table.lookup_eraseAll, hp] using
          FilterView.Polls.still _
  · rename_i hpc
    have hat : t.filtersAt p = false := by rw [filtersAt, hpc]
    obtain rfl := Option.some.inj h
    exact Or.inr (Or.inl ⟨rfl, filterPolls_still hat rfl (by rw [hpc]; rfl) rfl rfl⟩)
  · exact absurd h (by simp)

end StreamTask

end Commmon

/-
# Scanning one entry, step by step

A filter's scan of an entry is taken apart here into its rounds: each slice is taken in
a step of its own, and a slice that leaves the buffer, or a subtraction below zero,
panics. The search loop keeps its variables in the state. The client's connection may
break at each notification, and then the task returns.

The rank of a state counts what is left to do. Every step lowers it, so that the loop
ends, and in the loop of one keyword that says that the search moves forward.
-/

import Commmon.Filter
import Commmon.Lib.StepSystem

set_option autoImplicit false

namespace Commmon

open PatternSearch

/-- Where the scan of an entry stands. In the search loop, `later` are the keywords that
come after `kw`. -/
inductive ScanPc
  | choosing (later : List String)
  | searching (kw : String) (later : List String) (searchFrom : ℕ)
  | found (kw : String) (later : List String) (searchFrom rel : ℕ)
  | keeping
  | done (carry : List UInt8)
  | returned
  | panicked

structure EntryScan where
  hits : List FilterHit
  pc : ScanPc

inductive ScanEvent
  | go
  | writeFails

namespace FilterState

variable (st : FilterState) (entry : RxEntry)

/-- Carry and entry together. -/
def hay : List UInt8 := st.carry ++ entry.data

/-- The slice that a hit is shown with. -/
def contextBounds (kw : String) (abs : ℕ) : ℕ × ℕ :=
  (abs - 20, min (abs + (asBytes kw).length + 20) (st.hay entry).length)

/-- The head of the `while let`. -/
def searchStep (kw : String) (later : List String) (searchFrom : ℕ) : ScanPc :=
  match sliceFrom (st.hay entry) searchFrom with
  | none => .panicked
  | some rest =>
      match findSubslice rest (asBytes kw) with
      | none => .choosing later
      | some rel => .found kw later searchFrom rel

/-- The body of the `while let`. -/
def foundStep (hits : List FilterHit) (kw : String) (later : List String) (searchFrom rel : ℕ)
    (event : ScanEvent) : Option EntryScan :=
  let abs := searchFrom + rel
  let next := ScanPc.searching kw later (abs + 1)
  if abs + (asBytes kw).length > st.carry.length then
    let bounds := st.contextBounds entry kw abs
    match slice (st.hay entry) bounds.1 bounds.2, event with
    | none, _ => some ⟨hits, .panicked⟩
    | some context, .go =>
        some ⟨hits ++ [⟨kw, entry.timestamp, Utf8Lossy.decode context, abs⟩], next⟩
    | some _, .writeFails => some ⟨hits, .returned⟩
  else
    match event with
    | .go => some ⟨hits, next⟩
    | .writeFails => none

/-- What follows the loops. -/
def keepStep : ScanPc :=
  let keep := min st.maxCarry (st.hay entry).length
  if keep ≤ (st.hay entry).length then
    match sliceFrom (st.hay entry) ((st.hay entry).length - keep) with
    | none => .panicked
    | some carry => .done carry
  else .panicked

def scanStep (s : EntryScan) (event : ScanEvent) : Option EntryScan :=
  match s.pc, event with
  | .choosing [], .go => some ⟨s.hits, .keeping⟩
  | .choosing (kw :: later), .go => some ⟨s.hits, .searching kw later 0⟩
  | .searching kw later searchFrom, .go => some ⟨s.hits, st.searchStep entry kw later searchFrom⟩
  | .found kw later searchFrom rel, event => st.foundStep entry s.hits kw later searchFrom rel event
  | .keeping, .go => some ⟨s.hits, st.keepStep entry⟩
  | _, _ => none

def scanSystem : StepSystem EntryScan ScanEvent where
  init := ⟨[], .choosing st.keywords⟩
  step := st.scanStep entry

/-- The bounds of the slices that the next step takes. -/
def nextSlices : ScanPc → List (ℕ × ℕ)
  | .searching _ _ searchFrom => [(searchFrom, (st.hay entry).length)]
  | .found kw _ searchFrom rel =>
      if searchFrom + rel + (asBytes kw).length > st.carry.length then
        [st.contextBounds entry kw (searchFrom + rel)]
      else []
  | .keeping =>
      [((st.hay entry).length - min st.maxCarry (st.hay entry).length, (st.hay entry).length)]
  | .choosing _ | .done _ | .returned | .panicked => []

/-- What is known where the scan stands. -/
def Sound (s : EntryScan) : Prop :=
  match s.pc with
  | .choosing _ | .keeping | .returned => True
  | .searching _ _ searchFrom => searchFrom ≤ (st.hay entry).length
  | .found kw _ searchFrom rel =>
      asBytes kw ≠ [] ∧ OccursAt (asBytes kw) (st.hay entry) (searchFrom + rel) ∧
        ∀ j, searchFrom ≤ j → j < searchFrom + rel → ¬ OccursAt (asBytes kw) (st.hay entry) j
  | .done carry => carry = st.nextCarry entry.data
  | .panicked => False

/-- The hit at an offset. -/
def hitOf (kw : String) (abs : ℕ) : FilterHit := hitAt (st.hay entry) entry.timestamp kw abs

/-- The steps of a scan that keeps to its bounds. -/
inductive Moves : EntryScan → EntryScan → Prop
  | chooses (hits : List FilterHit) (kw : String) (later : List String) :
      Moves ⟨hits, .choosing (kw :: later)⟩ ⟨hits, .searching kw later 0⟩
  | chosen (hits : List FilterHit) : Moves ⟨hits, .choosing []⟩ ⟨hits, .keeping⟩
  | misses (hits : List FilterHit) (kw : String) (later : List String) (searchFrom : ℕ)
      (hnone : asBytes kw ≠ [] → ∀ j, searchFrom ≤ j → ¬ OccursAt (asBytes kw) (st.hay entry) j) :
      Moves ⟨hits, .searching kw later searchFrom⟩ ⟨hits, .choosing later⟩
  | finds (hits : List FilterHit) (kw : String) (later : List String) (searchFrom rel : ℕ)
      (hsound : st.Sound entry ⟨hits, .found kw later searchFrom rel⟩) :
      Moves ⟨hits, .searching kw later searchFrom⟩ ⟨hits, .found kw later searchFrom rel⟩
  | reports (hits : List FilterHit) (kw : String) (later : List String) (searchFrom rel : ℕ)
      (hnew : st.carry.length < searchFrom + rel + (asBytes kw).length) :
      Moves ⟨hits, .found kw later searchFrom rel⟩
        ⟨hits ++ [st.hitOf entry kw (searchFrom + rel)], .searching kw later (searchFrom + rel + 1)⟩
  | skips (hits : List FilterHit) (kw : String) (later : List String) (searchFrom rel : ℕ)
      (hold : ¬ st.carry.length < searchFrom + rel + (asBytes kw).length) :
      Moves ⟨hits, .found kw later searchFrom rel⟩
        ⟨hits, .searching kw later (searchFrom + rel + 1)⟩
  | fails (hits : List FilterHit) (kw : String) (later : List String) (searchFrom rel : ℕ) :
      Moves ⟨hits, .found kw later searchFrom rel⟩ ⟨hits, .returned⟩
  | keeps (hits : List FilterHit) :
      Moves ⟨hits, .keeping⟩ ⟨hits, .done (st.nextCarry entry.data)⟩

/-- How much a keyword takes at most. -/
def loopCost : ℕ := 2 * (st.hay entry).length + 3

/-- What is left to do. -/
def rank (s : EntryScan) : ℕ :=
  match s.pc with
  | .choosing later => later.length * st.loopCost entry + 2
  | .searching _ later searchFrom =>
      later.length * st.loopCost entry + 2 * ((st.hay entry).length - searchFrom) + 4
  | .found _ later searchFrom _ =>
      later.length * st.loopCost entry + 2 * ((st.hay entry).length - searchFrom) + 3
  | .keeping => 1
  | .done _ | .returned | .panicked => 0

variable {st entry}

/-- An occurrence has room before the end. -/
theorem Sound.found_lt {hits : List FilterHit} {kw : String} {later : List String}
    {searchFrom rel : ℕ} (h : st.Sound entry ⟨hits, .found kw later searchFrom rel⟩) :
    searchFrom + rel + (asBytes kw).length ≤ (st.hay entry).length ∧
      0 < (asBytes kw).length :=
  ⟨h.2.1.add_length_le h.1, List.length_pos_iff.mpr h.1⟩

private theorem contextBounds_le {kw : String} {abs : ℕ}
    (hend : abs + (asBytes kw).length ≤ (st.hay entry).length) :
    (st.contextBounds entry kw abs).1 ≤ (st.contextBounds entry kw abs).2 ∧
      (st.contextBounds entry kw abs).2 ≤ (st.hay entry).length := by
  simp only [contextBounds]
  omega

private theorem slice_contextBounds {kw : String} {abs : ℕ}
    (hend : abs + (asBytes kw).length ≤ (st.hay entry).length) :
    slice (st.hay entry) (st.contextBounds entry kw abs).1 (st.contextBounds entry kw abs).2 =
      some (((st.hay entry).drop (st.contextBounds entry kw abs).1).take
        ((st.contextBounds entry kw abs).2 - (st.contextBounds entry kw abs).1)) :=
  if_pos (contextBounds_le hend)

private theorem searchStep_moves {kw : String} {later : List String} {searchFrom : ℕ}
    (hle : searchFrom ≤ (st.hay entry).length) (hits : List FilterHit) :
    st.Moves entry ⟨hits, .searching kw later searchFrom⟩
      ⟨hits, st.searchStep entry kw later searchFrom⟩ := by
  simp only [searchStep, sliceFrom, hle, if_true]
  cases hfind : findSubslice ((st.hay entry).drop searchFrom) (asBytes kw) with
  | none =>
      refine .misses _ _ _ _ fun hne j hj hocc => ?_
      apply findSubslice_eq_none hne hfind (j - searchFrom)
      rwa [occursAt_drop, Nat.add_sub_cancel' hj]
  | some rel =>
      obtain ⟨hne, hocc, hfirst⟩ := findSubslice_eq_some hfind
      refine .finds _ _ _ _ _ ⟨hne, occursAt_drop.mp hocc, fun j hj hlt hocc => ?_⟩
      apply hfirst (j - searchFrom) (by omega)
      rwa [occursAt_drop, Nat.add_sub_cancel' hj]

private theorem foundStep_moves {hits : List FilterHit} {kw : String} {later : List String}
    {searchFrom rel : ℕ} {event : ScanEvent} {t : EntryScan}
    (hsound : st.Sound entry ⟨hits, .found kw later searchFrom rel⟩)
    (hstep : st.foundStep entry hits kw later searchFrom rel event = some t) :
    st.Moves entry ⟨hits, .found kw later searchFrom rel⟩ t := by
  simp only [foundStep, slice_contextBounds hsound.found_lt.1] at hstep
  by_cases hnew : st.carry.length < searchFrom + rel + (asBytes kw).length
  · rw [if_pos hnew] at hstep
    cases event with
    | go =>
        obtain rfl := Option.some.inj hstep
        exact .reports _ _ _ _ _ hnew
    | writeFails =>
        obtain rfl := Option.some.inj hstep
        exact .fails _ _ _ _ _
  · rw [if_neg hnew] at hstep
    cases event with
    | go =>
        obtain rfl := Option.some.inj hstep
        exact .skips _ _ _ _ _ hnew
    | writeFails => simp at hstep

private theorem keepStep_eq : st.keepStep entry = .done (st.nextCarry entry.data) := by
  have hkeep : min st.maxCarry (st.hay entry).length ≤ (st.hay entry).length := Nat.min_le_right _ _
  have hfrom : (st.hay entry).length - min st.maxCarry (st.hay entry).length ≤
      (st.hay entry).length := Nat.sub_le _ _
  simp only [keepStep, hkeep, if_true, sliceFrom, hfrom]
  rfl

/-- What a step can do, while the scan keeps to its bounds. -/
theorem scanStep_moves {s t : EntryScan} {event : ScanEvent} (hsound : st.Sound entry s)
    (hstep : st.scanStep entry s event = some t) : st.Moves entry s t := by
  obtain ⟨hits, pc⟩ := s
  cases pc with
  | choosing later =>
      cases later with
      | nil =>
          cases event with
          | go =>
              obtain rfl := Option.some.inj hstep
              exact .chosen _
          | writeFails => simp [scanStep] at hstep
      | cons kw later =>
          cases event with
          | go =>
              obtain rfl := Option.some.inj hstep
              exact .chooses _ _ _
          | writeFails => simp [scanStep] at hstep
  | searching kw later searchFrom =>
      cases event with
      | go =>
          obtain rfl := Option.some.inj hstep
          exact searchStep_moves hsound hits
      | writeFails => simp [scanStep] at hstep
  | found kw later searchFrom rel => exact foundStep_moves hsound hstep
  | keeping =>
      cases event with
      | go =>
          obtain rfl := Option.some.inj hstep
          rw [keepStep_eq]
          exact .keeps _
      | writeFails => simp [scanStep] at hstep
  | done carry => simp [scanStep] at hstep
  | returned => simp [scanStep] at hstep
  | panicked => exact hsound.elim

/-- One step of a scan. It keeps to the bounds, and less is left to do. -/
theorem Sound.step {s t : EntryScan} {event : ScanEvent} (hsound : st.Sound entry s)
    (hstep : st.scanStep entry s event = some t) :
    st.Sound entry t ∧ st.rank entry t < st.rank entry s := by
  cases scanStep_moves hsound hstep with
  | chooses hits kw later =>
      refine ⟨Nat.zero_le _, ?_⟩
      simp only [rank, List.length_cons, Nat.add_mul, loopCost]
      omega
  | chosen hits => exact ⟨trivial, by simp [rank]⟩
  | misses hits kw later searchFrom hnone => exact ⟨trivial, by simp only [rank]; omega⟩
  | finds hits kw later searchFrom rel hfound => exact ⟨hfound, by simp [rank]⟩
  | reports hits kw later searchFrom rel hnew =>
      obtain ⟨hend, hpos⟩ := hsound.found_lt
      refine ⟨?_, ?_⟩
      · simp only [Sound]
        omega
      · simp only [rank]
        omega
  | skips hits kw later searchFrom rel hold =>
      obtain ⟨hend, hpos⟩ := hsound.found_lt
      refine ⟨?_, ?_⟩
      · simp only [Sound]
        omega
      · simp only [rank]
        omega
  | fails hits kw later searchFrom rel => exact ⟨trivial, by simp only [rank]; omega⟩
  | keeps hits => exact ⟨rfl, by simp [rank]⟩

theorem sound_of_run {es : List ScanEvent} {s : EntryScan}
    (hrun : (st.scanSystem entry).run es = some s) :
    st.Sound entry s ∧
      es.length + st.rank entry s ≤ st.keywords.length * st.loopCost entry + 2 :=
  (st.scanSystem entry).runFrom_ranked (fun _ _ _ hsound hstep => hsound.step hstep) trivial hrun

private theorem Sound.nextSlices {s : EntryScan} (hsound : st.Sound entry s) {lo hi : ℕ}
    (hmem : (lo, hi) ∈ st.nextSlices entry s.pc) : lo ≤ hi ∧ hi ≤ (st.hay entry).length := by
  obtain ⟨hits, pc⟩ := s
  cases pc with
  | searching kw later searchFrom =>
      obtain ⟨rfl, rfl⟩ : lo = searchFrom ∧ hi = (st.hay entry).length := by
        simpa [FilterState.nextSlices] using hmem
      exact ⟨hsound, Nat.le_refl _⟩
  | found kw later searchFrom rel =>
      simp only [FilterState.nextSlices] at hmem
      split_ifs at hmem
      · have hbounds := List.mem_singleton.mp hmem
        have hle := contextBounds_le hsound.found_lt.1
        rwa [← hbounds] at hle
      · exact absurd hmem List.not_mem_nil
  | keeping =>
      obtain ⟨rfl, rfl⟩ : lo = (st.hay entry).length - min st.maxCarry (st.hay entry).length ∧
          hi = (st.hay entry).length := by
        simpa [FilterState.nextSlices] using hmem
      exact ⟨Nat.sub_le _ _, Nat.le_refl _⟩
  | choosing later => exact absurd hmem List.not_mem_nil
  | done carry => exact absurd hmem List.not_mem_nil
  | returned => exact absurd hmem List.not_mem_nil
  | panicked => exact hsound.elim

/-- In the loop of one keyword the search moves forward. -/
theorem Sound.forward {s t : EntryScan} (hsound : st.Sound entry s) {fs : List ScanEvent}
    (hfs : fs ≠ []) (hrun : (st.scanSystem entry).runFrom s fs = some t) {kw : String}
    {later : List String} {n m : ℕ} (hs : s.pc = .searching kw later n)
    (ht : t.pc = .searching kw later m) : n < m ∧ m ≤ (st.hay entry).length := by
  obtain ⟨hsound', hrank⟩ :=
    (st.scanSystem entry).runFrom_ranked (fun _ _ _ hsound hstep => hsound.step hstep) hsound hrun
  have hpos : 0 < fs.length := List.length_pos_iff.mpr hfs
  simp only [Sound, ht] at hsound'
  simp only [rank, hs, ht] at hrank
  exact ⟨by omega, hsound'⟩

/-- A scan that has not ended can go on. -/
theorem Sound.ended {s : EntryScan} (hsound : st.Sound entry s)
    (hstuck : ∀ event, st.scanStep entry s event = none) :
    s.pc = .returned ∨ ∃ carry, s.pc = .done carry := by
  obtain ⟨hits, pc⟩ := s
  have hgo := hstuck .go
  cases pc with
  | choosing later => cases later <;> simp [scanStep] at hgo
  | searching kw later searchFrom => simp [scanStep] at hgo
  | found kw later searchFrom rel =>
      simp only [scanStep, foundStep, slice_contextBounds hsound.found_lt.1] at hgo
      split_ifs at hgo
  | keeping => simp [scanStep] at hgo
  | done carry => exact Or.inr ⟨carry, rfl⟩
  | returned => exact Or.inl rfl
  | panicked => exact hsound.elim

/-- The length of the longest keyword. -/
def longest (keywords : List String) : ℕ :=
  ((keywords.map fun k => (asBytes k).length).max?).getD 0

private theorem maxCarry_eq (st : FilterState) : st.maxCarry = longest st.keywords - 1 := by
  unfold maxCarry longest
  cases (st.keywords.map fun k => (asBytes k).length).max? <;> rfl

/-- What holds of a scan wherever it stands. -/
structure ScanSafe (st : FilterState) (entry : RxEntry) (es : List ScanEvent) (s : EntryScan) :
    Prop where
  unpanicked : s.pc ≠ .panicked
  inRange : ∀ lo hi, (lo, hi) ∈ st.nextSlices entry s.pc → lo ≤ hi ∧ hi ≤ (st.hay entry).length
  forward : ∀ fs t kw later n m, fs ≠ [] → (st.scanSystem entry).runFrom s fs = some t →
    s.pc = .searching kw later n → t.pc = .searching kw later m →
      n < m ∧ m ≤ (st.hay entry).length
  bounded : es.length ≤ st.keywords.length * (2 * (st.hay entry).length + 3) + 2
  ended : (∀ event, st.scanStep entry s event = none) →
    s.pc = .returned ∨ ∃ carry, s.pc = .done carry
  kept : ∀ carry, s.pc = .done carry → carry <:+ st.carry ++ entry.data ∧
    carry.length = min (longest st.keywords - 1) (st.carry ++ entry.data).length

/-- A scan is safe, and ends. -/
theorem scan_safe (st : FilterState) (entry : RxEntry) {es : List ScanEvent} {s : EntryScan}
    (hrun : (st.scanSystem entry).run es = some s) : st.ScanSafe entry es s := by
  obtain ⟨hsound, hbound⟩ := sound_of_run hrun
  refine ⟨?_, fun _ _ => hsound.nextSlices, ?_, ?_, hsound.ended, ?_⟩
  · intro hpc
    simp [Sound, hpc] at hsound
  · exact fun fs t kw later n m hfs hrest => hsound.forward hfs hrest
  · exact Nat.le_trans (Nat.le_add_right _ _) hbound
  · intro carry hpc
    obtain rfl : carry = st.nextCarry entry.data := by simpa [Sound, hpc] using hsound
    refine ⟨List.drop_suffix _ _, ?_⟩
    rw [length_nextCarry, maxCarry_eq, List.length_append]

/-- An empty keyword, one that is longer than all there is, and one across the chunks. -/
def watching : FilterState := ⟨⟨0, 0⟩, ["AB", "", "ABCDEFGH"], asBytes "A"⟩

def watched : RxEntry := ⟨"t", asBytes "BAB"⟩

theorem watched_safe :
    ∃ s, (watching.scanSystem watched).run (List.replicate 12 .go) = some s ∧
      s.pc = .done (asBytes "ABAB") ∧
      watching.ScanSafe watched (List.replicate 12 .go) s := by
  let s : EntryScan :=
    ⟨[⟨"AB", "t", "ABAB", 0⟩, ⟨"AB", "t", "ABAB", 2⟩], .done (asBytes "ABAB")⟩
  have hrun : (watching.scanSystem watched).run (List.replicate 12 .go) = some s := by rfl
  exact ⟨s, hrun, rfl, scan_safe watching watched hrun⟩

/-- The hits of a keyword from an offset on. -/
def hitsFrom (st : FilterState) (entry : RxEntry) (kw : String) (searchFrom : ℕ) :
    List FilterHit :=
  if asBytes kw = [] then []
  else
    (((occurrences (asBytes kw) (st.hay entry)).filter (searchFrom ≤ ·)).filter fun i =>
      st.carry.length < i + (asBytes kw).length).map (st.hitOf entry kw)

/-- The hits that are still to come. -/
def hitsToCome (st : FilterState) (entry : RxEntry) : ScanPc → List FilterHit
  | .choosing later => later.flatMap fun kw => st.hitsFrom entry kw 0
  | .searching kw later searchFrom =>
      st.hitsFrom entry kw searchFrom ++ later.flatMap fun kw => st.hitsFrom entry kw 0
  | .found kw later searchFrom rel =>
      st.hitsFrom entry kw (searchFrom + rel) ++ later.flatMap fun kw => st.hitsFrom entry kw 0
  | .keeping | .done _ | .returned | .panicked => []

private theorem hitsFrom_eq_nil {kw : String} {searchFrom : ℕ}
    (hnone : asBytes kw ≠ [] → ∀ j, searchFrom ≤ j → ¬ OccursAt (asBytes kw) (st.hay entry) j) :
    st.hitsFrom entry kw searchFrom = [] := by
  unfold hitsFrom
  split_ifs with hne
  · rfl
  · rw [filter_le_occurrences_eq_nil hne (hnone hne)]
    rfl

private theorem hitsFrom_zero (kw : String) :
    st.hitsFrom entry kw 0 = (hitOffsets kw st.carry entry.data).map
      (hitAt (st.carry ++ entry.data) entry.timestamp kw) := by
  unfold hitsFrom hitOffsets
  split_ifs with hne
  · rfl
  · have hall : (occurrences (asBytes kw) (st.hay entry)).filter (0 ≤ ·) =
        occurrences (asBytes kw) (st.hay entry) := List.filter_eq_self.mpr (by simp)
    rw [hall]
    rfl

/-- The hits from an occurrence on are that one, if it is new, and those behind it. -/
theorem hitsFrom_of_first {kw : String} {searchFrom i : ℕ} (hne : asBytes kw ≠ [])
    (hle : searchFrom ≤ i) (hocc : OccursAt (asBytes kw) (st.hay entry) i)
    (hfirst : ∀ j, searchFrom ≤ j → j < i → ¬ OccursAt (asBytes kw) (st.hay entry) j) :
    st.hitsFrom entry kw searchFrom =
      (if st.carry.length < i + (asBytes kw).length then [st.hitOf entry kw i] else []) ++
        st.hitsFrom entry kw (i + 1) := by
  rw [hitsFrom, hitsFrom, if_neg hne, if_neg hne,
    filter_le_occurrences_of_first hne hle hocc hfirst]
  by_cases hnew : st.carry.length < i + (asBytes kw).length
  · rw [List.filter_cons_of_pos (by simpa using hnew), if_pos hnew, List.map_cons]
    rfl
  · rw [List.filter_cons_of_neg (by simpa using hnew), if_neg hnew, List.nil_append]

private theorem hitsFrom_of_occursAt {kw : String} {i : ℕ} (hne : asBytes kw ≠ [])
    (hocc : OccursAt (asBytes kw) (st.hay entry) i) :
    st.hitsFrom entry kw i =
      (if st.carry.length < i + (asBytes kw).length then [st.hitOf entry kw i] else []) ++
        st.hitsFrom entry kw (i + 1) :=
  hitsFrom_of_first hne (Nat.le_refl i) hocc fun _ hj hlt => absurd hlt (Nat.not_lt.mpr hj)

/-- What has been reported and what is to come stay the same together, unless the
connection breaks. -/
theorem Moves.hits_append {s t : EntryScan} (h : st.Moves entry s t) (hsound : st.Sound entry s)
    (hpc : t.pc ≠ .returned) :
    t.hits ++ st.hitsToCome entry t.pc = s.hits ++ st.hitsToCome entry s.pc := by
  cases h with
  | chooses hits kw later => rfl
  | chosen hits => rfl
  | misses hits kw later searchFrom hnone =>
      simp only [hitsToCome, hitsFrom_eq_nil hnone, List.nil_append]
  | finds hits kw later searchFrom rel hfound =>
      obtain ⟨hne, hocc, hfirst⟩ := hfound
      simp only [hitsToCome]
      rw [hitsFrom_of_first hne (Nat.le_add_right _ _) hocc hfirst, hitsFrom_of_occursAt hne hocc]
  | reports hits kw later searchFrom rel hnew =>
      obtain ⟨hne, hocc, -⟩ := hsound
      simp only [hitsToCome, hitsFrom_of_occursAt hne hocc, if_pos hnew, List.append_assoc]
  | skips hits kw later searchFrom rel hold =>
      obtain ⟨hne, hocc, -⟩ := hsound
      simp only [hitsToCome, hitsFrom_of_occursAt hne hocc, if_neg hold, List.nil_append]
  | fails hits kw later searchFrom rel => exact absurd rfl hpc
  | keeps hits => rfl

/-- Taking the scan apart changes nothing. A scan that gets to its end reports what
`scan` reports, keyword after keyword, and keeps the same carry. -/
theorem scan_of_done (st : FilterState) (entry : RxEntry) {es : List ScanEvent}
    {s : EntryScan} {carry : List UInt8} (hrun : (st.scanSystem entry).run es = some s)
    (hpc : s.pc = .done carry) :
    ∃ hits, st.scan entry = some (hits, { st with carry := carry }) ∧ s.hits = hits.flatten := by
  have hkept : st.Sound entry s ∧ (s.pc = .returned ∨ s.hits ++ st.hitsToCome entry s.pc =
      st.keywords.flatMap fun kw => st.hitsFrom entry kw 0) := by
    refine (st.scanSystem entry).run_invariant
      (P := fun s => st.Sound entry s ∧ (s.pc = .returned ∨ s.hits ++ st.hitsToCome entry s.pc =
        st.keywords.flatMap fun kw => st.hitsFrom entry kw 0)) ⟨trivial, Or.inr rfl⟩ ?_ hrun
    rintro s event t ⟨hsound, hall⟩ hstep
    refine ⟨(hsound.step hstep).1, ?_⟩
    by_cases hreturned : t.pc = .returned
    · exact Or.inl hreturned
    · obtain hpc | hall := hall
      · obtain ⟨hits, pc⟩ := s
        obtain rfl : pc = .returned := hpc
        exact absurd hstep (by simp [scanSystem, scanStep])
      · exact Or.inr (((scanStep_moves hsound hstep).hits_append hsound hreturned).trans hall)
  obtain ⟨hsound, hreturned | hall⟩ := hkept
  · simp [hpc] at hreturned
  · obtain rfl : carry = st.nextCarry entry.data := by simpa [Sound, hpc] using hsound
    refine ⟨_, st.scan_eq entry, ?_⟩
    rw [hpc, hitsToCome, List.append_nil] at hall
    rw [hall, List.flatMap_def]
    simp only [hitsFrom_zero]

end FilterState

end Commmon

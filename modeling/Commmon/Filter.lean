/-
# The keyword filter

A filter scans each received entry together with `carry`, the tail of what it
has scanned before, so that a keyword cut by a chunk boundary is still found. A
match that lies wholly inside carry was reported with an earlier entry and is
skipped.

Indexing and slicing panic in the source when they leave the buffer. Here such
an operation answers `none`, and so does a search loop that has not ended, so a
scan that answers `some` neither panicked nor looped. `scan_eq` is the
specification that everything else uses: a scan always answers, and what it
reports is what `PatternSearch.scanned` says.
-/

import Mathlib.Data.List.Nodup
import Commmon.Lib.PatternSearch
import Commmon.Protocol

set_option autoImplicit false

namespace Commmon

open PatternSearch

/-- The UTF-8 bytes of a string. -/
def asBytes (s : String) : List UInt8 := s.toUTF8.data.toList

theorem asBytes_ne_nil {s : String} (h : s ≠ "") : asBytes s ≠ [] := by
  intro hnil
  apply h
  rw [← String.toByteArray_inj]
  apply ByteArray.ext
  apply Array.toList_inj.mp
  exact hnil

/-- `xs[lo..hi]`, which panics unless `lo <= hi <= xs.len()`. -/
def slice {α : Type} (xs : List α) (lo hi : ℕ) : Option (List α) :=
  if lo ≤ hi ∧ hi ≤ xs.length then some ((xs.drop lo).take (hi - lo)) else none

/-- `xs[lo..]`, which panics unless `lo <= xs.len()`. -/
def sliceFrom {α : Type} (xs : List α) (lo : ℕ) : Option (List α) :=
  if lo ≤ xs.length then some (xs.drop lo) else none

/-- All slices of length `n`, in order. -/
def windows {α : Type} (n : ℕ) (xs : List α) : List (List α) :=
  (List.range (xs.length + 1 - n)).map fun i => (xs.drop i).take n

/-- The first position of a subslice. -/
def findSubslice (haystack needle : List UInt8) : Option ℕ :=
  if needle.isEmpty || haystack.length < needle.length then none
  else (windows needle.length haystack).findIdx? (· == needle)

@[simp]
theorem findSubslice_nil (haystack : List UInt8) : findSubslice haystack [] = none := rfl

private theorem getElem?_windows_eq {needle haystack : List UInt8} {i : ℕ}
    (h : i < (windows needle.length haystack).length) :
    (windows needle.length haystack)[i] = needle ↔ OccursAt needle haystack i := by
  simp only [windows, List.getElem_map, List.getElem_range, OccursAt]
  rw [List.prefix_iff_eq_take]
  exact eq_comm

private theorem lt_length_windows {needle haystack : List UInt8} (hne : needle ≠ []) {i : ℕ}
    (h : OccursAt needle haystack i) : i < (windows needle.length haystack).length := by
  have hend := h.add_length_le hne
  simp only [windows, List.length_map, List.length_range]
  omega

/-- What is found is an occurrence, and the first one. -/
theorem findSubslice_eq_some {haystack needle : List UInt8} {i : ℕ}
    (h : findSubslice haystack needle = some i) :
    needle ≠ [] ∧ OccursAt needle haystack i ∧
      ∀ j, j < i → ¬ OccursAt needle haystack j := by
  unfold findSubslice at h
  split_ifs at h with hguard
  have hne : needle ≠ [] := by
    rintro rfl
    simp at hguard
  obtain ⟨hlt, hi, hfirst⟩ := List.findIdx?_eq_some_iff_getElem.mp h
  refine ⟨hne, (getElem?_windows_eq hlt).mp (by simpa using hi), fun j hj hocc => ?_⟩
  have hjlt : j < (windows needle.length haystack).length := Nat.lt_trans hj hlt
  exact hfirst j hj (by simpa using (getElem?_windows_eq hjlt).mpr hocc)

theorem findSubslice_eq_none {haystack needle : List UInt8} (hne : needle ≠ [])
    (h : findSubslice haystack needle = none) (i : ℕ) : ¬ OccursAt needle haystack i := by
  intro hocc
  have hend := hocc.add_length_le hne
  unfold findSubslice at h
  split_ifs at h with hguard
  · simp only [Bool.or_eq_true, List.isEmpty_iff, hne, decide_eq_true_eq, false_or] at hguard
    omega
  · have hlt := lt_length_windows hne hocc
    have hno := List.findIdx?_eq_none_iff.mp h _ (List.getElem_mem hlt)
    rw [(getElem?_windows_eq hlt).mpr hocc] at hno
    simp at hno

/-- A match that is reported: what the notification says, and the offset of the
match in carry and entry together. -/
structure FilterHit where
  keyword : String
  timestamp : String
  context : String
  abs : ℕ

structure FilterState where
  rx : Receiver
  keywords : List String
  carry : List UInt8

/-- One less than the longest keyword. -/
def FilterState.maxCarry (st : FilterState) : ℕ :=
  ((st.keywords.map fun k => (asBytes k).length).max?).getD 1 - 1

/-- The search loop for one keyword, from `searchFrom` on. `fuel` bounds the
number of rounds; `scanFrom_eq` shows that one more than the bytes left is
enough. -/
def scanFrom (hay : List UInt8) (carryLen : ℕ) (timestamp keyword : String) :
    ℕ → ℕ → Option (List FilterHit)
  | 0, _ => none
  | fuel + 1, searchFrom => do
      let rest ← sliceFrom hay searchFrom
      match findSubslice rest (asBytes keyword) with
      | none => some []
      | some rel =>
          let abs := searchFrom + rel
          let len := (asBytes keyword).length
          -- only a match that takes in new data is reported
          let hits ←
            if abs + len > carryLen then do
              let context ← slice hay (abs - 20) (min (abs + len + 20) hay.length)
              some [⟨keyword, timestamp, Utf8Lossy.decode context, abs⟩]
            else some []
          let later ← scanFrom hay carryLen timestamp keyword fuel (abs + 1)
          some (hits ++ later)

/-- Scan one entry: the hits for the keyword at each position of the list, and
the state with its new carry. -/
def FilterState.scan (st : FilterState) (entry : RxEntry) :
    Option (List (List FilterHit) × FilterState) := do
  let hay := st.carry ++ entry.data
  let hits ← st.keywords.mapM fun kw =>
    scanFrom hay st.carry.length entry.timestamp kw (hay.length + 1) 0
  let keep := min st.maxCarry hay.length
  let carry ← sliceFrom hay (hay.length - keep)
  some (hits, { st with carry := carry })

/-- The offsets at which a keyword is reported. The empty keyword is never
found. -/
def hitOffsets (keyword : String) (carry data : List UInt8) : List ℕ :=
  if asBytes keyword = [] then [] else scanned (asBytes keyword) carry data

/-- The hit at an offset, with the 20 bytes around the match that are there. -/
def hitAt (hay : List UInt8) (timestamp keyword : String) (abs : ℕ) : FilterHit :=
  let lo := abs - 20
  let hi := min (abs + (asBytes keyword).length + 20) hay.length
  ⟨keyword, timestamp, Utf8Lossy.decode ((hay.drop lo).take (hi - lo)), abs⟩

/-- The loop reports, from where it stands, what ends beyond carry. The
induction is on the fuel, and every round moves `searchFrom` forward. -/
theorem scanFrom_eq {hay : List UInt8} {carryLen : ℕ} {timestamp keyword : String}
    (hne : asBytes keyword ≠ []) :
    ∀ {fuel searchFrom : ℕ}, searchFrom ≤ hay.length → hay.length - searchFrom < fuel →
      scanFrom hay carryLen timestamp keyword fuel searchFrom =
        some ((((occurrences (asBytes keyword) hay).filter (searchFrom ≤ ·)).filter
          fun i => carryLen < i + (asBytes keyword).length).map
            (hitAt hay timestamp keyword)) := by
  intro fuel
  induction fuel with
  | zero => intro searchFrom _ hfuel; omega
  | succ fuel ih =>
      intro searchFrom hle hfuel
      simp only [scanFrom, sliceFrom, hle, if_true, Option.bind_eq_bind, Option.bind_some]
      cases hfind : findSubslice (hay.drop searchFrom) (asBytes keyword) with
      | none =>
          have hnone : ∀ j, searchFrom ≤ j → ¬ OccursAt (asBytes keyword) hay j := by
            intro j hj hocc
            apply findSubslice_eq_none hne hfind (j - searchFrom)
            rwa [occursAt_drop, Nat.add_sub_cancel' hj]
          simp [filter_le_occurrences_eq_nil hne hnone]
      | some rel =>
          obtain ⟨-, hocc, hfirst⟩ := findSubslice_eq_some hfind
          rw [occursAt_drop] at hocc
          have hend := hocc.add_length_le hne
          have hpos : 0 < (asBytes keyword).length := List.length_pos_iff.mpr hne
          have hfirst' : ∀ j, searchFrom ≤ j → j < searchFrom + rel →
              ¬ OccursAt (asBytes keyword) hay j := by
            intro j hj hlt hj'
            apply hfirst (j - searchFrom) (by omega)
            rwa [occursAt_drop, Nat.add_sub_cancel' hj]
          have hslice : searchFrom + rel - 20 ≤
              min (searchFrom + rel + (asBytes keyword).length + 20) hay.length := by omega
          have hlater := @ih (searchFrom + rel + 1) (by omega) (by omega)
          rw [filter_le_occurrences_of_first hne (Nat.le_add_right _ _) hocc hfirst']
          by_cases hnew : carryLen < searchFrom + rel + (asBytes keyword).length
          · simp [hnew, slice, hslice, hitAt, hlater]
          · simp [hnew, hlater]

private theorem mapM_eq_map {α β : Type} {f : α → Option β} {g : α → β} {xs : List α}
    (h : ∀ x ∈ xs, f x = some (g x)) : xs.mapM f = some (xs.map g) := by
  induction xs with
  | nil => rfl
  | cons x xs ih =>
      have hrest := ih fun y hy => h y (List.mem_cons_of_mem x hy)
      simp [List.mapM_cons, h x List.mem_cons_self, hrest]

/-- What is kept of carry and entry for the next scan. -/
def FilterState.nextCarry (st : FilterState) (data : List UInt8) : List UInt8 :=
  (st.carry ++ data).drop
    ((st.carry ++ data).length - min st.maxCarry (st.carry ++ data).length)

/-- A scan always answers. It neither panics nor loops, whatever carry, entry
and keywords are. -/
theorem FilterState.scan_eq (st : FilterState) (entry : RxEntry) :
    st.scan entry = some
      (st.keywords.map fun kw => (hitOffsets kw st.carry entry.data).map
        (hitAt (st.carry ++ entry.data) entry.timestamp kw),
      { st with carry := st.nextCarry entry.data }) := by
  have hhits : ∀ kw ∈ st.keywords,
      scanFrom (st.carry ++ entry.data) st.carry.length entry.timestamp kw
          ((st.carry ++ entry.data).length + 1) 0 =
        some ((hitOffsets kw st.carry entry.data).map
          (hitAt (st.carry ++ entry.data) entry.timestamp kw)) := by
    intro kw _
    by_cases hne : asBytes kw = []
    · simp [hitOffsets, hne, scanFrom, sliceFrom]
    · rw [scanFrom_eq hne (Nat.zero_le _) (by omega)]
      simp [hitOffsets, hne, scanned]
  have hkeep : (st.carry ++ entry.data).length -
      min st.maxCarry (st.carry ++ entry.data).length ≤ (st.carry ++ entry.data).length :=
    Nat.sub_le _ _
  simp only [FilterState.scan, mapM_eq_map hhits, sliceFrom, hkeep, if_true,
    Option.bind_eq_bind, Option.bind_some, FilterState.nextCarry]

theorem FilterState.length_nextCarry (st : FilterState) (data : List UInt8) :
    (st.nextCarry data).length = min st.maxCarry (st.carry.length + data.length) := by
  simp only [FilterState.nextCarry, List.length_drop, List.length_append]
  omega

/-- The bound on carry covers every keyword of the list. -/
theorem FilterState.length_le_maxCarry (st : FilterState) {kw : String}
    (hmem : kw ∈ st.keywords) : (asBytes kw).length ≤ st.maxCarry + 1 := by
  have hle : (asBytes kw).length ≤
      ((st.keywords.map fun k => (asBytes k).length).max?).getD 1 :=
    List.le_max?_getD_of_mem (List.mem_map.mpr ⟨kw, hmem, rfl⟩)
  unfold FilterState.maxCarry
  omega

end Commmon

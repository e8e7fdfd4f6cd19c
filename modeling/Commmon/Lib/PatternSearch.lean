/-
# Occurrences of a pattern, and searching a text that arrives in chunks

`occurrences` is batch search: all offsets of a pattern in a complete text, in
increasing order and overlaps included.  A streaming searcher sees only a
window, a suffix of the text read so far, followed by the next chunk.  The
question this module answers is how far back the window has to reach: it may
forget a byte once no occurrence that starts there can still be unfinished.

`windowed pat w s text` is the part of the batch answer owed to a searcher that
joined when `s` bytes had been read and could then look back to offset `w`.
The step theorem says that scanning window and chunk, and keeping only what
ends in the chunk, extends that part by exactly what the chunk adds.
-/

import Mathlib.Data.List.Sort
import Mathlib.Data.List.Infix

set_option autoImplicit false

universe u

namespace PatternSearch

variable {α : Type u} [DecidableEq α]

/-- The pattern stands in the text at this offset. -/
def OccursAt (pat text : List α) (i : ℕ) : Prop := pat <+: text.drop i

instance (pat text : List α) : DecidablePred (OccursAt pat text) :=
  fun i => inferInstanceAs (Decidable (pat <+: text.drop i))

/-- Batch search: every offset of the pattern, in increasing order. -/
def occurrences (pat text : List α) : List ℕ :=
  (List.range text.length).filter fun i => OccursAt pat text i

omit [DecidableEq α] in
/-- An occurrence ends inside the text. -/
theorem OccursAt.add_length_le {pat text : List α} {i : ℕ} (hpat : pat ≠ [])
    (h : OccursAt pat text i) : i + pat.length ≤ text.length := by
  have hle : pat.length ≤ text.length - i := by simpa using h.length_le
  have hpos : 0 < pat.length := List.length_pos_iff.mpr hpat
  omega

theorem mem_occurrences {pat text : List α} (hpat : pat ≠ []) {i : ℕ} :
    i ∈ occurrences pat text ↔ OccursAt pat text i := by
  simp only [occurrences, List.mem_filter, List.mem_range, decide_eq_true_eq, and_iff_right_iff_imp]
  intro h
  have hend := h.add_length_le hpat
  have hpos : 0 < pat.length := List.length_pos_iff.mpr hpat
  omega

theorem pairwise_occurrences (pat text : List α) : (occurrences pat text).Pairwise (· < ·) :=
  List.pairwise_lt_range.filter _

/-- There is an offset exactly when the pattern stands somewhere in the text. -/
theorem occurrences_ne_nil_iff {pat text : List α} (hpat : pat ≠ []) :
    occurrences pat text ≠ [] ↔ pat <:+: text := by
  constructor
  · intro h
    obtain ⟨i, hi⟩ := List.exists_mem_of_ne_nil _ h
    exact ((mem_occurrences hpat).mp hi).isInfix.trans (List.drop_suffix i text).isInfix
  · rintro ⟨before, after, rfl⟩ hnil
    have hocc : OccursAt pat (before ++ pat ++ after) before.length := by
      rw [OccursAt, List.append_assoc, List.drop_left]
      exact List.prefix_append _ _
    exact List.not_mem_nil (hnil ▸ (mem_occurrences hpat).mpr hocc)

/-- Two increasing lists with the same members are the same list. -/
theorem eq_of_pairwise_lt {l₁ l₂ : List ℕ} (h₁ : l₁.Pairwise (· < ·)) (h₂ : l₂.Pairwise (· < ·))
    (h : ∀ i, i ∈ l₁ ↔ i ∈ l₂) : l₁ = l₂ :=
  h₁.eq_of_mem_iff h₂ (fun {i} => h i)

omit [DecidableEq α] in
/-- What follows the end of an occurrence does not matter to it. -/
theorem occursAt_append_iff {pat text more : List α} {i : ℕ}
    (hend : i + pat.length ≤ text.length) :
    OccursAt pat (text ++ more) i ↔ OccursAt pat text i := by
  have hdrop : (text ++ more).drop i = text.drop i ++ more :=
    List.drop_append_of_le_length (by omega)
  have hlen : pat.length ≤ (text.drop i).length := by
    rw [List.length_drop]
    omega
  rw [OccursAt, OccursAt, hdrop]
  refine ⟨fun h => ?_, fun h => h.trans (List.prefix_append _ _)⟩
  exact List.prefix_of_prefix_length_le h (List.prefix_append _ _) hlen

omit [DecidableEq α] in
theorem occursAt_drop {pat text : List α} {w i : ℕ} :
    OccursAt pat (text.drop w) i ↔ OccursAt pat text (w + i) := by
  rw [OccursAt, OccursAt, List.drop_drop]

omit [DecidableEq α] in
/-- A slice that takes in an occurrence holds the pattern. -/
theorem OccursAt.infix_slice {pat text : List α} {i lo hi : ℕ} (h : OccursAt pat text i)
    (hlo : lo ≤ i) (hhi : i + pat.length ≤ hi) : pat <:+: (text.drop lo).take (hi - lo) := by
  have hprefix : pat <+: (text.drop i).take (hi - i) :=
    List.prefix_take_iff.mpr ⟨h, by omega⟩
  have hdrop : ((text.drop lo).take (hi - lo)).drop (i - lo) = (text.drop i).take (hi - i) := by
    rw [List.drop_take, List.drop_drop, Nat.add_sub_cancel' hlo]
    congr 1
    omega
  rw [← hdrop] at hprefix
  exact hprefix.isInfix.trans (List.drop_suffix _ _).isInfix

omit [DecidableEq α] in
theorem OccursAt.getElem? {pat text : List α} {i j : ℕ} (h : OccursAt pat text i)
    (hj : j < pat.length) : text[i + j]? = pat[j]? := by
  have hat := List.prefix_iff_getElem?.mp h j hj
  rw [List.getElem?_drop] at hat
  rw [hat, List.getElem?_eq_getElem hj]

/-- The occurrences from an offset on begin with the first one found there. -/
theorem filter_le_occurrences_of_first {pat text : List α} (hpat : pat ≠ []) {a i : ℕ}
    (hle : a ≤ i) (hi : OccursAt pat text i)
    (hfirst : ∀ j, a ≤ j → j < i → ¬ OccursAt pat text j) :
    (occurrences pat text).filter (a ≤ ·) =
      i :: (occurrences pat text).filter (i + 1 ≤ ·) := by
  apply eq_of_pairwise_lt ((pairwise_occurrences pat text).filter _)
  · refine List.pairwise_cons.mpr ⟨fun j hj => ?_, (pairwise_occurrences pat text).filter _⟩
    simpa [Nat.succ_le_iff] using (List.mem_filter.mp hj).2
  · intro j
    simp only [List.mem_filter, List.mem_cons, mem_occurrences hpat, decide_eq_true_eq]
    constructor
    · rintro ⟨hj, haj⟩
      rcases Nat.lt_trichotomy j i with hlt | rfl | hgt
      · exact absurd hj (hfirst j haj hlt)
      · exact Or.inl rfl
      · exact Or.inr ⟨hj, hgt⟩
    · rintro (rfl | ⟨hj, hij⟩)
      · exact ⟨hi, hle⟩
      · exact ⟨hj, by omega⟩

theorem filter_le_occurrences_eq_nil {pat text : List α} (hpat : pat ≠ []) {a : ℕ}
    (hnone : ∀ j, a ≤ j → ¬ OccursAt pat text j) :
    (occurrences pat text).filter (a ≤ ·) = [] := by
  rw [List.filter_eq_nil_iff]
  intro j hj
  simpa using fun haj => hnone j haj ((mem_occurrences hpat).mp hj)

/-- The occurrences that start at `w` or later and end after `s`. -/
def windowed (pat : List α) (w s : ℕ) (text : List α) : List ℕ :=
  (occurrences pat text).filter fun i => w ≤ i ∧ s < i + pat.length

theorem mem_windowed {pat text : List α} (hpat : pat ≠ []) {w s i : ℕ} :
    i ∈ windowed pat w s text ↔ OccursAt pat text i ∧ w ≤ i ∧ s < i + pat.length := by
  simp [windowed, mem_occurrences hpat]

theorem pairwise_windowed (pat : List α) (w s : ℕ) (text : List α) :
    (windowed pat w s text).Pairwise (· < ·) :=
  (pairwise_occurrences pat text).filter _

/-- A searcher that was there from the start is owed every occurrence. -/
theorem windowed_zero {pat : List α} (hpat : pat ≠ []) (text : List α) :
    windowed pat 0 0 text = occurrences pat text := by
  have hpos : 0 < pat.length := List.length_pos_iff.mpr hpat
  rw [windowed, List.filter_eq_self]
  intro i _
  simpa using Nat.lt_add_left i hpos

/-- Nothing that is already read ends after everything that is already read. -/
theorem windowed_length_eq_nil {pat : List α} (hpat : pat ≠ []) (w : ℕ) (text : List α) :
    windowed pat w text.length text = [] := by
  rw [windowed, List.filter_eq_nil_iff]
  intro i hi
  have hend := ((mem_occurrences hpat).mp hi).add_length_le hpat
  simp only [decide_eq_true_eq, not_and, not_lt]
  intro _
  exact hend

/-- The hits of one scan: the occurrences in window and chunk together that end
beyond the window. -/
def scanned (pat window chunk : List α) : List ℕ :=
  (occurrences pat (window ++ chunk)).filter fun i => window.length < i + pat.length

/-- The step of a streaming search. The window starts at `h`, not before the
offset `w` the searcher is entitled to, and reaches back to `w` or to one less
than the pattern's length. Then scanning window and chunk adds exactly the
occurrences that the chunk completes. -/
theorem windowed_append {pat : List α} (hpat : pat ≠ []) {w s h : ℕ} {text chunk : List α}
    (hs : s ≤ text.length) (hh : h ≤ text.length) (hw : w ≤ h)
    (hreach : h ≤ max w (text.length + 1 - pat.length)) :
    windowed pat w s (text ++ chunk) =
      windowed pat w s text ++ (scanned pat (text.drop h) chunk).map (h + ·) := by
  have hdrop : text.drop h ++ chunk = (text ++ chunk).drop h :=
    (List.drop_append_of_le_length hh).symm
  have hmem : ∀ i, i ∈ (scanned pat (text.drop h) chunk).map (h + ·) ↔
      OccursAt pat (text ++ chunk) i ∧ h ≤ i ∧ text.length < i + pat.length := by
    intro i
    simp only [scanned, hdrop, List.mem_map, List.mem_filter, mem_occurrences hpat,
      occursAt_drop, List.length_drop, decide_eq_true_eq]
    constructor
    · rintro ⟨j, ⟨hj, hend⟩, rfl⟩
      exact ⟨hj, by omega, by omega⟩
    · rintro ⟨hi, hhi, hend⟩
      refine ⟨i - h, ⟨?_, by omega⟩, by omega⟩
      rwa [Nat.add_sub_cancel' hhi]
  apply eq_of_pairwise_lt (pairwise_windowed _ _ _ _)
  · refine List.pairwise_append.mpr ⟨pairwise_windowed _ _ _ _, ?_, ?_⟩
    · apply List.pairwise_map.mpr
      exact ((pairwise_occurrences _ _).filter _).imp fun hij => by omega
    · intro i hi j hj
      have hiend := ((mem_windowed hpat).mp hi).1.add_length_le hpat
      have hjend := ((hmem j).mp hj).2.2
      omega
  · intro i
    rw [List.mem_append, hmem, mem_windowed hpat, mem_windowed hpat]
    constructor
    · rintro ⟨hi, hwi, hsi⟩
      by_cases hend : i + pat.length ≤ text.length
      · exact Or.inl ⟨(occursAt_append_iff hend).mp hi, hwi, hsi⟩
      · exact Or.inr ⟨hi, by omega, by omega⟩
    · rintro (⟨hi, hwi, hsi⟩ | ⟨hi, hhi, hend⟩)
      · exact ⟨(occursAt_append_iff (hi.add_length_le hpat)).mpr hi, hwi, hsi⟩
      · exact ⟨hi, by omega, by omega⟩

end PatternSearch

/-
# Lists of keywords

What `add_filter_rx` makes of the keywords that are recorded and the new ones: the
new ones follow in the order in which each appears first, and none that is there is
added.
-/

import Commmon.Daemon

set_option autoImplicit false

namespace Commmon

private theorem removeAll_cons_right (new existing : List String) (kw : String) :
    new.removeAll (existing ++ [kw]) = (new.removeAll existing).filter fun x => !x == kw := by
  simp only [List.removeAll, List.filter_filter]
  refine List.filter_congr fun x _ => ?_
  by_cases hx : x = kw <;> simp [hx]

/-- The new keywords follow, each once. -/
theorem mergeKeywords_eq_append (existing new : List String) :
    mergeKeywords existing new = existing ++ (new.removeAll existing).eraseDups := by
  unfold mergeKeywords
  induction new generalizing existing with
  | nil => simp [List.removeAll]
  | cons kw new ih =>
      rw [List.foldl_cons, ih]
      by_cases hkw : kw ∈ existing
      · simp [List.removeAll, hkw]
      · rw [if_neg hkw, List.cons_removeAll, if_pos (by simp [hkw]), List.eraseDups_cons,
          removeAll_cons_right]
        simp

theorem mem_mergeKeywords {existing new : List String} {kw : String} :
    kw ∈ mergeKeywords existing new ↔ kw ∈ existing ∨ kw ∈ new := by
  rw [mergeKeywords_eq_append, List.mem_append, List.mem_eraseDups]
  by_cases hkw : kw ∈ existing <;> simp [List.removeAll, hkw]

/-- Nothing is added exactly when every keyword is there. -/
theorem mergeKeywords_eq_self_iff {existing new : List String} :
    mergeKeywords existing new = existing ↔ ∀ kw ∈ new, kw ∈ existing := by
  constructor
  · intro h kw hkw
    exact h ▸ mem_mergeKeywords.mpr (Or.inr hkw)
  · intro h
    have hnone : new.removeAll existing = [] := by
      simpa [List.removeAll] using h
    simp [mergeKeywords_eq_append, hnone]

/-- The first appearances so far, and the keywords of one more list. -/
theorem mergeKeywords_eraseDups (given new : List String) :
    mergeKeywords given.eraseDups new = (given ++ new).eraseDups := by
  have hsame : new.removeAll given.eraseDups = new.removeAll given := by
    simp [List.removeAll]
  rw [mergeKeywords_eq_append, List.eraseDups_append, hsame]

theorem nodup_eraseDups (given : List String) : given.eraseDups.Nodup := by
  induction given using List.reverseRecOn with
  | nil => exact List.nodup_nil
  | append_singleton given kw ih =>
      rw [← mergeKeywords_eraseDups, mergeKeywords_eq_append]
      by_cases hkw : kw ∈ given
      · simpa [List.removeAll, hkw] using ih
      · have hne : ∀ x ∈ given, x ≠ kw := fun x hx heq => hkw (heq ▸ hx)
        simpa [List.removeAll, hkw, ih, List.nodup_append, List.eraseDups_cons] using hne

/-- A list without duplicates is its own first appearances. -/
theorem eraseDups_eq_self_iff {given : List String} : given.eraseDups = given ↔ given.Nodup := by
  constructor
  · intro h
    exact h ▸ nodup_eraseDups given
  · intro h
    induction given using List.reverseRecOn with
    | nil => rfl
    | append_singleton given kw ih =>
        obtain ⟨hgiven, -, hnew⟩ := List.nodup_append.mp h
        have hkw : kw ∉ given := fun hmem => hnew kw hmem kw (by simp) rfl
        rw [List.eraseDups_append, ih hgiven]
        simp [List.removeAll, hkw, List.eraseDups_cons]

end Commmon

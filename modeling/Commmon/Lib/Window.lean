/-
# A window of the last values

A bounded buffer appends values at its end, and lets the oldest one go when it
holds too many. After any number of values it holds the last ones of all that
were pushed.
-/

import Mathlib.Data.List.DropRight

set_option autoImplicit false

universe u

namespace Window

variable {α : Type u} {n : ℕ} {l : List α}

/-- Append a value, and let the oldest one go if there are more than `n`. -/
def push (n : ℕ) (l : List α) (a : α) : List α :=
  let longer := l ++ [a]
  if longer.length > n then longer.tail else longer

theorem rtake_of_length_le (h : l.length ≤ n) : l.rtake n = l := by
  rw [List.rtake, Nat.sub_eq_zero_of_le h, List.drop_zero]

theorem length_rtake (n : ℕ) (l : List α) : (l.rtake n).length = min n l.length := by
  rw [List.rtake, List.length_drop]
  omega

/-- Values that have left the window do not matter to what comes later. -/
theorem rtake_rtake_append (n : ℕ) (l t : List α) :
    (l.rtake n ++ t).rtake n = (l ++ t).rtake n := by
  have hdrop : l.rtake n ++ t = (l ++ t).drop (l.length - n) := by
    rw [List.rtake, List.drop_append_of_le_length (Nat.sub_le _ _)]
  rw [hdrop, List.rtake, List.rtake, List.drop_drop, List.length_drop, List.length_append]
  congr 1
  omega

theorem push_eq_rtake (h : l.length ≤ n) (a : α) : push n l a = (l ++ [a]).rtake n := by
  have hlength : (l ++ [a]).length = l.length + 1 := by simp
  simp only [push]
  split_ifs with hlong
  · have hone : (l ++ [a]).length - n = 1 := by omega
    rw [List.rtake, hone, List.drop_one]
  · exact (rtake_of_length_le (Nat.not_lt.mp hlong)).symm

theorem length_push_le (h : l.length ≤ n) (a : α) : (push n l a).length ≤ n := by
  rw [push_eq_rtake h, length_rtake]
  exact Nat.min_le_left _ _

theorem push_suffix (n : ℕ) (l : List α) (a : α) : push n l a <:+ l ++ [a] := by
  simp only [push]
  split_ifs
  · exact List.tail_suffix _
  · exact List.suffix_rfl

theorem mem_of_mem_push {a x : α} (h : x ∈ push n l a) : x ∈ l ∨ x = a := by
  simpa using (push_suffix n l a).subset h

/-- Nothing leaves a window that is not full. -/
theorem push_of_lt (h : l.length < n) (a : α) : push n l a = l ++ [a] := by
  rw [push_eq_rtake h.le]
  exact rtake_of_length_le (by simpa using Nat.succ_le_of_lt h)

/-- The newest value is in every window that holds anything. -/
theorem getLast?_rtake (h : 0 < n) (l : List α) : (l.rtake n).getLast? = l.getLast? := by
  rcases List.eq_nil_or_concat l with rfl | ⟨l, a, rfl⟩
  · simp
  · obtain ⟨n, rfl⟩ := Nat.exists_eq_succ_of_ne_zero h.ne'
    rw [List.concat_eq_append, List.rtake_concat_succ]
    simp

/-- `l'` is what a window that held `l` holds after more values. -/
def Extends (n : ℕ) (l l' : List α) : Prop := ∃ more, l' = (l ++ more).rtake n

theorem Extends.refl (h : l.length ≤ n) : Extends n l l :=
  ⟨[], by rw [List.append_nil, rtake_of_length_le h]⟩

theorem Extends.push {l l' : List α} (h : Extends n l l') (a : α) :
    Extends n l (push n l' a) := by
  obtain ⟨more, rfl⟩ := h
  refine ⟨more ++ [a], ?_⟩
  have hlength : ((l ++ more).rtake n).length ≤ n := by
    rw [length_rtake]
    exact Nat.min_le_left _ _
  rw [push_eq_rtake hlength, rtake_rtake_append, List.append_assoc]

/-- Append values one after the other, and keep the last `n` each time. -/
def keep (n : ℕ) (l values : List α) : List α :=
  values.foldl (fun l a => (l ++ [a]).rtake n) l

theorem keep_singleton (n : ℕ) (l : List α) (a : α) : keep n l [a] = (l ++ [a]).rtake n := rfl

theorem keep_append (n : ℕ) (l values values' : List α) :
    keep n l (values ++ values') = keep n (keep n l values) values' := List.foldl_append

theorem keep_eq_rtake (n : ℕ) (l : List α) {values : List α} (hne : values ≠ []) :
    keep n l values = (l ++ values).rtake n := by
  induction values using List.reverseRecOn with
  | nil => exact absurd rfl hne
  | append_singleton values a ih =>
      rw [keep_append, keep_singleton]
      cases values with
      | nil => rfl
      | cons b values =>
          rw [ih (List.cons_ne_nil b values), ← List.append_assoc]
          exact rtake_rtake_append _ _ _

theorem keep_nil (n : ℕ) (values : List α) : keep n [] values = values.rtake n := by
  cases values with
  | nil => exact (List.rtake_nil n).symm
  | cons a values => exact keep_eq_rtake n [] (List.cons_ne_nil a values)

/-- The values that are kept are the last of all. -/
theorem keep_suffix (n : ℕ) {l early : List α} (h : l <:+ early) (values : List α) :
    keep n l values <:+ early ++ values := by
  cases values with
  | nil =>
      rw [List.append_nil]
      exact h
  | cons a values =>
      rw [keep_eq_rtake n l (List.cons_ne_nil a values)]
      obtain ⟨front, rfl⟩ := h
      refine (List.drop_suffix _ _).trans ?_
      rw [List.append_assoc]
      exact List.suffix_append _ _

/-- Of two lists that end alike the shorter one is the end of the other. -/
theorem rtake_suffix_rtake {values : List α} (h : values <:+ l)
    (hlength : min n values.length ≤ min n l.length) : values.rtake n <:+ l.rtake n := by
  refine List.suffix_of_suffix_length_le ((List.drop_suffix _ _).trans h) (List.drop_suffix _ _) ?_
  rwa [length_rtake, length_rtake]

theorem rtake_drop_suffix_keep (n : ℕ) (l values : List α) (k : ℕ) :
    (values.drop k).rtake n <:+ keep n l values := by
  cases values with
  | nil => simp
  | cons a values =>
      rw [keep_eq_rtake n l (List.cons_ne_nil a values)]
      have hsuffix := (List.drop_suffix k (a :: values)).trans (List.suffix_append l _)
      apply rtake_suffix_rtake hsuffix
      have hlength := hsuffix.length_le
      omega

/-- What came first is missing from the last values of what came later, unless
it is not asked for or there is enough of what came later. -/
theorem rtake_drop_append_sublist_iff {early late : List α} {k : ℕ} :
    (((early ++ late).drop k).rtake n).Sublist (late.rtake n) ↔
      early.length ≤ k ∨ n ≤ late.length := by
  constructor
  · intro h
    have hlength := h.length_le
    rw [length_rtake, length_rtake, List.length_drop, List.length_append] at hlength
    omega
  · intro h
    have hasked := (List.drop_suffix (((early ++ late).drop k).length - n) _).trans
      (List.drop_suffix k (early ++ late))
    have hlate := (List.drop_suffix (late.length - n) _).trans (List.suffix_append early late)
    refine (List.suffix_of_suffix_length_le hasked hlate ?_).sublist
    simp only [List.length_drop, List.length_append]
    omega

end Window

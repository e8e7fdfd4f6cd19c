/-
# Finite tables

A table is a finite map kept as an association list without repeated keys. Only
lookups are observed: the lemmas below say what a lookup answers after an
insertion, an erasure, the erasure of a list of keys, and that of all keys which a
test rejects, each as one equation that a case split on the key finishes.
-/

import Mathlib.Data.List.AList

set_option autoImplicit false

universe u v

/-- A finite map from `κ` to `ν`. -/
abbrev Table (κ : Type u) (ν : Type v) : Type (max u v) := AList fun _ : κ => ν

namespace Table

variable {κ : Type u} {ν : Type v} [DecidableEq κ]

theorem lookup_insert (m : Table κ ν) (k key : κ) (value : ν) :
    (m.insert k value).lookup key = if key = k then some value else m.lookup key := by
  split_ifs with h
  · subst h
    exact AList.lookup_insert m
  · exact AList.lookup_insert_ne h

theorem lookup_erase (m : Table κ ν) (k key : κ) :
    (m.erase k).lookup key = if key = k then none else m.lookup key := by
  split_ifs with h
  · subst h
    exact AList.lookup_erase key m
  · exact AList.lookup_erase_ne h

theorem mem_keys_of_lookup {m : Table κ ν} {key : κ} {value : ν}
    (h : m.lookup key = some value) : key ∈ m.keys := by
  rw [← AList.mem_keys, ← AList.lookup_isSome, h]
  rfl

theorem exists_lookup_of_mem_keys {m : Table κ ν} {key : κ} (h : key ∈ m.keys) :
    ∃ value, m.lookup key = some value := by
  rw [← AList.mem_keys, ← AList.lookup_isSome] at h
  exact Option.isSome_iff_exists.mp h

/-- Erase every key of the list. -/
def eraseAll (m : Table κ ν) (keys : List κ) : Table κ ν := keys.foldl (fun m k => m.erase k) m

theorem lookup_eraseAll (m : Table κ ν) (keys : List κ) (key : κ) :
    (eraseAll m keys).lookup key = if key ∈ keys then none else m.lookup key := by
  induction keys generalizing m with
  | nil => simp [eraseAll]
  | cons k keys ih =>
      have hstep : eraseAll m (k :: keys) = eraseAll (m.erase k) keys := rfl
      rw [hstep, ih, lookup_erase]
      by_cases hk : key = k <;> by_cases hmem : key ∈ keys <;> simp [hk, hmem]

/-- Erase every key that the test rejects. -/
def retain (m : Table κ ν) (keep : κ → Bool) : Table κ ν :=
  eraseAll m (m.keys.filter fun k => !keep k)

theorem lookup_retain (m : Table κ ν) (keep : κ → Bool) (key : κ) :
    (m.retain keep).lookup key = if keep key then m.lookup key else none := by
  rw [retain, lookup_eraseAll]
  by_cases hmem : key ∈ m.keys
  · cases hkeep : keep key <;> simp [hmem, hkeep]
  · have hnone : m.lookup key = none := AList.lookup_eq_none.mpr hmem
    simp [hnone]

end Table

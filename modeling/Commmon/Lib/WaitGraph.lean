/-
# Waiting with a rank

Who waits for whom is a relation. If every wait goes down in rank, nobody waits for
himself, however many others are in between; and if everybody who has something to
do can do it or waits for somebody who has something to do, then at the end of
every chain of waits there is somebody who can go on.
-/

import Mathlib.Data.Nat.Notation
import Mathlib.Logic.Relation

set_option autoImplicit false

universe u

namespace WaitGraph

variable {A : Type u}

/-- Every wait goes down. -/
def Ranked (waits : A → A → Prop) (rank : A → ℕ) : Prop := ∀ a b, waits a b → rank b < rank a

variable {waits : A → A → Prop} {rank : A → ℕ}

theorem Ranked.lt_of_transGen (h : Ranked waits rank) {a b : A}
    (hab : Relation.TransGen waits a b) : rank b < rank a := by
  induction hab with
  | single hstep => exact h _ _ hstep
  | tail _ hstep ih => exact Nat.lt_trans (h _ _ hstep) ih

/-- There is no cycle of waits. -/
theorem Ranked.acyclic (h : Ranked waits rank) (a : A) : ¬ Relation.TransGen waits a a :=
  fun hcycle => Nat.lt_irrefl _ (h.lt_of_transGen hcycle)

/-- Every chain of waits leads to somebody who can go on. -/
theorem Ranked.reaches (h : Ranked waits rank) {busy can : A → Prop}
    (hprogress : ∀ a, busy a → can a ∨ ∃ b, waits a b ∧ busy b) (a : A) (ha : busy a) :
    ∃ b, Relation.ReflTransGen waits a b ∧ can b := by
  induction hn : rank a using Nat.strongRecOn generalizing a with
  | _ n ih =>
      obtain hcan | ⟨b, hab, hb⟩ := hprogress a ha
      · exact ⟨a, .refl, hcan⟩
      · obtain ⟨c, hbc, hc⟩ := ih (rank b) (hn ▸ h a b hab) b hb rfl
        exact ⟨c, .head hab hbc, hc⟩

end WaitGraph

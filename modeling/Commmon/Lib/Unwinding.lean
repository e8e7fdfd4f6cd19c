/-
# Two runs that look alike

An observer sees some of the labels of a step system, each as an observation. Two
runs look alike to it when they show the same observations in the same order. The
unwinding rule reduces a statement about all such pairs of runs to single steps: a
relation that hidden steps of either run keep, and seen steps of both runs keep
when they show the same, holds at the end of both.
-/

import Commmon.Lib.StepSystem

set_option autoImplicit false

universe u v w

namespace StepSystem

variable {σ : Type u} {ε : Type v} {ω : Type w} {S : StepSystem σ ε}

/-- The steps keep a relation between two runs. It is symmetric, so a hidden step
need only be looked at on one side. -/
structure Unwinding (S : StepSystem σ ε) (observe : ε → Option ω) (R : σ → σ → Prop) : Prop where
  symm : ∀ {s₁ s₂ : σ}, R s₁ s₂ → R s₂ s₁
  hidden : ∀ {s₁ s₂ t₁ : σ} {e : ε}, R s₁ s₂ → observe e = none → S.step s₁ e = some t₁ → R t₁ s₂
  seen : ∀ {s₁ s₂ t₁ t₂ : σ} {e₁ e₂ : ε} {o : ω}, R s₁ s₂ → observe e₁ = some o →
    observe e₂ = some o → S.step s₁ e₁ = some t₁ → S.step s₂ e₂ = some t₂ → R t₁ t₂

variable {observe : ε → Option ω} {R : σ → σ → Prop}

/-- A run of hidden steps. -/
theorem Unwinding.hidden_run (h : S.Unwinding observe R) {es : List ε} :
    ∀ {s₁ s₂ t₁ : σ}, R s₁ s₂ → (∀ e ∈ es, observe e = none) → S.runFrom s₁ es = some t₁ →
      R t₁ s₂ := by
  induction es with
  | nil =>
      intro s₁ s₂ t₁ hR _ hrun
      exact Option.some.inj hrun ▸ hR
  | cons e es ih =>
      intro s₁ s₂ t₁ hR hhidden hrun
      obtain ⟨m, hstep, hrest⟩ := S.runFrom_cons_eq_some.mp hrun
      obtain ⟨he, hes⟩ := List.forall_mem_cons.mp hhidden
      exact ih (h.hidden hR he hstep) hes hrest

/-- The unwinding rule. -/
theorem Unwinding.runs (h : S.Unwinding observe R) {es₁ : List ε} :
    ∀ {es₂ : List ε} {s₁ s₂ t₁ t₂ : σ}, R s₁ s₂ → es₁.filterMap observe = es₂.filterMap observe →
      S.runFrom s₁ es₁ = some t₁ → S.runFrom s₂ es₂ = some t₂ → R t₁ t₂ := by
  induction es₁ with
  | nil =>
      intro es₂ s₁ s₂ t₁ t₂ hR hsame hrun₁ hrun₂
      obtain rfl := Option.some.inj hrun₁
      have hhidden : ∀ e ∈ es₂, observe e = none := List.filterMap_eq_nil_iff.mp hsame.symm
      exact h.symm (h.hidden_run (h.symm hR) hhidden hrun₂)
  | cons e es ih =>
      intro es₂ s₁ s₂ t₁ t₂ hR hsame hrun₁ hrun₂
      obtain ⟨m₁, hstep₁, hrest₁⟩ := S.runFrom_cons_eq_some.mp hrun₁
      cases ho : observe e with
      | none =>
          rw [List.filterMap_cons_none ho] at hsame
          exact ih (h.hidden hR ho hstep₁) hsame hrest₁ hrun₂
      | some o =>
          rw [List.filterMap_cons_some ho] at hsame
          obtain ⟨before, e₂, after, rfl, hbefore, ho₂, hafter⟩ :=
            List.filterMap_eq_cons_iff.mp hsame.symm
          rw [runFrom_append] at hrun₂
          obtain ⟨m₂, hrun₂, hrest₂⟩ := Option.bind_eq_some_iff.mp hrun₂
          obtain ⟨n₂, hstep₂, hrest₂⟩ := S.runFrom_cons_eq_some.mp hrest₂
          have hmid : R s₁ m₂ := h.symm (h.hidden_run (h.symm hR) hbefore hrun₂)
          exact ih (h.seen hmid ho ho₂ hstep₁ hstep₂) hafter.symm hrest₁ hrest₂

end StepSystem

/-
# Step systems and their runs

A step system is an initial state with a partial step function.  All
nondeterminism is carried by the labels, so a list of labels determines at most
one run, and a statement about every interleaving is a statement about every
list of labels.

Two rules are packaged here.  The invariant rule reduces a property of all
reachable states to the initial state and one step.  The history rule does the
same for a property that may also speak about the labels taken so far, which is
what a condition such as "this has happened, and that has not happened since"
needs.
-/

import Mathlib.Data.List.Basic
import Mathlib.Data.List.Induction

set_option autoImplicit false

universe u v w

/-- An initial state and a partial step function, read at a label. -/
structure StepSystem (σ : Type u) (ε : Type v) where
  init : σ
  step : σ → ε → Option σ

namespace StepSystem

variable {σ : Type u} {ε : Type v} (S : StepSystem σ ε)

/-- Take the labels in order, and fail at the first one that is not enabled. -/
def runFrom : σ → List ε → Option σ
  | s, [] => some s
  | s, e :: es => (S.step s e).bind fun t => runFrom t es

/-- The state a list of labels reaches from the initial state. -/
def run (es : List ε) : Option σ := S.runFrom S.init es

@[simp]
theorem runFrom_nil (s : σ) : S.runFrom s [] = some s := rfl

@[simp]
theorem run_nil : S.run [] = some S.init := rfl

theorem runFrom_cons_eq_some {s t : σ} {e : ε} {es : List ε} :
    S.runFrom s (e :: es) = some t ↔
      ∃ m, S.step s e = some m ∧ S.runFrom m es = some t := by
  simp [runFrom, Option.bind_eq_some_iff]

theorem runFrom_append (s : σ) (es fs : List ε) :
    S.runFrom s (es ++ fs) = (S.runFrom s es).bind fun t => S.runFrom t fs := by
  induction es generalizing s with
  | nil => rfl
  | cons e es ih =>
      simp only [List.cons_append, runFrom]
      cases S.step s e with
      | none => rfl
      | some t => exact ih t

theorem run_append_eq_some {es fs : List ε} {t : σ} :
    S.run (es ++ fs) = some t ↔
      ∃ s, S.run es = some s ∧ S.runFrom s fs = some t := by
  simp [run, runFrom_append, Option.bind_eq_some_iff]

/-- A run that ends with `e` is a run followed by one step. -/
theorem run_snoc_eq_some {es : List ε} {e : ε} {t : σ} :
    S.run (es ++ [e]) = some t ↔ ∃ s, S.run es = some s ∧ S.step s e = some t := by
  simp [run_append_eq_some, runFrom_cons_eq_some]

/-- The invariant rule. What one step preserves, every run preserves. Only
steps at the labels of the run are asked for. -/
theorem runFrom_invariant_on {P : σ → Prop} {A : ε → Prop}
    (preserved : ∀ s e t, A e → P s → S.step s e = some t → P t) :
    ∀ {es : List ε} {s t : σ}, (∀ e ∈ es, A e) → P s → S.runFrom s es = some t → P t := by
  intro es
  induction es with
  | nil =>
      intro s t _ hs hrun
      simpa [← Option.some.inj hrun] using hs
  | cons e es ih =>
      intro s t hlabels hs hrun
      obtain ⟨m, hstep, hrest⟩ := S.runFrom_cons_eq_some.mp hrun
      refine ih (fun e' he' => hlabels e' (List.mem_cons_of_mem e he')) ?_ hrest
      exact preserved s e m (hlabels e List.mem_cons_self) hs hstep

theorem runFrom_invariant {P : σ → Prop}
    (preserved : ∀ s e t, P s → S.step s e = some t → P t)
    {es : List ε} {s t : σ} (hs : P s) (hrun : S.runFrom s es = some t) : P t :=
  S.runFrom_invariant_on (A := fun _ => True) (fun s e t _ => preserved s e t)
    (fun _ _ => trivial) hs hrun

theorem run_invariant {P : σ → Prop} (base : P S.init)
    (preserved : ∀ s e t, P s → S.step s e = some t → P t)
    {es : List ε} {t : σ} (hrun : S.run es = some t) : P t :=
  S.runFrom_invariant preserved base hrun

/-- The history rule, from a point of a run on. The predicate may read the
labels taken since. -/
theorem run_history_from {P : List ε → σ → Prop} {before : List ε}
    (base : ∀ s, S.run before = some s → P [] s)
    (preserved : ∀ es s e t, S.run (before ++ es) = some s → P es s → S.step s e = some t →
      P (es ++ [e]) t) :
    ∀ {es : List ε} {t : σ}, S.run (before ++ es) = some t → P es t := by
  intro es
  induction es using List.reverseRecOn with
  | nil =>
      intro t hrun
      exact base t (by simpa using hrun)
  | append_singleton es e ih =>
      intro t hrun
      rw [← List.append_assoc] at hrun
      obtain ⟨s, hs, hstep⟩ := S.run_snoc_eq_some.mp hrun
      exact preserved es s e t hs (ih hs) hstep

/-- The history rule. The predicate may read the labels taken so far. -/
theorem run_history {P : List ε → σ → Prop} (base : P [] S.init)
    (preserved : ∀ es s e t, S.run es = some s → P es s → S.step s e = some t →
      P (es ++ [e]) t)
    {es : List ε} {t : σ} (hrun : S.run es = some t) : P es t := by
  rw [← List.nil_append es] at hrun
  refine S.run_history_from (fun s hs => ?_) (fun es s e t hes => ?_) hrun
  · exact Option.some.inj hs ▸ base
  · rw [List.nil_append] at hes
    exact preserved es s e t hes

/-- The ranking rule. If every step lowers the rank, the rank bounds the steps that
a run can still take. -/
theorem runFrom_ranked {P : σ → Prop} {rank : σ → ℕ}
    (preserved : ∀ s e t, P s → S.step s e = some t → P t ∧ rank t < rank s) {es : List ε} :
    ∀ {s t : σ}, P s → S.runFrom s es = some t → P t ∧ es.length + rank t ≤ rank s := by
  induction es with
  | nil =>
      intro s t hs hrun
      obtain rfl : s = t := by simpa using hrun
      exact ⟨hs, by simp⟩
  | cons e es ih =>
      intro s t hs hrun
      obtain ⟨m, hstep, hrest⟩ := S.runFrom_cons_eq_some.mp hrun
      obtain ⟨hm, hlower⟩ := preserved s e m hs hstep
      obtain ⟨ht, hle⟩ := ih hm hrest
      refine ⟨ht, ?_⟩
      rw [List.length_cons]
      omega

/-- A map that commutes with the steps commutes with the runs. -/
theorem runFrom_map {A : ε → Prop} {f : σ → σ}
    (hstep : ∀ s e, A e → S.step (f s) e = (S.step s e).map f) :
    ∀ {es : List ε} {s : σ}, (∀ e ∈ es, A e) → S.runFrom (f s) es = (S.runFrom s es).map f := by
  intro es
  induction es with
  | nil => exact fun _ => rfl
  | cons e es ih =>
      intro s hes
      obtain ⟨he, hrest⟩ := List.forall_mem_cons.mp hes
      rw [runFrom, runFrom, hstep s e he]
      cases S.step s e with
      | none => rfl
      | some t => exact ih hrest

/-- Every transition that the labels take from `s` satisfies `P`. -/
def Along (P : σ → ε → σ → Prop) : σ → List ε → Prop
  | _, [] => True
  | s, e :: es => ∀ t, S.step s e = some t → P s e t ∧ Along P t es

instance decidableAlong {P : σ → ε → σ → Prop} [∀ s e t, Decidable (P s e t)] :
    ∀ (s : σ) (es : List ε), Decidable (S.Along P s es)
  | _, [] => isTrue trivial
  | s, e :: es =>
      match h : S.step s e with
      | none => isTrue fun t ht => by simp [h] at ht
      | some t =>
          have : Decidable (S.Along P t es) := decidableAlong t es
          decidable_of_iff (P s e t ∧ S.Along P t es) (by simp [Along, h])

theorem along_append {P : σ → ε → σ → Prop} {es fs : List ε} {s t : σ}
    (hrun : S.runFrom s es = some t) :
    S.Along P s (es ++ fs) ↔ S.Along P s es ∧ S.Along P t fs := by
  induction es generalizing s with
  | nil =>
      obtain rfl := Option.some.inj hrun
      simp [Along]
  | cons e es ih =>
      obtain ⟨m, hstep, hrest⟩ := S.runFrom_cons_eq_some.mp hrun
      simp only [List.cons_append, Along, hstep, Option.some.injEq, forall_eq', ih hrest]
      exact and_assoc.symm

theorem along_mono {P Q : σ → ε → σ → Prop} (h : ∀ s e t, P s e t → Q s e t) {es : List ε}
    {s : σ} (halong : S.Along P s es) : S.Along Q s es := by
  induction es generalizing s with
  | nil => trivial
  | cons e es ih => exact fun t ht => ⟨h s e t (halong t ht).1, ih (halong t ht).2⟩

theorem along_and {P Q : σ → ε → σ → Prop} {es : List ε} {s : σ} (hP : S.Along P s es)
    (hQ : S.Along Q s es) : S.Along (fun s e t => P s e t ∧ Q s e t) s es := by
  induction es generalizing s with
  | nil => trivial
  | cons e es ih =>
      exact fun t ht => ⟨⟨(hP t ht).1, (hQ t ht).1⟩, ih (hP t ht).2 (hQ t ht).2⟩

/-- Labels that are always good make a good run. -/
theorem along_of_labels {P : σ → ε → σ → Prop} {es : List ε}
    (h : ∀ e ∈ es, ∀ s t, P s e t) (s : σ) : S.Along P s es := by
  induction es generalizing s with
  | nil => trivial
  | cons e es ih =>
      exact fun t _ => ⟨h e List.mem_cons_self s t,
        ih (fun e' he' => h e' (List.mem_cons_of_mem e he')) t⟩

/-- The invariant rule for runs whose transitions all satisfy `Q`. -/
theorem runFrom_invariant_along {P : σ → Prop} {A : ε → Prop} {Q : σ → ε → σ → Prop}
    (preserved : ∀ s e t, A e → Q s e t → P s → S.step s e = some t → P t) :
    ∀ {es : List ε} {s t : σ}, (∀ e ∈ es, A e) → S.Along Q s es → P s →
      S.runFrom s es = some t → P t := by
  intro es
  induction es with
  | nil =>
      intro s t _ _ hs hrun
      simpa [← Option.some.inj hrun] using hs
  | cons e es ih =>
      intro s t hlabels halong hs hrun
      obtain ⟨m, hstep, hrest⟩ := S.runFrom_cons_eq_some.mp hrun
      obtain ⟨hfirst, hafter⟩ := halong m hstep
      refine ih (fun e' he' => hlabels e' (List.mem_cons_of_mem e he')) hafter ?_ hrest
      exact preserved s e m (hlabels e List.mem_cons_self) hfirst hs hstep

/-- What the transitions of a run show, one after another. -/
def collect {α : Type w} (shows : σ → ε → List α) : σ → List ε → List α
  | _, [] => []
  | s, e :: es =>
      match S.step s e with
      | some t => shows s e ++ collect shows t es
      | none => []

/-- One more step adds what it shows. -/
theorem collect_snoc {α : Type w} {shows : σ → ε → List α} {es : List ε} {e : ε} {s t u : σ}
    (hrun : S.runFrom s es = some t) (hstep : S.step t e = some u) :
    S.collect shows s (es ++ [e]) = S.collect shows s es ++ shows t e := by
  induction es generalizing s with
  | nil =>
      obtain rfl := Option.some.inj hrun
      simp [collect, hstep]
  | cons e' es ih =>
      obtain ⟨m, hm, hrest⟩ := S.runFrom_cons_eq_some.mp hrun
      simp only [List.cons_append, collect, hm, ih hrest, List.append_assoc]

/-- A run shows a run of another system if every transition does. -/
theorem runFrom_collect {τ : Type u} {α : Type w} {T : StepSystem τ α} {f : σ → τ}
    {shows : σ → ε → List α}
    (hstep : ∀ s e t, S.step s e = some t → T.runFrom (f s) (shows s e) = some (f t)) :
    ∀ {es : List ε} {s t : σ}, S.runFrom s es = some t →
      T.runFrom (f s) (S.collect shows s es) = some (f t) := by
  intro es
  induction es with
  | nil =>
      intro s t hrun
      exact congrArg (fun u => some (f u)) (Option.some.inj hrun)
  | cons e es ih =>
      intro s t hrun
      obtain ⟨m, hm, hrest⟩ := S.runFrom_cons_eq_some.mp hrun
      rw [collect, hm]
      simp only [runFrom_append, hstep s e m hm, Option.bind_some]
      exact ih hrest

/-- Labels of a kind lead from one state to another. -/
def ReachesBy (A : ε → Prop) (s t : σ) : Prop :=
  ∃ es, (∀ e ∈ es, A e) ∧ S.runFrom s es = some t

variable {S} in
theorem ReachesBy.refl {A : ε → Prop} (s : σ) : S.ReachesBy A s s :=
  ⟨[], by simp, S.runFrom_nil s⟩

variable {S} in
theorem ReachesBy.trans {A : ε → Prop} {s t u : σ} (h : S.ReachesBy A s t)
    (h' : S.ReachesBy A t u) : S.ReachesBy A s u := by
  obtain ⟨es, hes, hrun⟩ := h
  obtain ⟨fs, hfs, hrun'⟩ := h'
  refine ⟨es ++ fs, fun e he => ?_, ?_⟩
  · exact (List.mem_append.mp he).elim (hes e) (hfs e)
  · rw [runFrom_append, hrun]
    exact hrun'

variable {S} in
theorem ReachesBy.of_step {A : ε → Prop} {s t : σ} {e : ε}
    (hstep : S.step s e = some t) (he : A e) : S.ReachesBy A s t :=
  ⟨[e], by simpa using he, S.runFrom_cons_eq_some.mpr ⟨t, hstep, S.runFrom_nil t⟩⟩

/-- `bad` has happened on the run, and `reset` has not happened since. -/
def OccurredSince (bad reset : σ → ε → σ → Prop) (es : List ε) : Prop :=
  ∃ before e after s t,
    es = before ++ e :: after ∧ S.run before = some s ∧ S.step s e = some t ∧
      bad s e t ∧ S.Along (fun s e t => ¬ reset s e t) t after

/-- One more step either is the bad one or keeps what happened before, unless
it resets. -/
theorem occurredSince_snoc {bad reset : σ → ε → σ → Prop} {es : List ε} {e : ε} {s t : σ}
    (hrun : S.run es = some s) (hstep : S.step s e = some t) :
    S.OccurredSince bad reset (es ++ [e]) ↔
      bad s e t ∨ (S.OccurredSince bad reset es ∧ ¬ reset s e t) := by
  constructor
  · rintro ⟨before, b, after, x, y, hsplit, hbefore, hb, hbad, hafter⟩
    rcases List.eq_nil_or_concat after with rfl | ⟨rest, last, rfl⟩
    · obtain ⟨rfl, hlast⟩ := List.append_inj' hsplit rfl
      obtain rfl : e = b := by simpa using hlast
      obtain rfl : s = x := Option.some.inj (hrun.symm.trans hbefore)
      obtain rfl : t = y := Option.some.inj (hstep.symm.trans hb)
      exact Or.inl hbad
    · have hsplit' : es ++ [e] = (before ++ b :: rest) ++ [last] := by simpa using hsplit
      obtain ⟨rfl, hlast⟩ := List.append_inj' hsplit' rfl
      obtain rfl : e = last := by simpa using hlast
      obtain ⟨z, hz, hrest⟩ := S.run_append_eq_some.mp hrun
      obtain rfl : x = z := Option.some.inj (hbefore.symm.trans hz)
      have hrest' : S.runFrom y rest = some s := by
        simpa [runFrom, hb] using hrest
      rw [List.concat_eq_append, S.along_append hrest'] at hafter
      exact Or.inr ⟨⟨before, b, rest, x, y, rfl, hbefore, hb, hbad, hafter.1⟩,
        (hafter.2 t hstep).1⟩
  · rintro (hbad | ⟨⟨before, b, rest, x, y, rfl, hbefore, hb, hbad, hrest⟩, hkeep⟩)
    · exact ⟨es, e, [], s, t, rfl, hrun, hstep, hbad, trivial⟩
    · obtain ⟨z, hz, hrun'⟩ := S.run_append_eq_some.mp hrun
      obtain rfl : x = z := Option.some.inj (hbefore.symm.trans hz)
      have hrest' : S.runFrom y rest = some s := by
        simpa [runFrom, hb] using hrun'
      refine ⟨before, b, rest ++ [e], x, y, by simp, hbefore, hb, hbad, ?_⟩
      rw [S.along_append hrest']
      refine ⟨hrest, fun u hu => ⟨?_, trivial⟩⟩
      obtain rfl : t = u := Option.some.inj (hstep.symm.trans hu)
      exact hkeep

end StepSystem

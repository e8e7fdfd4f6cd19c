/-
# A record mirrored through a queue of commands

Two parties keep copies of one registration. The first holds the record; the
second holds a slot, and learns about the record only through a queue of
commands. A registration refers to the current generation of a resource that
comes and goes: the second party drops its slot by itself once it notices that
the generation has gone, and the first is told about the end of a generation
only when it ends it itself.

`View.Inv` says how far the two copies agree. The slot that the pending
commands lead to is always a registration of the record, never the other way
round. The record is live, served by a slot of the current generation, until a
generation ends that the first party is not told about.
-/

import Mathlib.Data.List.Basic
import Mathlib.Logic.Relation

set_option autoImplicit false

universe u

namespace Mirror

variable {β : Type u}

/-- Commands to the second party. `modify` acts only on a slot that is there. -/
inductive Command (β : Type u)
  | set (gen : ℕ) (value : β)
  | modify (value : β)
  | unset

namespace Command

def apply : Command β → Option (ℕ × β) → Option (ℕ × β)
  | set gen value, _ => some (gen, value)
  | modify value, slot => slot.map fun x => (x.1, value)
  | unset, _ => none

@[simp] theorem apply_set (gen : ℕ) (value : β) (slot : Option (ℕ × β)) :
    (set gen value).apply slot = some (gen, value) := rfl

@[simp] theorem apply_modify (value : β) (slot : Option (ℕ × β)) :
    (modify value).apply slot = slot.map fun x => (x.1, value) := rfl

@[simp] theorem apply_unset (slot : Option (ℕ × β)) : (unset : Command β).apply slot = none := rfl

end Command

def applyAll (cmds : List (Command β)) (slot : Option (ℕ × β)) : Option (ℕ × β) :=
  cmds.foldl (fun cur cmd => cmd.apply cur) slot

@[simp]
theorem applyAll_nil (slot : Option (ℕ × β)) : applyAll [] slot = slot := rfl

@[simp]
theorem applyAll_cons (cmd : Command β) (cmds : List (Command β)) (slot : Option (ℕ × β)) :
    applyAll (cmd :: cmds) slot = applyAll cmds (cmd.apply slot) := rfl

@[simp]
theorem applyAll_append (cmds cmds' : List (Command β)) (slot : Option (ℕ × β)) :
    applyAll (cmds ++ cmds') slot = applyAll cmds' (applyAll cmds slot) :=
  List.foldl_append

/-- Dropping the slot before the commands either makes no difference, or loses
exactly what the slot still was. -/
theorem applyAll_some_cases (cmds : List (Command β)) (gen : ℕ) (value : β) :
    applyAll cmds (some (gen, value)) = applyAll cmds none ∨
    (applyAll cmds none = none ∧ ∃ value', applyAll cmds (some (gen, value)) =
      some (gen, value')) := by
  induction cmds generalizing value with
  | nil => exact Or.inr ⟨rfl, value, rfl⟩
  | cons cmd cmds ih =>
      cases cmd with
      | set gen' value' => exact Or.inl rfl
      | modify value' => simpa using ih value'
      | unset => exact Or.inl rfl

/-- What the commands lead to from nothing, they lead to from any slot. -/
theorem applyAll_of_none {cmds : List (Command β)} {x : ℕ × β}
    (h : applyAll cmds none = some x) (slot : Option (ℕ × β)) :
    applyAll cmds slot = some x := by
  rcases slot with - | ⟨gen, value⟩
  · exact h
  · obtain heq | ⟨hnone, -⟩ := applyAll_some_cases cmds gen value
    · exact heq.trans h
    · simp [hnone] at h

/-- A slot that commands without `set` lead to was there before, with the same
generation. -/
theorem slot_of_applyAll {cmds : List (Command β)} (hcmds : ∀ g b, Command.set g b ∉ cmds)
    {slot : Option (ℕ × β)} {gen : ℕ} {value : β}
    (h : applyAll cmds slot = some (gen, value)) : ∃ old, slot = some (gen, old) := by
  induction cmds generalizing slot with
  | nil => exact ⟨value, h⟩
  | cons cmd cmds ih =>
      rw [applyAll_cons] at h
      obtain ⟨old, hold⟩ := ih (fun g b hmem => hcmds g b (List.mem_cons_of_mem _ hmem)) h
      cases cmd with
      | set g b => exact absurd List.mem_cons_self (hcmds g b)
      | modify b =>
          rw [Command.apply_modify, Option.map_eq_some_iff] at hold
          obtain ⟨⟨g, b'⟩, hslot, heq⟩ := hold
          obtain ⟨rfl, -⟩ := Prod.mk.inj heq
          exact ⟨b', hslot⟩
      | unset => simp at hold

/-- Both copies, the commands on their way, and the resource. `condemned` says
that the second party has noticed the end of its slot's generation, and `closing`
that the first party is in the middle of ending the current one. `lost` records
that a generation has ended, unknown to the first party, since it last took one. -/
structure View (β : Type u) where
  record : Option β
  slot : Option (ℕ × β)
  pending : List (Command β)
  current : Option ℕ
  fresh : ℕ
  condemned : Prop
  closing : Prop
  lost : Prop

namespace View

/-- The slot once all pending commands have been applied. -/
def effective (v : View β) : Option (ℕ × β) := applyAll v.pending v.slot

/-- A generation that the slot has or may get. -/
def Source (v : View β) (gen : ℕ) : Prop :=
  (∃ value, v.slot = some (gen, value)) ∨ ∃ value, Command.set gen value ∈ v.pending

end View

/-- What the two parties, and the resource, can do. -/
inductive Step : View β → View β → Prop
  | take (v : View β) (gen : ℕ) (value : β) (hcurrent : v.current = some gen)
      (hclosing : ¬ v.closing) :
      Step v { v with
        record := some value, pending := v.pending ++ [.set gen value], lost := False }
  | modify (v : View β) (old value : β) (hrecord : v.record = some old)
      (hclosing : ¬ v.closing) :
      Step v { v with record := some value, pending := v.pending ++ [.modify value] }
  | unset (v : View β) :
      Step v { v with record := none, pending := v.pending ++ [.unset] }
  | close (v : View β) (cmds : List (Command β))
      (hcmds : cmds = [.unset] ∨ cmds = [] ∧ v.record = none) :
      Step v { v with pending := v.pending ++ cmds, current := none, closing := True }
  | forget (v : View β) (hclosing : v.closing) :
      Step v { v with record := none, closing := False }
  | consume (v : View β) (cmd : Command β) (rest : List (Command β))
      (hpending : v.pending = cmd :: rest) (hcondemned : ¬ v.condemned) :
      Step v { v with slot := cmd.apply v.slot, pending := rest }
  | notice (v : View β) (hgone : ∀ gen value, v.slot = some (gen, value) →
        v.current ≠ some gen) :
      Step v { v with condemned := True }
  | drop (v : View β) (hcondemned : v.condemned) :
      Step v { v with slot := none, condemned := False }
  | loseTo (v : View β) : Step v { v with current := none, lost := True }
  | renew (v : View β) (gen fresh : ℕ) (hcurrent : v.current = none)
      (hgen : v.fresh ≤ gen) (hfresh : gen < fresh) :
      Step v { v with current := some gen, fresh := fresh }
  | age (v : View β) (fresh : ℕ) (hfresh : v.fresh ≤ fresh) : Step v { v with fresh := fresh }

/-- How far the two copies agree. -/
structure View.Inv (v : View β) : Prop where
  current_lt : ∀ gen, v.current = some gen → gen < v.fresh
  source_lt : ∀ gen, v.Source gen → gen < v.fresh
  stale : v.lost ∨ v.closing → ∀ gen, v.Source gen → v.current ≠ some gen
  condemned : v.condemned → ∀ gen value, v.slot = some (gen, value) → v.current ≠ some gen
  live : ∀ value, v.record = some value → ¬ v.lost → ¬ v.closing →
    ∃ gen, v.current = some gen ∧ v.effective = some (gen, value)
  mirrored : ∀ gen value, v.effective = some (gen, value) → v.record = some value
  gone : v.closing → v.effective = none

/-- Commands that set nothing are no source. -/
theorem View.Source.of_append {v w : View β} {cmds : List (Command β)} {gen : ℕ}
    (hslot : w.slot = v.slot) (hpending : w.pending = v.pending ++ cmds)
    (hcmds : ∀ g b, Command.set g b ∉ cmds) (h : w.Source gen) : v.Source gen := by
  rcases h with ⟨value, h⟩ | ⟨value, hmem⟩
  · exact Or.inl ⟨value, hslot ▸ h⟩
  · rw [hpending, List.mem_append] at hmem
    exact Or.inr ⟨value, hmem.resolve_right (hcmds gen value)⟩

/-- A slot has its source from before when a command is taken off the queue. -/
theorem View.Source.of_consume {v w : View β} {cmd : Command β} {gen : ℕ}
    (hpending : v.pending = cmd :: w.pending) (hslot : w.slot = cmd.apply v.slot)
    (h : w.Source gen) : v.Source gen := by
  rcases h with ⟨value, h⟩ | ⟨value, hmem⟩
  · rw [hslot] at h
    cases cmd with
    | set gen' value' =>
        obtain ⟨rfl, rfl⟩ : gen' = gen ∧ value' = value := by simpa using h
        exact Or.inr ⟨value', by simp [hpending]⟩
    | modify value' =>
        rw [Command.apply_modify, Option.map_eq_some_iff] at h
        obtain ⟨⟨gen', old⟩, hold, heq⟩ := h
        obtain ⟨rfl, -⟩ := Prod.mk.inj heq
        exact Or.inl ⟨old, hold⟩
    | unset => simp at h
  · exact Or.inr ⟨value, by simp [hpending, hmem]⟩

/-- A condemned slot is not of the current generation, so a registration that is
live does not come from it. -/
theorem View.effective_of_drop {v : View β} {gen : ℕ} {value : β}
    (hgone : ∀ g b, v.slot = some (g, b) → v.current ≠ some g)
    (hcurrent : v.current = some gen) (heff : v.effective = some (gen, value)) :
    applyAll v.pending none = some (gen, value) := by
  unfold View.effective at heff
  rcases hslot : v.slot with - | ⟨g, b⟩
  · rwa [hslot] at heff
  · rw [hslot] at heff
    obtain heq | ⟨-, b', heq⟩ := applyAll_some_cases v.pending g b
    · exact heq ▸ heff
    · obtain ⟨rfl, -⟩ : g = gen ∧ b' = value := by simpa [heq] using heff
      exact absurd hcurrent (hgone g b hslot)

namespace View.Inv

variable {v : View β}

theorem take (hv : v.Inv) {gen : ℕ} (value : β) (hcurrent : v.current = some gen)
    (hclosing : ¬ v.closing) :
    View.Inv { v with
      record := some value, pending := v.pending ++ [.set gen value], lost := False } where
  current_lt := hv.current_lt
  source_lt := by
    rintro g (hslot | ⟨b, hmem⟩)
    · exact hv.source_lt g (Or.inl hslot)
    · simp only [List.mem_append, List.mem_singleton, Command.set.injEq] at hmem
      rcases hmem with hmem | ⟨rfl, -⟩
      · exact hv.source_lt g (Or.inr ⟨b, hmem⟩)
      · exact hv.current_lt g hcurrent
  stale := by
    rintro (hlost | hc)
    · exact hlost.elim
    · exact absurd hc hclosing
  condemned := hv.condemned
  live := by
    rintro b hb - -
    obtain rfl := Option.some.inj hb
    exact ⟨gen, hcurrent, by simp [View.effective]⟩
  mirrored := by
    intro g b h
    obtain ⟨-, rfl⟩ : gen = g ∧ value = b := by simpa [View.effective] using h
    rfl
  gone hc := absurd hc hclosing

theorem modify (hv : v.Inv) {old : β} (value : β) (hrecord : v.record = some old)
    (hclosing : ¬ v.closing) :
    View.Inv { v with record := some value, pending := v.pending ++ [.modify value] } := by
  have heff : View.effective { v with
      record := some value, pending := v.pending ++ [.modify value] } =
      v.effective.map fun x => (x.1, value) := by
    simp [View.effective]
  have hsource : ∀ g, View.Source { v with
      record := some value, pending := v.pending ++ [.modify value] } g → v.Source g :=
    fun g => View.Source.of_append rfl rfl (by simp)
  refine ⟨hv.current_lt, fun g hg => hv.source_lt g (hsource g hg),
    fun h g hg => hv.stale h g (hsource g hg), hv.condemned, ?_, ?_, ?_⟩
  · intro b hb hlost hc
    obtain rfl := Option.some.inj hb
    obtain ⟨gen, hcurrent, hlive⟩ := hv.live old hrecord hlost hc
    exact ⟨gen, hcurrent, by rw [heff, hlive]; rfl⟩
  · intro g b h
    rw [heff, Option.map_eq_some_iff] at h
    obtain ⟨x, -, hx⟩ := h
    exact congrArg some (Prod.mk.inj hx).2
  · exact fun hc => absurd hc hclosing

theorem unset (hv : v.Inv) :
    View.Inv { v with record := none, pending := v.pending ++ [.unset] } := by
  have heff : View.effective { v with record := none, pending := v.pending ++ [.unset] } =
      none := by
    simp [View.effective]
  have hsource : ∀ g, View.Source { v with
      record := none, pending := v.pending ++ [.unset] } g → v.Source g :=
    fun g => View.Source.of_append rfl rfl (by simp)
  refine ⟨hv.current_lt, fun g hg => hv.source_lt g (hsource g hg),
    fun h g hg => hv.stale h g (hsource g hg), hv.condemned, ?_, ?_, fun _ => heff⟩
  · exact fun b hb => absurd hb (by simp)
  · exact fun g b h => absurd (heff.symm.trans h) (by simp)

theorem close (hv : v.Inv) {cmds : List (Command β)}
    (hcmds : cmds = [.unset] ∨ cmds = [] ∧ v.record = none) :
    View.Inv { v with pending := v.pending ++ cmds, current := none, closing := True } := by
  have heff : View.effective { v with
      pending := v.pending ++ cmds, current := none, closing := True } = none := by
    rcases hcmds with rfl | ⟨rfl, hrecord⟩
    · simp [View.effective]
    · rcases h : v.effective with - | ⟨g, b⟩
      · simpa [View.effective] using h
      · exact absurd (hrecord.symm.trans (hv.mirrored g b h)) (by simp)
  have hsource : ∀ g, View.Source { v with
      pending := v.pending ++ cmds, current := none, closing := True } g → v.Source g :=
    fun g => View.Source.of_append rfl rfl (by
      rcases hcmds with rfl | ⟨rfl, -⟩ <;> simp)
  refine ⟨by simp, fun g hg => hv.source_lt g (hsource g hg), by simp, by simp, ?_, ?_,
    fun _ => heff⟩
  · exact fun _ _ _ hc => absurd trivial hc
  · exact fun g b h => absurd (heff.symm.trans h) (by simp)

theorem forget (hv : v.Inv) (hclosing : v.closing) :
    View.Inv { v with record := none, closing := False } := by
  have heff : View.effective { v with record := none, closing := False } = none :=
    hv.gone hclosing
  refine ⟨hv.current_lt, hv.source_lt, fun h => hv.stale (h.imp_right False.elim),
    hv.condemned, ?_, ?_, False.elim⟩
  · exact fun b hb => absurd hb (by simp)
  · exact fun g b h => absurd (heff.symm.trans h) (by simp)

theorem consume (hv : v.Inv) {cmd : Command β} {rest : List (Command β)}
    (hpending : v.pending = cmd :: rest) (hcondemned : ¬ v.condemned) :
    View.Inv { v with slot := cmd.apply v.slot, pending := rest } := by
  have heff : View.effective { v with slot := cmd.apply v.slot, pending := rest } =
      v.effective := by
    simp [View.effective, hpending]
  have hsource : ∀ g, View.Source { v with slot := cmd.apply v.slot, pending := rest } g →
      v.Source g :=
    fun g => View.Source.of_consume hpending rfl
  exact ⟨hv.current_lt, fun g hg => hv.source_lt g (hsource g hg),
    fun h g hg => hv.stale h g (hsource g hg), fun hc => absurd hc hcondemned,
    fun b hb hlost hc => heff ▸ hv.live b hb hlost hc,
    fun g b h => hv.mirrored g b (heff ▸ h), fun hc => heff.trans (hv.gone hc)⟩

theorem drop (hv : v.Inv) (hcondemned : v.condemned) :
    View.Inv { v with slot := none, condemned := False } := by
  have hsource : ∀ g, View.Source { v with slot := none, condemned := False } g →
      v.Source g := by
    rintro g (⟨b, hslot⟩ | hmem)
    · exact absurd hslot (by simp)
    · exact Or.inr hmem
  have hgain : ∀ x, applyAll v.pending none = some x → v.effective = some x :=
    fun x h => applyAll_of_none h v.slot
  refine ⟨hv.current_lt, fun g hg => hv.source_lt g (hsource g hg),
    fun h g hg => hv.stale h g (hsource g hg), False.elim, ?_, ?_, ?_⟩
  · intro b hb hlost hc
    obtain ⟨gen, hcurrent, hlive⟩ := hv.live b hb hlost hc
    have hkept := View.effective_of_drop (hv.condemned hcondemned) hcurrent hlive
    exact ⟨gen, hcurrent, hkept⟩
  · exact fun g b h => hv.mirrored g b (hgain (g, b) h)
  · intro hc
    rcases h : applyAll v.pending none with - | x
    · exact h
    · exact absurd ((hv.gone hc).symm.trans (hgain x h)) (by simp)

theorem loseTo (hv : v.Inv) : View.Inv { v with current := none, lost := True } :=
  ⟨by simp, hv.source_lt, by simp, by simp, fun _ _ hlost => absurd trivial hlost,
    hv.mirrored, hv.gone⟩

theorem renew (hv : v.Inv) {gen fresh : ℕ} (hcurrent : v.current = none)
    (hgen : v.fresh ≤ gen) (hfresh : gen < fresh) :
    View.Inv { v with current := some gen, fresh := fresh } := by
  have hnew : ∀ g, v.Source g → some gen ≠ some g := by
    rintro g hg heq
    obtain rfl := Option.some.inj heq
    exact absurd (hv.source_lt gen hg) (Nat.not_lt.mpr hgen)
  refine ⟨?_, ?_, fun _ => hnew, fun _ g b hslot => hnew g (Or.inl ⟨b, hslot⟩), ?_,
    hv.mirrored, hv.gone⟩
  · intro g hg
    obtain rfl := Option.some.inj hg
    exact hfresh
  · exact fun g hg =>
      Nat.lt_of_lt_of_le (hv.source_lt g hg) (Nat.le_of_lt (Nat.lt_of_le_of_lt hgen hfresh))
  · intro b hb hlost hc
    obtain ⟨g, hg, -⟩ := hv.live b hb hlost hc
    exact absurd (hcurrent.symm.trans hg) (by simp)

theorem age (hv : v.Inv) {fresh : ℕ} (hfresh : v.fresh ≤ fresh) :
    View.Inv { v with fresh := fresh } :=
  ⟨fun g hg => Nat.lt_of_lt_of_le (hv.current_lt g hg) hfresh,
    fun g hg => Nat.lt_of_lt_of_le (hv.source_lt g hg) hfresh, hv.stale, hv.condemned, hv.live,
    hv.mirrored, hv.gone⟩

end View.Inv

theorem Step.inv {v v' : View β} (h : Step v v') (hv : v.Inv) : v'.Inv := by
  cases h with
  | take gen value hcurrent hclosing => exact hv.take value hcurrent hclosing
  | modify old value hrecord hclosing => exact hv.modify value hrecord hclosing
  | unset => exact hv.unset
  | close cmds hcmds => exact hv.close hcmds
  | forget hclosing => exact hv.forget hclosing
  | consume cmd rest hpending hcondemned => exact hv.consume hpending hcondemned
  | notice hgone => exact { hv with condemned := fun _ => hgone }
  | drop hcondemned => exact hv.drop hcondemned
  | loseTo => exact hv.loseTo
  | renew gen fresh hcurrent hgen hfresh => exact hv.renew hcurrent hgen hfresh
  | age fresh hfresh => exact hv.age hfresh

/-- One step, or none. -/
theorem inv_of_reflGen {v v' : View β} (h : Relation.ReflGen Step v v') (hv : v.Inv) :
    v'.Inv := by
  cases h with
  | refl => exact hv
  | single h => exact h.inv hv

/-- Any number of steps. -/
theorem inv_of_reflTransGen {v v' : View β} (h : Relation.ReflTransGen Step v v')
    (hv : v.Inv) : v'.Inv := by
  induction h with
  | refl => exact hv
  | tail _ hstep ih => exact hstep.inv ih

/-- With no command on its way, a record is served by the current generation
exactly if none was lost. -/
theorem View.Inv.served_iff {v : View β} (hv : v.Inv) (hpending : v.pending = [])
    {value : β} (hrecord : v.record = some value) :
    (∃ gen, v.current = some gen ∧ v.slot = some (gen, value)) ↔ ¬ (v.lost ∨ v.closing) := by
  have heff : v.effective = v.slot := by simp [View.effective, hpending]
  constructor
  · rintro ⟨gen, hcurrent, hslot⟩ hbad
    exact hv.stale hbad gen (Or.inl ⟨value, hslot⟩) hcurrent
  · intro hgood
    obtain ⟨hlost, hclosing⟩ := not_or.mp hgood
    obtain ⟨gen, hcurrent, hlive⟩ := hv.live value hrecord hlost hclosing
    exact ⟨gen, hcurrent, heff ▸ hlive⟩

end Mirror

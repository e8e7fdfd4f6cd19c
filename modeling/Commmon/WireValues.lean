/-
# Values at the other end

A value is written with the keys of its objects in order and read again by another
program. Where the keys of an object are distinct and the integers are of sixty-four
bits, as in every value that the JSON library builds, the other program has a value that
looks the same under every key and is written the same. Floating point numbers are left
out, since how they are read back is not decided here.
-/

import Commmon.ReplRequests

set_option autoImplicit false

namespace Commmon

section

variable (showFloat : Rat → NumLit) (readFloat : NumLit → Rat)

/-- The value as it is read. -/
def Value.sent (v : Value) : Value := .ofJson readFloat (v.toJson showFloat)

end

def Number.Whole : Number → Prop
  | .posInt n => n < UInt64.size
  | .negInt i => -(2 ^ 63) ≤ i ∧ i < 0
  | .float _ => False

mutual

/-- The keys of an object are distinct, and the numbers integers. -/
def Value.Faithful : Value → Prop
  | .null | .bool _ | .string _ => True
  | .number n => n.Whole
  | .array xs => ElementsFaithful xs
  | .object fields => (fields.map Prod.fst).Nodup ∧ FieldsFaithful fields
termination_by structural v => v

def ElementsFaithful : List Value → Prop
  | [] => True
  | v :: vs => v.Faithful ∧ ElementsFaithful vs
termination_by structural vs => vs

def FieldsFaithful : List (String × Value) → Prop
  | [] => True
  | (_, v) :: fs => v.Faithful ∧ FieldsFaithful fs
termination_by structural fs => fs

end

private theorem elementsFaithful_iff {vs : List Value} :
    ElementsFaithful vs ↔ ∀ v ∈ vs, v.Faithful := by
  induction vs with
  | nil => simp [ElementsFaithful]
  | cons v vs ih => simp [ElementsFaithful, ih]

private theorem fieldsFaithful_iff {fields : List (String × Value)} :
    FieldsFaithful fields ↔ ∀ f ∈ fields, f.2.Faithful := by
  induction fields with
  | nil => simp [FieldsFaithful]
  | cons f fields ih => simp [FieldsFaithful, ih]

theorem Value.faithful_array {xs : List Value} :
    (Value.array xs).Faithful ↔ ∀ v ∈ xs, v.Faithful := by
  rw [Value.Faithful, elementsFaithful_iff]

theorem Value.faithful_object {fields : List (String × Value)} :
    (Value.object fields).Faithful ↔
      (fields.map Prod.fst).Nodup ∧ ∀ f ∈ fields, f.2.Faithful := by
  rw [Value.Faithful, fieldsFaithful_iff]

section

variable (showFloat : Rat → NumLit) (readFloat : NumLit → Rat)

private theorem elementsToJson_eq (xs : List Value) :
    elementsToJson showFloat xs = xs.map fun v => v.toJson showFloat := by
  induction xs with
  | nil => rfl
  | cons v xs ih => exact congrArg (_ :: ·) ih

theorem elementsOfJson_eq (xs : List Json) :
    elementsOfJson readFloat xs = xs.map (Value.ofJson readFloat) := by
  induction xs with
  | nil => rfl
  | cons v xs ih => exact congrArg (_ :: ·) ih

@[simp]
theorem Value.sent_null : Value.sent showFloat readFloat .null = .null := rfl

@[simp]
theorem Value.sent_bool (b : Bool) : Value.sent showFloat readFloat (.bool b) = .bool b := rfl

@[simp]
theorem Value.sent_string (s : String) :
    Value.sent showFloat readFloat (.string s) = .string s := rfl

@[simp]
theorem Value.sent_array (xs : List Value) :
    Value.sent showFloat readFloat (.array xs) = .array (xs.map (sent showFloat readFloat)) := by
  simp only [sent, toJson, ofJson, elementsToJson_eq, elementsOfJson_eq, List.map_map]
  rfl

private theorem Number.ofLit_lit {n : Number} (h : n.Whole) :
    Number.ofLit readFloat (n.lit showFloat) = n := by
  cases n with
  | posInt n => exact Number.ofLit_ofNat readFloat h
  | negInt i =>
      obtain ⟨hlow, hneg⟩ := h
      obtain ⟨k, rfl⟩ : ∃ k, i = Int.negSucc k := ⟨(-i - 1).toNat, by omega⟩
      have hvalue : Json.natOf (Nat.toDigits 10 (k + 1)) = k + 1 := Nat.ofDigitChars_ten_toDigits
      have hdigits : (Nat.toDigits 10 (k + 1)).all Char.isDigit = true :=
        List.all_eq_true.mpr fun c hc => Nat.isDigit_of_mem_toDigits (by decide) (by decide) hc
      change (if (Nat.toDigits 10 (k + 1)).all Char.isDigit = true ∧
        0 < Json.natOf (Nat.toDigits 10 (k + 1)) ∧
        Json.natOf (Nat.toDigits 10 (k + 1)) ≤ 2 ^ 63 then _ else _) = _
      rw [if_pos ⟨hdigits, by omega, by omega⟩, hvalue]
      rfl
  | float x => exact h.elim

theorem Value.sent_number {n : Number} (h : n.Whole) :
    Value.sent showFloat readFloat (.number n) = .number n :=
  congrArg Value.number (Number.ofLit_lit showFloat readFloat h)

/-- The fields of an object, as they are read: the same, in another order. -/
theorem Value.sent_object (fields : List (String × Value)) :
    ∃ fields', Value.sent showFloat readFloat (.object fields) = .object fields' ∧
      fields'.Perm (fields.map fun f => (f.1, f.2.sent showFloat readFloat)) := by
  refine ⟨_, rfl, (List.reverse_perm _).trans ?_⟩
  rw [fieldsOfJson_eq, fieldsToJson_eq]
  refine ((List.perm_insertionSort _ _).map _).trans (List.Perm.of_eq ?_)
  rw [List.map_map]
  rfl

theorem lookup_map_snd {α β : Type} (f : α → β) (l : List (String × α)) (key : String) :
    (l.map fun x => (x.1, f x.2)).lookup key = (l.lookup key).map f := by
  induction l with
  | nil => rfl
  | cons x l ih =>
      obtain ⟨k, a⟩ := x
      by_cases hk : key = k
      · simp [hk]
      · simp [List.lookup_cons, beq_false_of_ne hk, ih]

variable {showFloat readFloat}

/-- Under every key the value that is read has what the value has. -/
theorem Value.Faithful.get_sent {v : Value} (h : v.Faithful) (key : String) :
    (v.sent showFloat readFloat).get key = (v.get key).map (sent showFloat readFloat) := by
  cases v with
  | object fields =>
      obtain ⟨hkeys, -⟩ := faithful_object.mp h
      obtain ⟨fields', hsent, hperm⟩ := sent_object showFloat readFloat fields
      have hnodup : (fields'.map Prod.fst).Nodup := by
        rw [(hperm.map _).nodup_iff, List.map_map]
        exact hkeys
      rw [hsent, get, get, lookup_eq_of_perm hperm hnodup, lookup_map_snd]
  | array xs => simp [get]
  | number n => rw [sent_number showFloat readFloat h]; rfl
  | _ => rfl

theorem Value.Faithful.of_get {v : Value} (h : v.Faithful) {key : String} {x : Value}
    (hx : v.get key = some x) : x.Faithful := by
  cases v with
  | object fields =>
      obtain ⟨hkeys, hfields⟩ := faithful_object.mp h
      exact hfields _ ((lookup_eq_some_iff_mem hkeys).mp hx)
  | _ => cases hx

private theorem Value.asStr_sent (v : Value) : (v.sent showFloat readFloat).asStr = v.asStr := by
  cases v with
  | array xs => simp [asStr]
  | _ => rfl

theorem Value.asBool_sent (v : Value) : (v.sent showFloat readFloat).asBool = v.asBool := by
  cases v with
  | array xs => simp [asBool]
  | _ => rfl

theorem Value.Faithful.asU64_sent {v : Value} (h : v.Faithful) :
    (v.sent showFloat readFloat).asU64 = v.asU64 := by
  cases v with
  | number n => rw [sent_number showFloat readFloat h]
  | array xs => simp [asU64]
  | _ => rfl

theorem Value.Faithful.strArg_sent {v : Value} (h : v.Faithful) (key : String) :
    (v.sent showFloat readFloat).strArg key = v.strArg key := by
  rw [strArg, strArg, h.get_sent]
  cases v.get key with
  | none => rfl
  | some x => exact x.asStr_sent

end

section

variable (showFloat : Rat → NumLit) (readFloat : NumLit → Rat)

/-- Sorting by distinct keys has one result. -/
theorem insertionSort_eq_of_perm {l l' : List (String × Json)} (hperm : l.Perm l')
    (hkeys : (l.map Prod.fst).Nodup) :
    l.insertionSort (fun f g => f.1 ≤ g.1) = l'.insertionSort (fun f g => f.1 ≤ g.1) := by
  have htotal : Std.Total (fun f g : String × Json => f.1 ≤ g.1) :=
    ⟨fun f g => String.le_total f.1 g.1⟩
  have htrans : IsTrans (String × Json) (fun f g => f.1 ≤ g.1) := ⟨fun _ _ _ => String.le_trans⟩
  have hsame : (l.insertionSort fun f g => f.1 ≤ g.1).Perm
      (l'.insertionSort fun f g => f.1 ≤ g.1) :=
    (List.perm_insertionSort _ l).trans (hperm.trans (List.perm_insertionSort _ l').symm)
  refine List.Perm.eq_of_pairwise ?_ (List.pairwise_insertionSort _ l)
    (List.pairwise_insertionSort _ l') hsame
  intro f g hf hg hfg hgf
  rw [List.mem_insertionSort] at hf
  rw [List.mem_insertionSort, ← hperm.mem_iff] at hg
  exact List.inj_on_of_nodup_map hkeys hf hg (String.le_antisymm hfg hgf)

mutual

/-- A value that has been read is written as it was. -/
theorem Value.Faithful.toJson_sent : ∀ {v : Value}, v.Faithful →
    (v.sent showFloat readFloat).toJson showFloat = v.toJson showFloat
  | .null, _ | .bool _, _ | .string _, _ => rfl
  | .number n, h => by rw [Value.sent_number showFloat readFloat h]
  | .array xs, h => by
      have helements := elements_toJson_sent h
      rw [Value.sent_array, Value.toJson, Value.toJson, helements]
  | .object fields, h => by
      have hfields := fields_toJson_sent h.2
      obtain ⟨fields', hsent, hperm⟩ := Value.sent_object showFloat readFloat fields
      rw [hsent, Value.toJson, Value.toJson]
      refine congrArg Json.obj (insertionSort_eq_of_perm ?_ ?_)
      · rw [fieldsToJson_eq, ← hfields, fieldsToJson_eq]
        exact hperm.map _
      · rw [fieldsToJson_eq, List.map_map]
        have hkeys : (fields'.map Prod.fst).Nodup := by
          rw [(hperm.map _).nodup_iff, List.map_map]
          exact h.1
        exact hkeys

private theorem elements_toJson_sent : ∀ {xs : List Value}, ElementsFaithful xs →
    elementsToJson showFloat (xs.map (Value.sent showFloat readFloat)) =
      elementsToJson showFloat xs
  | [], _ => rfl
  | v :: vs, h => by
      rw [List.map_cons, elementsToJson, elementsToJson, h.1.toJson_sent,
        elements_toJson_sent h.2]

private theorem fields_toJson_sent : ∀ {fields : List (String × Value)}, FieldsFaithful fields →
    fieldsToJson showFloat (fields.map fun f => (f.1, f.2.sent showFloat readFloat)) =
      fieldsToJson showFloat fields
  | [], _ => rfl
  | (k, v) :: fs, h => by
      rw [List.map_cons, fieldsToJson, fieldsToJson, h.1.toJson_sent, fields_toJson_sent h.2]

end

end

end Commmon

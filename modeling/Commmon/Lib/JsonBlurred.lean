/-
# What garbling leaves of a value

Where the text of a value is garbled it is still read, as a value with the same shape:
nothing but the strings in it can differ, and in them only what is beyond ASCII. So a
reader that looks at keys and words of ASCII finds the same under each of them.
-/

import Commmon.Lib.JsonGarbled

set_option autoImplicit false

namespace Utf8Lossy.Garbled

/-- What reads as ASCII has not been garbled. -/
theorem eq_of_ascii_right {cs ds : List Char} (h : Garbled cs ds)
    (hds : ∀ c ∈ ds, c.toNat < 0x80) : cs = ds := by
  induction h with
  | nil => rfl
  | keep c h ih => rw [ih fun d hd => hds d (List.mem_cons_of_mem c hd)]
  | cut c n hc hn h ih =>
      have hmem : replacement ∈ List.replicate n replacement :=
        List.mem_replicate.mpr ⟨by omega, rfl⟩
      exact absurd (hds replacement (List.mem_append_left _ hmem)) (by decide)

theorem append {cs cs' ds ds' : List Char} (h : Garbled cs ds) (h' : Garbled cs' ds') :
    Garbled (cs ++ cs') (ds ++ ds') := by
  induction h with
  | nil => exact h'
  | keep c h ih => exact .keep c ih
  | cut c n hc hn h ih =>
      rw [List.append_assoc]
      exact .cut c n hc hn ih

end Utf8Lossy.Garbled

namespace Json

open Utf8Lossy (Garbled replacement)

instance : DecidablePred Ascii := fun cs => List.decidableBAll _ cs

mutual

/-- The same value, but for garbled text in its strings. -/
inductive Blurred : Json → Json → Prop
  | null : Blurred .null .null
  | bool (b : Bool) : Blurred (.bool b) (.bool b)
  | num (n : NumLit) : Blurred (.num n) (.num n)
  | str {s s' : String} (h : Garbled s.toList s'.toList) : Blurred (.str s) (.str s')
  | arr {vs vs' : List Json} (h : ElementsBlurred vs vs') : Blurred (.arr vs) (.arr vs')
  | obj {fs fs' : List (String × Json)} (h : FieldsBlurred fs fs') : Blurred (.obj fs) (.obj fs')

inductive ElementsBlurred : List Json → List Json → Prop
  | nil : ElementsBlurred [] []
  | cons {v v' : Json} {vs vs' : List Json} (hv : Blurred v v') (h : ElementsBlurred vs vs') :
      ElementsBlurred (v :: vs) (v' :: vs')

inductive FieldsBlurred : List (String × Json) → List (String × Json) → Prop
  | nil : FieldsBlurred [] []
  | cons {k k' : String} {v v' : Json} {fs fs' : List (String × Json)}
      (hk : Garbled k.toList k'.toList) (hv : Blurred v v') (h : FieldsBlurred fs fs') :
      FieldsBlurred ((k, v) :: fs) ((k', v') :: fs')

end

mutual

/-- What is not garbled is the same. -/
theorem Blurred.refl : ∀ v : Json, Blurred v v
  | .null => .null
  | .bool b => .bool b
  | .num n => .num n
  | .str _ => .str (.refl _)
  | .arr vs => .arr (elementsBlurred_refl vs)
  | .obj fs => .obj (fieldsBlurred_refl fs)
termination_by structural v => v

private theorem elementsBlurred_refl : ∀ vs : List Json, ElementsBlurred vs vs
  | [] => .nil
  | v :: vs => .cons (Blurred.refl v) (elementsBlurred_refl vs)
termination_by structural vs => vs

private theorem fieldsBlurred_refl : ∀ fs : List (String × Json), FieldsBlurred fs fs
  | [] => .nil
  | (_, v) :: fs => .cons (.refl _) (Blurred.refl v) (fieldsBlurred_refl fs)
termination_by structural fs => fs

end

private theorem garbled_of_escape {c : Char} {ds : List Char} (h : Garbled (escape c) ds) :
    ∃ cs : List Char, ds = cs.flatMap escape ∧ Garbled [c] cs := by
  by_cases hc : c.toNat < 0x80
  · exact ⟨[c], by rw [h.eq_of_ascii (ascii_escape hc)]; simp, .refl _⟩
  · rw [escape_of_beyond (Nat.not_lt.mp hc)] at h
    cases h with
    | keep c h =>
        cases h
        exact ⟨[c], by simp [escape_of_beyond (Nat.not_lt.mp hc)], .refl _⟩
    | cut c n hcut hn h =>
        cases h
        have hescape : escape replacement = [replacement] := by decide
        refine ⟨List.replicate n replacement, ?_, ?_⟩
        · clear hn
          rw [List.append_nil]
          induction n with
          | zero => rfl
          | succ n ih => rw [List.replicate_succ, List.flatMap_cons, ← ih, hescape]; rfl
        · simpa using Garbled.cut c n hcut hn .nil

private theorem garbled_of_escapes {cs ds : List Char} (h : Garbled (cs.flatMap escape) ds) :
    ∃ cs' : List Char, ds = cs'.flatMap escape ∧ Garbled cs cs' := by
  induction cs generalizing ds with
  | nil =>
      cases h
      exact ⟨[], rfl, .nil⟩
  | cons c cs ih =>
      obtain ⟨ds₁, ds₂, rfl, h₁, h₂⟩ := h.append_inv
      obtain ⟨cs₁, rfl, hc⟩ := garbled_of_escape h₁
      obtain ⟨cs₂, rfl, hcs⟩ := ih h₂
      exact ⟨cs₁ ++ cs₂, List.flatMap_append.symm, hc.append hcs⟩

private theorem garbled_of_printString {s : String} {ds : List Char}
    (h : Garbled (printString s) ds) :
    ∃ s' : String, ds = printString s' ∧ Garbled s.toList s'.toList := by
  obtain ⟨ds, rfl, hrest⟩ := h.cons_ascii (by decide)
  obtain ⟨ds, rfl, hmiddle⟩ := garbled_concat (c := '"') (by decide) hrest
  obtain ⟨cs, rfl, hcs⟩ := garbled_of_escapes hmiddle
  refine ⟨String.ofList cs, by rw [printString, String.toList_ofList], ?_⟩
  rwa [String.toList_ofList]

mutual

/-- A garbled text is read as a value of the same shape. -/
theorem blurred_print : ∀ (v : Json) {ds : List Char}, Garbled (print v) ds →
    ∃ v', ds = print v' ∧ Blurred v v'
  | null, _, h => ⟨null, h.eq_of_ascii (by simp [print]), .null⟩
  | bool true, _, h => ⟨bool true, h.eq_of_ascii (by simp [print]), .bool true⟩
  | bool false, _, h => ⟨bool false, h.eq_of_ascii (by simp [print]), .bool false⟩
  | num n, _, h => ⟨num n, h.eq_of_ascii (ascii_text n), .num n⟩
  | str s, _, h => by
      obtain ⟨s', rfl, hs⟩ := garbled_of_printString h
      exact ⟨str s', rfl, .str hs⟩
  | arr vs, _, h => by
      obtain ⟨ds, rfl, hmiddle⟩ := garbled_between (by decide) (by decide) h
      obtain ⟨vs', rfl, hvs⟩ := blurred_printElements vs hmiddle
      exact ⟨arr vs', rfl, .arr hvs⟩
  | obj fs, _, h => by
      obtain ⟨ds, rfl, hmiddle⟩ := garbled_between (by decide) (by decide) h
      obtain ⟨fs', rfl, hfs⟩ := blurred_printFields fs hmiddle
      exact ⟨obj fs', rfl, .obj hfs⟩

private theorem blurred_printElements : ∀ (vs : List Json) {ds : List Char},
    Garbled (printElements vs) ds → ∃ vs', ds = printElements vs' ∧ ElementsBlurred vs vs'
  | [], _, h => ⟨[], h.eq_of_ascii (by simp [printElements]), .nil⟩
  | [v], _, h => by
      obtain ⟨v', rfl, hv⟩ := blurred_print v h
      exact ⟨[v'], rfl, .cons hv .nil⟩
  | v :: w :: vs, _, h => by
      obtain ⟨ds₁, ds₂, rfl, h₁, h₂⟩ := h.append_inv
      obtain ⟨ds₂, rfl, hrest⟩ := h₂.cons_ascii (by decide)
      obtain ⟨v', rfl, hv⟩ := blurred_print v h₁
      obtain ⟨ws', rfl, hws⟩ := blurred_printElements (w :: vs) hrest
      refine ⟨v' :: ws', ?_, .cons hv hws⟩
      cases hws
      rfl

private theorem blurred_printFields : ∀ (fs : List (String × Json)) {ds : List Char},
    Garbled (printFields fs) ds → ∃ fs', ds = printFields fs' ∧ FieldsBlurred fs fs'
  | [], _, h => ⟨[], h.eq_of_ascii (by simp [printFields]), .nil⟩
  | [(k, v)], _, h => by
      obtain ⟨ds₁, ds₂, rfl, h₁, h₂⟩ := h.append_inv
      obtain ⟨ds₂, rfl, hvalue⟩ := h₂.cons_ascii (by decide)
      obtain ⟨k', rfl, hk⟩ := garbled_of_printString h₁
      obtain ⟨v', rfl, hv⟩ := blurred_print v hvalue
      exact ⟨[(k', v')], rfl, .cons hk hv .nil⟩
  | (k, v) :: f :: fs, _, h => by
      obtain ⟨ds₁, ds₂, rfl, h₁, h₂⟩ := h.append_inv
      obtain ⟨ds₂, rfl, hafter⟩ := h₂.cons_ascii (by decide)
      obtain ⟨ds₂, ds₃, rfl, hvalue, h₃⟩ := hafter.append_inv
      obtain ⟨ds₃, rfl, hrest⟩ := h₃.cons_ascii (by decide)
      obtain ⟨k', rfl, hk⟩ := garbled_of_printString h₁
      obtain ⟨v', rfl, hv⟩ := blurred_print v hvalue
      obtain ⟨gs', rfl, hgs⟩ := blurred_printFields (f :: fs) hrest
      refine ⟨(k', v') :: gs', ?_, .cons hk hv hgs⟩
      cases hgs
      rfl

end

/-- A word of ASCII is found exactly where it was. -/
theorem eq_iff_of_garbled {s s' word : String} (h : Garbled s.toList s'.toList)
    (hword : Ascii word.toList) : s' = word ↔ s = word := by
  constructor
  · rintro rfl
    exact String.toList_inj.mp (h.eq_of_ascii_right hword)
  · rintro rfl
    exact String.toList_inj.mp (h.eq_of_ascii hword)

/-- Under a key of ASCII there is the same, blurred. -/
theorem FieldsBlurred.lookup {fs fs' : List (String × Json)} (h : FieldsBlurred fs fs')
    {key : String} (hkey : Ascii key.toList) :
    Option.Rel Blurred (fs.lookup key) (fs'.lookup key) := by
  induction fs generalizing fs' with
  | nil =>
      cases h
      exact .none
  | cons f fs ih =>
      cases h with
      | cons hk hv h =>
          rename_i k k' v v' fs'
          by_cases heq : k = key
          · have heq' := (eq_iff_of_garbled hk hkey).mpr heq
            subst heq heq'
            simpa using Option.Rel.some hv
          · have hne : k' ≠ key := fun h => heq ((eq_iff_of_garbled hk hkey).mp h)
            rw [List.lookup_cons, List.lookup_cons, beq_false_of_ne (Ne.symm heq),
              beq_false_of_ne (Ne.symm hne)]
            exact ih h

theorem FieldsBlurred.append {fs fs' gs gs' : List (String × Json)} (h : FieldsBlurred fs fs')
    (h' : FieldsBlurred gs gs') : FieldsBlurred (fs ++ gs) (fs' ++ gs') := by
  induction fs generalizing fs' with
  | nil =>
      cases h
      exact h'
  | cons f fs ih =>
      cases h with
      | cons hk hv h => exact .cons hk hv (ih h)

theorem FieldsBlurred.reverse {fs fs' : List (String × Json)} (h : FieldsBlurred fs fs') :
    FieldsBlurred fs.reverse fs'.reverse := by
  induction fs generalizing fs' with
  | nil =>
      cases h
      exact .nil
  | cons f fs ih =>
      cases h with
      | cons hk hv h =>
          rw [List.reverse_cons, List.reverse_cons]
          exact (ih h).append (.cons hk hv .nil)

theorem Blurred.get {v v' : Json} (h : Blurred v v') {key : String} (hkey : Ascii key.toList) :
    Option.Rel Blurred (v.get key) (v'.get key) := by
  cases h with
  | obj h => exact h.reverse.lookup hkey
  | _ => exact .none

theorem Blurred.exists_obj {fields : List (String × Json)} {v : Json}
    (h : Blurred (.obj fields) v) : ∃ fields', v = .obj fields' := by
  cases h
  exact ⟨_, rfl⟩

end Json

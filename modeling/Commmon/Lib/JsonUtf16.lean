/-
# Strings of code units in JSON

A printer whose strings are code units writes a surrogate that stands alone as an
escape. No reader whose strings are text takes such an escape for a character, so that
a text with one in it is not read at all, wherever in an object it stands.
-/

import Commmon.Lib.JsonEscapes
import Commmon.Lib.Utf16

set_option autoImplicit false

namespace Json

open Utf16 (Point points IsText isHigh isLow isSurrogate)

/-- Lower-case hexadecimal digits of a code unit. -/
def unitDigits (u : UInt16) : List Char :=
  [(u.toNat / 4096 % 16).digitChar, (u.toNat / 256 % 16).digitChar, (u.toNat / 16 % 16).digitChar,
    (u.toNat % 16).digitChar]

def pointText : Point → List Char
  | .char c => escape c
  | .lone u => '\\' :: 'u' :: unitDigits u

/-- A string of code units. -/
def printUnits (us : List UInt16) : List Char := '"' :: ((points us).flatMap pointText ++ ['"'])

theorem printUnits_encode (s : String) : printUnits (Utf16.encode s.toList) = printString s := by
  rw [printUnits, Utf16.points_encode, List.flatMap_map]
  rfl

private theorem readHex_unitDigits (u : UInt16) (rest : List Char) :
    readHex (unitDigits u ++ rest) = some (u.toNat, rest) := by
  have hvalue : ∀ m, hexValue (m % 16).digitChar = some (m % 16) :=
    fun m => hexValue_digitChar _ (Nat.mod_lt _ (by decide))
  have hlt : u.toNat < 2 ^ 16 := u.toNat_lt
  have hsum : u.toNat / 4096 % 16 * 4096 + u.toNat / 256 % 16 * 256 + u.toNat / 16 % 16 * 16 +
      u.toNat % 16 = u.toNat := by omega
  simp [unitDigits, readHex, hvalue, hsum]

/-- What a high surrogate is followed by, if it is read as a character. -/
theorem readUnicode_high {u : UInt16} (hu : isHigh u = true) {rest : List Char}
    (h : ∀ low tail, rest = '\\' :: 'u' :: tail → (readHex tail).map Prod.fst = some low →
      ¬ (0xDC00 ≤ low ∧ low < 0xE000)) : readUnicode (unitDigits u ++ rest) = none := by
  have hrange : 0xD800 ≤ u.toNat ∧ u.toNat < 0xDC00 := by simpa [isHigh] using hu
  simp only [readUnicode, readHex_unitDigits, if_pos hrange]
  split
  · rename_i tail
    split
    · rename_i low after hread
      exact if_neg (h low tail rfl (by rw [hread, Option.map_some]))
    · rfl
  · rfl

/-- A character's own escape is no low surrogate. -/
theorem not_low_of_escape {c : Char} {rest tail : List Char} {low : ℕ}
    (h : escape c ++ rest = '\\' :: 'u' :: tail) (hread : (readHex tail).map Prod.fst = some low) :
    low < 0x20 := by
  unfold escape at h
  split at h
  · rename_i e hlookup
    have hall : ∀ p ∈ shortEscapes, p.2 ≠ 'u' := by decide
    have hne := hall (c, e) (List.lookup_eq_some_iff.mp hlookup |>.elim
      fun l h => h.elim fun r h => by rw [h.1]; simp)
    simp only [List.cons_append, List.nil_append, List.cons.injEq, true_and] at h
    exact absurd h.1 hne
  · rename_i hlookup
    split at h
    · rename_i hcontrol
      have hvalue : c.toNat / 16 * 16 + c.toNat % 16 = c.toNat := by omega
      have hzero : hexValue '0' = some 0 := by decide
      have hhigh := hexValue_digitChar (c.toNat / 16) (by omega)
      have hlow := hexValue_digitChar (c.toNat % 16) (by omega)
      simp only [List.cons_append, List.nil_append, List.cons.injEq, true_and] at h
      rw [← h] at hread
      simp only [readHex, hzero, hhigh, hlow, Option.bind_eq_bind, Option.bind_some,
        Option.map_some, Option.some.injEq] at hread
      omega
    · rename_i hplain
      obtain ⟨-, hslash⟩ := escape_of_lookup_none hlookup
      rw [List.singleton_append, List.cons.injEq] at h
      exact absurd h.1 hslash

private theorem readChar_lone {u : UInt16} {ps : List Point} (hu : isSurrogate u = true)
    (hchain : (Point.lone u :: ps).IsChain fun p q => ¬ p.Paired q)
    (hps : ∀ v, .lone v ∈ ps → isSurrogate v = true) (rest : List Char) :
    readChar (pointText (.lone u) ++ (ps.flatMap pointText ++ '"' :: rest)) = none := by
  have hunicode : readUnicode (unitDigits u ++ (ps.flatMap pointText ++ '"' :: rest)) = none := by
    obtain hhigh | hlow := Bool.or_eq_true_iff.mp hu
    · refine readUnicode_high hhigh fun low tail htail hread hrange => ?_
      cases ps with
      | nil => exact absurd htail (by simp)
      | cons p ps =>
          rw [List.flatMap_cons, List.append_assoc] at htail
          cases p with
          | char c =>
              have hsmall := not_low_of_escape htail hread
              omega
          | lone v =>
              have hpaired := (List.isChain_cons_cons.mp hchain).1
              simp only [pointText, List.cons_append, List.cons.injEq, true_and] at htail
              rw [← htail, readHex_unitDigits, Option.map_some, Option.some.injEq] at hread
              rw [← hread] at hrange
              exact hpaired ⟨hhigh, by simpa [isLow] using hrange⟩
    · have hrange : 0xDC00 ≤ u.toNat ∧ u.toNat < 0xE000 := by simpa [isLow] using hlow
      have hnot : ¬ (0xD800 ≤ u.toNat ∧ u.toNat < 0xDC00) := by omega
      simp only [readUnicode, readHex_unitDigits, if_neg hnot, if_pos hrange]
  rw [pointText, List.cons_append, List.cons_append, readChar_unicode, hunicode]
  rfl

theorem readString_points {ps : List Point} (hchain : ps.IsChain fun p q => ¬ p.Paired q)
    (hps : ∀ v, .lone v ∈ ps → isSurrogate v = true) (hlone : ∃ u, .lone u ∈ ps) :
    ∀ (fuel : ℕ) (rest : List Char),
      readString fuel (ps.flatMap pointText ++ '"' :: rest) = none := by
  induction ps with
  | nil =>
      obtain ⟨u, hu⟩ := hlone
      exact absurd hu List.not_mem_nil
  | cons p ps ih =>
      have hlater : ∀ v, .lone v ∈ ps → isSurrogate v = true :=
        fun v hv => hps v (List.mem_cons_of_mem _ hv)
      intro fuel rest
      cases fuel with
      | zero => rfl
      | succ fuel =>
          rw [List.flatMap_cons, List.append_assoc, readString]
          cases p with
          | char c =>
              obtain ⟨u, hu⟩ := hlone
              have hu : .lone u ∈ ps := (List.mem_cons.mp hu).resolve_left (by simp)
              rw [pointText, readChar_escape]
              dsimp only
              rw [ih hchain.of_cons hlater ⟨u, hu⟩, Option.map_none]
          | lone u => rw [readChar_lone (hps u List.mem_cons_self) hchain hlater]

/-- No value is read from the text, with whatever fuel it takes. -/
def Unreadable (text : List Char) : Prop :=
  ∀ (fuel : ℕ) (rest : List Char), (text ++ rest).length ≤ fuel →
    readValue fuel (text ++ rest) = none

theorem Unreadable.parse {text : List Char} (h : Unreadable text) : parse text = none := by
  have hread := h (text.length + 1) [] (by simp)
  rw [List.append_nil] at hread
  rw [Json.parse, hread]

theorem unreadable_printUnits {us : List UInt16} (h : ¬ IsText us) :
    Unreadable (printUnits us) := by
  have hlone : ∃ u, .lone u ∈ points us := by
    by_contra hnone
    refine h fun p hp => ?_
    cases p with
    | char c => exact ⟨c, rfl⟩
    | lone u => exact absurd ⟨u, hp⟩ hnone
  intro fuel rest _
  have hstring := readString_points (Utf16.isChain_points us)
    (fun _ => Utf16.isSurrogate_of_mem_points) hlone
  cases fuel with
  | zero => rfl
  | succ fuel => simp [printUnits, readValue, skipSpace, isSpace, hstring]

/-- The fields of an object, with their values as texts. -/
def textFields : List (String × List Char) → List Char
  | [] => []
  | [(k, text)] => printString k ++ ':' :: text
  | (k, text) :: f :: fs => printString k ++ ':' :: (text ++ ',' :: textFields (f :: fs))

/-- An object of which the values are texts. -/
def printTexts (fields : List (String × List Char)) : List Char :=
  '{' :: (textFields fields ++ ['}'])

theorem textFields_print (fields : List (String × Json)) :
    textFields (fields.map fun f => (f.1, print f.2)) = printFields fields := by
  induction fields with
  | nil => rfl
  | cons f fields ih =>
      cases fields with
      | nil => rfl
      | cons g fields =>
          rw [printFields, ← ih]
          rfl

theorem printTexts_print (fields : List (String × Json)) :
    printTexts (fields.map fun f => (f.1, print f.2)) = print (.obj fields) := by
  rw [printTexts, textFields_print, print]

/-- A key is read. -/
private theorem readString_key {fuel : ℕ} {key : String} (hfuel : (printString key).length ≤ fuel)
    (rest : List Char) :
    readString fuel (key.toList.flatMap escape ++ '"' :: rest) = some (key.toList, rest) := by
  have hlength : key.toList.length + 2 ≤ (printString key).length :=
    length_printString_le compact key
  exact readString_printed compact key.toList rest fuel (by omega)

private theorem readFields_key {fuel : ℕ} (key : String) {text : List Char}
    (hfuel : (printString key).length ≤ fuel) (hvalue : readValue fuel text = none) :
    readFields (fuel + 1) (printString key ++ ':' :: text) = none := by
  simp [printString, readFields, expect_cons (c := '"') (by decide), readString_key hfuel,
    expect_cons (c := ':') (by decide), hvalue]

/-- Where the first value cannot be read, neither can the fields. -/
private theorem readFields_unreadable (key : String) {text : List Char} (h : Unreadable text)
    (rest : List Char) : ∀ fuel, (printString key ++ ':' :: (text ++ rest)).length ≤ fuel →
      readFields fuel (printString key ++ ':' :: (text ++ rest)) = none := by
  intro fuel hfuel
  cases fuel with
  | zero => rfl
  | succ fuel =>
      simp only [List.length_append, List.length_cons] at hfuel
      refine readFields_key key (by omega) (h fuel rest ?_)
      rw [List.length_append]
      omega

/-- A value that is read is passed over. -/
private theorem readFields_comma (key : String) (v : Json) {rest : List Char}
    (hrest : ∀ fuel, rest.length ≤ fuel → readFields fuel rest = none) :
    ∀ fuel, (printString key ++ ':' :: (print v ++ ',' :: rest)).length ≤ fuel →
      readFields fuel (printString key ++ ':' :: (print v ++ ',' :: rest)) = none := by
  intro fuel hfuel
  cases fuel with
  | zero => rfl
  | succ fuel =>
      simp only [List.length_append, List.length_cons] at hfuel
      have hkey := readString_key (by omega : (printString key).length ≤ fuel)
      have hvalue := readValue_printWith compact v 0 fuel (',' :: rest)
        (by rw [← print_eq_printWith]; omega) (endsNumber_cons (by decide) _)
      rw [← print_eq_printWith] at hvalue
      have hlater := hrest fuel (by omega)
      simp [printString, readFields, expect_cons (c := '"') (by decide), hkey,
        expect_cons (c := ':') (by decide), hvalue, expect_cons (c := ',') (by decide), hlater]

private theorem readFields_textFields {fields : List (String × List Char)}
    (hfields : ∀ f ∈ fields, (∃ v, f.2 = print v) ∨ Unreadable f.2)
    (hbad : ∃ f ∈ fields, Unreadable f.2) (rest : List Char) :
    ∀ fuel, (textFields fields ++ rest).length ≤ fuel →
      readFields fuel (textFields fields ++ rest) = none := by
  induction fields with
  | nil =>
      obtain ⟨f, hf, -⟩ := hbad
      exact absurd hf List.not_mem_nil
  | cons f fields ih =>
      obtain ⟨key, text⟩ := f
      obtain ⟨hfirst, hothers⟩ := List.forall_mem_cons.mp hfields
      obtain ⟨tail, htail⟩ : ∃ tail, textFields ((key, text) :: fields) =
          printString key ++ ':' :: (text ++ tail) := by
        cases fields with
        | nil => exact ⟨[], by simp [textFields]⟩
        | cons g fields => exact ⟨',' :: textFields (g :: fields), rfl⟩
      by_cases hunreadable : Unreadable text
      · rw [htail]
        simpa using readFields_unreadable key hunreadable (tail ++ rest)
      · -- the first value is read, and another is not
        obtain ⟨v, rfl⟩ := hfirst.resolve_right hunreadable
        obtain ⟨g, hg, hbad⟩ := hbad
        have hg : g ∈ fields := by
          refine (List.mem_cons.mp hg).resolve_left fun heq => hunreadable ?_
          rwa [heq] at hbad
        cases fields with
        | nil => exact absurd hg List.not_mem_nil
        | cons g' fields =>
            have hlater := ih hothers ⟨g, hg, hbad⟩
            simpa [textFields] using readFields_comma key v hlater

/-- One value that cannot be read makes an object unreadable. -/
theorem unreadable_printTexts {fields : List (String × List Char)}
    (hfields : ∀ f ∈ fields, (∃ v, f.2 = print v) ∨ Unreadable f.2)
    (hbad : ∃ f ∈ fields, Unreadable f.2) : Unreadable (printTexts fields) := by
  intro fuel rest hfuel
  have hread := readFields_textFields hfields hbad ('}' :: rest)
  have hopen : ∃ tail, textFields fields = '"' :: tail := by
    obtain ⟨f, hf, -⟩ := hbad
    cases fields with
    | nil => exact absurd hf List.not_mem_nil
    | cons f fields => cases fields <;> exact ⟨_, rfl⟩
  obtain ⟨tail, htail⟩ := hopen
  have htext : printTexts fields ++ rest = '{' :: (textFields fields ++ '}' :: rest) := by
    simp [printTexts]
  rw [htext] at hfuel ⊢
  cases fuel with
  | zero => rfl
  | succ fuel =>
      have hnone := hread fuel (by simpa using hfuel)
      rw [htail, List.cons_append] at hnone ⊢
      simp [readValue, skipSpace, isSpace, hnone,
        expect_ne (c := '}') (d := '"') (by decide) (by decide)]

end Json

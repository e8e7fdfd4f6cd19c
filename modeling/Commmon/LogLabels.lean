/-
# Labels in the names of log files

A label that comes with a log request is cleaned before it becomes part of a file
name: what a file system does not take and white space become underscores, runs of
them are squeezed, those at the ends go, and what is left is cut to forty code units.
The cut comes last, and may leave an underscore at the end.

Strings are sequences of UTF-16 code units here, which need not be text.
-/

import Commmon.Lib.Words
import Mathlib.Data.Nat.Notation

set_option autoImplicit false

namespace Commmon

open Words (words squeeze Spaced)

abbrev CodeUnit := UInt16

namespace Label

def underscore : CodeUnit := 0x5F

/-- One of `\ / : * ? " < > |`. -/
def isForbidden (u : CodeUnit) : Bool :=
  u.toNat ∈ [0x5C, 0x2F, 0x3A, 0x2A, 0x3F, 0x22, 0x3C, 0x3E, 0x7C]

/-- What `\s` matches, which is what `trim` removes. -/
def isSpace (u : CodeUnit) : Bool :=
  u.toNat ∈ [0x9, 0xA, 0xB, 0xC, 0xD, 0x20, 0xA0, 0x1680, 0x2000, 0x2001, 0x2002, 0x2003, 0x2004,
    0x2005, 0x2006, 0x2007, 0x2008, 0x2009, 0x200A, 0x2028, 0x2029, 0x202F, 0x205F, 0x3000, 0xFEFF]

/-- Leave out what stands at both ends. -/
def strip (q : CodeUnit → Bool) (text : List CodeUnit) : List CodeUnit :=
  (text.dropWhile q).rdropWhile q

def replaceForbidden (text : List CodeUnit) : List CodeUnit :=
  text.map fun u => if isForbidden u then underscore else u

/-- `sanitizeLabel` before the cut. -/
def cleaned (label : List CodeUnit) : List CodeUnit :=
  let trimmed := strip isSpace label
  let replaced := squeeze isSpace underscore false (replaceForbidden trimmed)
  strip (· == underscore) (squeeze (· == underscore) underscore false replaced)

def maxLength : ℕ := 40

/-- `sanitizeLabel`. A label that is not there counts as an empty one. -/
def sanitizeLabel : Option (List CodeUnit) → List CodeUnit
  | none | some [] => []
  | some label => (cleaned label).take maxLength

/-- What a file name has as a label. -/
structure Normal (text : List CodeUnit) : Prop where
  short : text.length ≤ maxLength
  allowed : ∀ u ∈ text, isForbidden u = false ∧ isSpace u = false
  single : text.IsChain fun a b => ¬ (a = underscore ∧ b = underscore)
  front : text.head? ≠ some underscore
  back : text.getLast? ≠ some underscore
  fixed : sanitizeLabel (some text) = text

/-- What separates the words of a label. -/
def isSeparator (u : CodeUnit) : Bool := isForbidden u || isSpace u || u == underscore

private theorem isSeparator_underscore : isSeparator underscore = true := by decide

private theorem isSeparator_of_isSpace {u : CodeUnit} (h : isSpace u = true) :
    isSeparator u = true := by
  simp [isSeparator, h]

private theorem isSeparator_of_eq {u : CodeUnit} (h : (u == underscore) = true) :
    isSeparator u = true := by
  simp [isSeparator, h]

/-- The words of a label stay the same all the way. -/
theorem words_cleaned (label : List CodeUnit) :
    words isSeparator (cleaned label) = words isSeparator label := by
  have hspace : ∀ u, isSpace u = true → isSeparator u = true := fun _ => isSeparator_of_isSpace
  have hunder : ∀ u : CodeUnit, (u == underscore) = true → isSeparator u = true :=
    fun _ => isSeparator_of_eq
  have hreplace : ∀ text, words isSeparator (replaceForbidden text) = words isSeparator text := by
    intro text
    apply Words.words_map
    · intro u
      split_ifs with hu
      · exact isSeparator_underscore.trans (by simp [isSeparator, hu])
      · rfl
    · intro u hu
      rw [if_neg]
      intro h
      simp [isSeparator, h] at hu
  simp only [cleaned, strip]
  rw [Words.words_rdropWhile hunder, Words.words_dropWhile hunder,
    Words.words_squeeze hunder isSeparator_underscore,
    Words.words_squeeze hspace isSeparator_underscore, hreplace,
    Words.words_rdropWhile hspace, Words.words_dropWhile hspace]

private theorem isInfix_strip (q : CodeUnit → Bool) (text : List CodeUnit) :
    strip q text <:+: text :=
  (List.rdropWhile_prefix q _).isInfix.trans (List.dropWhile_suffix q).isInfix

private theorem head?_strip (q : CodeUnit → Bool) (text : List CodeUnit) :
    ∀ u ∈ (strip q text).head?, q u = false := by
  intro u hu
  obtain ⟨rest, hrest⟩ := List.rdropWhile_prefix q (text.dropWhile q)
  change strip q text ++ rest = _ at hrest
  cases hstrip : strip q text with
  | nil => simp [hstrip] at hu
  | cons v vs =>
      obtain rfl : v = u := by simpa [hstrip] using hu
      have hfront := List.head?_dropWhile_not q text
      rw [← hrest, hstrip] at hfront
      exact hfront

private theorem getLast?_strip (q : CodeUnit → Bool) (text : List CodeUnit) :
    ∀ u ∈ (strip q text).getLast?, q u = false := by
  intro u hu
  obtain ⟨hne, rfl⟩ := List.mem_getLast?_eq_getLast hu
  have hlast := List.rdropWhile_last_not q (text.dropWhile q) hne
  exact eq_false_of_ne_true hlast

theorem not_isForbidden_replaceForbidden {text : List CodeUnit} :
    ∀ u ∈ replaceForbidden text, isForbidden u = false := by
  intro u hu
  obtain ⟨v, -, rfl⟩ := List.mem_map.mp hu
  split_ifs with hv
  · decide
  · simpa using hv

/-- All separators but the underscore are gone. -/
theorem eq_underscore_of_mem_cleaned {label : List CodeUnit} {u : CodeUnit}
    (hu : u ∈ cleaned label) (hsep : isSeparator u = true) : u = underscore := by
  obtain rfl | ⟨hmem, -⟩ := Words.mem_squeeze ((isInfix_strip _ _).subset hu)
  · rfl
  · obtain rfl | ⟨hmem, hspace⟩ := Words.mem_squeeze hmem
    · rfl
    · have hallowed := not_isForbidden_replaceForbidden u hmem
      simpa [isSeparator, hallowed, hspace] using hsep

private theorem spaced_cleaned (label : List CodeUnit) :
    Spaced isSeparator underscore (cleaned label) where
  only u hu hsep := eq_underscore_of_mem_cleaned hu hsep
  apart := by
    have hchain : (cleaned label).IsChain fun a b =>
        ¬ ((a == underscore) = true ∧ (b == underscore) = true) :=
      List.IsChain.infix (Words.isChain_squeeze _ _) (isInfix_strip _ _)
    apply hchain.imp_of_mem_imp
    rintro a b ha hb hpair ⟨hsepA, hsepB⟩
    apply hpair
    rw [eq_underscore_of_mem_cleaned ha hsepA, eq_underscore_of_mem_cleaned hb hsepB]
    exact ⟨beq_self_eq_true _, beq_self_eq_true _⟩
  front u hu := by
    cases hsep : isSeparator u with
    | false => rfl
    | true =>
        have hne := head?_strip _ _ u hu
        rw [eq_underscore_of_mem_cleaned (List.mem_of_mem_head? hu) hsep] at hne
        simp at hne
  back u hu := by
    cases hsep : isSeparator u with
    | false => rfl
    | true =>
        have hne := getLast?_strip _ _ u hu
        rw [eq_underscore_of_mem_cleaned (List.mem_of_mem_getLast? hu) hsep] at hne
        simp at hne

/-- Cleaning joins the words of a label with underscores. -/
theorem cleaned_eq (label : List CodeUnit) :
    cleaned label = [underscore].intercalate (words isSeparator label) := by
  rw [← words_cleaned]
  exact ((Words.intercalate_words_eq_iff isSeparator_underscore).mpr (spaced_cleaned label)).symm

/-- What is spaced is left as it is. -/
theorem cleaned_of_spaced {text : List CodeUnit} (h : Spaced isSeparator underscore text) :
    cleaned text = text := by
  rw [cleaned_eq]
  exact (Words.intercalate_words_eq_iff isSeparator_underscore).mpr h

theorem sanitizeLabel_some (label : List CodeUnit) :
    sanitizeLabel (some label) = (cleaned label).take maxLength := by
  cases label with
  | nil => rfl
  | cons u us => rfl

/-- A text that is short enough is normal exactly if it is spaced. -/
theorem normal_iff_spaced {text : List CodeUnit} (hshort : text.length ≤ maxLength) :
    Normal text ↔ Spaced isSeparator underscore text := by
  have hletter : ∀ u, isForbidden u = false → isSpace u = false →
      (isSeparator u = true ↔ u = underscore) := by
    intro u hforbidden hspace
    simp [isSeparator, hforbidden, hspace]
  constructor
  · intro h
    have hsep : ∀ u ∈ text, isSeparator u = true → u = underscore := fun u hu =>
      (hletter u (h.allowed u hu).1 (h.allowed u hu).2).mp
    refine ⟨hsep, ?_, fun u hu => ?_, fun u hu => ?_⟩
    · apply h.single.imp_of_mem_imp
      rintro a b ha hb hpair ⟨hsepA, hsepB⟩
      exact hpair ⟨hsep a ha hsepA, hsep b hb hsepB⟩
    · by_contra hu'
      exact h.front (hsep u (List.mem_of_mem_head? hu) (by simpa using hu') ▸ hu)
    · by_contra hu'
      exact h.back (hsep u (List.mem_of_mem_getLast? hu) (by simpa using hu') ▸ hu)
  · intro h
    refine ⟨hshort, fun u hu => ?_, ?_, fun hu => ?_, fun hu => ?_, ?_⟩
    · cases hsep : isSeparator u with
      | false =>
          rw [isSeparator, Bool.or_eq_false_iff, Bool.or_eq_false_iff] at hsep
          exact hsep.1
      | true =>
          rw [h.only u hu hsep]
          decide
    · apply h.apart.imp
      rintro a b hpair ⟨rfl, rfl⟩
      exact hpair ⟨isSeparator_underscore, isSeparator_underscore⟩
    · exact absurd (h.front underscore hu) (by decide)
    · exact absurd (h.back underscore hu) (by decide)
    · rw [sanitizeLabel_some, cleaned_of_spaced h, List.take_of_length_le hshort]

/-- What keeps a label from its normal form. The cut leaves an underscore at the end
if the first words, without the last, are thirty nine code units long when they are
joined. -/
theorem normal_sanitizeLabel_iff (label : List CodeUnit) :
    Normal (sanitizeLabel (some label)) ↔
      ¬ Words.BreaksAt underscore (words isSeparator label) 39 := by
  have hwords : ∀ w ∈ words isSeparator label, Words.IsWord isSeparator w := fun w hw =>
    Words.isWord_of_mem_words hw
  have hcut : Spaced isSeparator underscore ((cleaned label).take 40) ↔
      (cleaned label)[39]? ≠ some underscore :=
    Words.spaced_take_iff isSeparator_underscore (spaced_cleaned label) 39
  rw [sanitizeLabel_some, normal_iff_spaced (List.length_take_le _ _)]
  exact hcut.trans (not_congr
    (cleaned_eq label ▸ Words.getElem?_intercalate isSeparator_underscore hwords 39))

/-- A word of thirty nine letters, and one more word. -/
def longLabel : List CodeUnit := List.replicate 39 0x61 ++ [0x20, 0x62]

theorem sanitizeLabel_not_always_normal :
    ¬ ∀ label : List CodeUnit, Normal (sanitizeLabel (some label)) := by
  intro h
  have hlast : (sanitizeLabel (some longLabel)).getLast? = some underscore := by decide
  exact (h longLabel).back hlast

end Label

end Commmon

/-
# Quoted words in a JSON text

A program that does not parse JSON may look for a word with quotes around it
anywhere in a text. Within a string every quote has a backslash before it, so the
word's second quote ends a string of the text. That string need not be the word:
it may also end in a quote and the word. Nothing else looks like the word.
-/

import Mathlib.Data.List.Infix
import Commmon.Lib.Json

set_option autoImplicit false

namespace Json

/-- A piece of a compact text: a string, or a character outside of strings. -/
inductive Token
  | text (s : String)
  | sign (c : Char)

def Token.print : Token → List Char
  | .text s => printString s
  | .sign c => [c]

def printTokens (ts : List Token) : List Char := ts.flatMap Token.print

def signs (cs : List Char) : List Token := cs.map Token.sign

mutual

def tokens : Json → List Token
  | null => signs ['n', 'u', 'l', 'l']
  | bool true => signs ['t', 'r', 'u', 'e']
  | bool false => signs ['f', 'a', 'l', 's', 'e']
  | num n => signs n.text
  | str s => [.text s]
  | arr xs => .sign '[' :: (elementTokens xs ++ [.sign ']'])
  | obj fields => .sign '{' :: (fieldTokens fields ++ [.sign '}'])
termination_by structural v => v

def elementTokens : List Json → List Token
  | [] => []
  | [v] => tokens v
  | v :: w :: vs => tokens v ++ .sign ',' :: elementTokens (w :: vs)
termination_by structural vs => vs

def fieldTokens : List (String × Json) → List Token
  | [] => []
  | [(k, v)] => .text k :: .sign ':' :: tokens v
  | (k, v) :: f :: fs => .text k :: .sign ':' :: (tokens v ++ .sign ',' :: fieldTokens (f :: fs))
termination_by structural fs => fs

end

@[simp] theorem printTokens_nil : printTokens [] = [] := rfl

@[simp] theorem printTokens_text (s : String) (ts : List Token) :
    printTokens (.text s :: ts) = printString s ++ printTokens ts := List.flatMap_cons

@[simp] theorem printTokens_sign (c : Char) (ts : List Token) :
    printTokens (.sign c :: ts) = c :: printTokens ts := List.flatMap_cons

@[simp] theorem printTokens_append (ts us : List Token) :
    printTokens (ts ++ us) = printTokens ts ++ printTokens us := List.flatMap_append

@[simp] theorem printTokens_signs (cs : List Char) : printTokens (signs cs) = cs := by
  induction cs with
  | nil => rfl
  | cons c cs ih => exact congrArg (c :: ·) ih

mutual

/-- The tokens of a value are its text. -/
theorem printTokens_tokens : ∀ v : Json, printTokens (tokens v) = print v
  | null | bool true | bool false => printTokens_signs _
  | num n => printTokens_signs _
  | str s => by simp [tokens, print]
  | arr xs => by simp [tokens, print, printTokens_elementTokens xs]
  | obj fields => by simp [tokens, print, printTokens_fieldTokens fields]

private theorem printTokens_elementTokens : ∀ xs : List Json,
    printTokens (elementTokens xs) = printElements xs
  | [] => rfl
  | [v] => printTokens_tokens v
  | v :: w :: vs => by
      simp [elementTokens, printElements, printTokens_tokens v,
        printTokens_elementTokens (w :: vs)]

private theorem printTokens_fieldTokens : ∀ fields : List (String × Json),
    printTokens (fieldTokens fields) = printFields fields
  | [] => rfl
  | [(k, v)] => by simp [fieldTokens, printFields, printTokens_tokens v]
  | (k, v) :: f :: fs => by
      simp [fieldTokens, printFields, printTokens_tokens v, printTokens_fieldTokens (f :: fs)]

end

/-- The signs that may follow a string. -/
def isCloser (c : Char) : Bool := c ∈ [',', ':', ']', '}']

def Closed (ts : List Token) : Prop := ∀ t ∈ ts.head?, ∃ c, t = .sign c ∧ isCloser c = true

/-- Quotes only stand around strings, and a closer follows every string. -/
def Separated : List Token → Prop
  | [] => True
  | .text _ :: ts => Closed ts ∧ Separated ts
  | .sign c :: ts => c ≠ '"' ∧ Separated ts

theorem closed_nil : Closed [] := by simp [Closed]

private theorem closed_sign {c : Char} (hc : isCloser c = true) (ts : List Token) :
    Closed (.sign c :: ts) := by
  intro t ht
  obtain rfl := Option.some.inj ht
  exact ⟨c, rfl, hc⟩

private theorem ne_quote_of_isCloser {c : Char} (hc : isCloser c = true) : c ≠ '"' := by
  rintro rfl
  exact absurd hc (by decide)

private theorem separated_signs {cs : List Char} (h : ∀ c ∈ cs, c ≠ '"') :
    Separated (signs cs) := by
  induction cs with
  | nil => trivial
  | cons c cs ih =>
      obtain ⟨hc, hcs⟩ := List.forall_mem_cons.mp h
      exact ⟨hc, ih hcs⟩

/-- Separated tokens stay so before a closer. -/
theorem Separated.append {ts us : List Token} (hts : Separated ts) (hus : Separated us)
    (hclosed : Closed us) : Separated (ts ++ us) := by
  induction ts with
  | nil => exact hus
  | cons t ts ih =>
      cases t with
      | text s =>
          obtain ⟨hhead, htail⟩ := hts
          refine ⟨?_, ih htail⟩
          cases ts with
          | nil => exact hclosed
          | cons t ts => exact hhead
      | sign c => exact ⟨hts.1, ih hts.2⟩

private theorem Separated.append_sign {ts us : List Token} {c : Char} (hts : Separated ts)
    (hc : isCloser c = true) (hus : Separated us) : Separated (ts ++ .sign c :: us) :=
  hts.append ⟨ne_quote_of_isCloser hc, hus⟩ (closed_sign hc us)

mutual

private theorem separated_tokens : ∀ v : Json, Separated (tokens v)
  | null | bool true | bool false => separated_signs (by simp)
  | num n => by
      apply separated_signs
      rintro c hc rfl
      exact absurd (n.chars _ hc) (by decide)
  | str s => ⟨closed_nil, trivial⟩
  | arr xs => ⟨by decide, (separated_elementTokens xs).append_sign (by decide) trivial⟩
  | obj fields => ⟨by decide, (separated_fieldTokens fields).append_sign (by decide) trivial⟩

private theorem separated_elementTokens : ∀ xs : List Json, Separated (elementTokens xs)
  | [] => trivial
  | [v] => separated_tokens v
  | v :: w :: vs =>
      (separated_tokens v).append_sign (by decide) (separated_elementTokens (w :: vs))

private theorem separated_fieldTokens :
    ∀ fields : List (String × Json), Separated (fieldTokens fields)
  | [] => trivial
  | [(_, v)] => ⟨closed_sign (by decide) _, by decide, separated_tokens v⟩
  | (_, v) :: f :: fs =>
      ⟨closed_sign (by decide) _, by decide,
        (separated_tokens v).append_sign (by decide) (separated_fieldTokens (f :: fs))⟩

end

/-- Nothing in a word is escaped, and nothing in it may follow a string. -/
def IsWord (w : List Char) : Prop :=
  w ≠ [] ∧ ∀ c ∈ w, (c ≠ '"' ∧ c ≠ '\\') ∧ 0x20 ≤ c.toNat ∧ isCloser c = false

instance : DecidablePred IsWord := fun w =>
  @instDecidableAnd _ _ inferInstance (List.decidableBAll _ w)

theorem IsWord.plain {w : List Char} (hw : IsWord w) : ∀ c ∈ w, c ≠ '"' ∧ c ≠ '\\' :=
  fun c hc => (hw.2 c hc).1

/-- A string that is the word, or ends in a quote and the word. -/
def Shows (w : List Char) (s : String) : Prop := '"' :: w <:+ '"' :: s.toList

instance (w : List Char) : DecidablePred (Shows w) := fun _ => inferInstanceAs (Decidable (_ <:+ _))

/-- A part that lacks a character ends before the character stands. -/
theorem exists_of_append_cons {c : Char} {part cs xs ys : List Char} (hpart : c ∉ part)
    (h : part ++ cs = xs ++ c :: ys) : ∃ xs', xs = part ++ xs' ∧ cs = xs' ++ c :: ys := by
  obtain ⟨xs', hxs, hcs⟩ | ⟨more, rfl, hmore⟩ := List.append_eq_append_iff.mp h
  · exact ⟨xs', hxs, hcs⟩
  · cases more with
    | nil => exact ⟨[], by simp, hmore.symm⟩
    | cons d more =>
        obtain rfl := (List.cons.inj hmore).1
        exact absurd (List.mem_append_right _ List.mem_cons_self) hpart

/-- Either a character that stands for itself, or an escape with no quote in it
unless it is the quote's. -/
theorem escape_cases (c : Char) : (escape c = [c] ∧ c ≠ '"' ∧ c ≠ '\\') ∨
    ∃ letter tail, escape c = '\\' :: letter :: tail ∧ '"' ∉ tail ∧
      (letter = '"' → c = '"' ∧ tail = []) := by
  unfold escape
  split
  · rename_i e hlookup
    have hquote : ∀ p ∈ shortEscapes, p.2 = '"' → p.1 = '"' := by decide
    have hmem : (c, e) ∈ shortEscapes := by
      obtain ⟨l, r, h, -⟩ := List.lookup_eq_some_iff.mp hlookup
      rw [h]
      simp
    exact Or.inr ⟨e, [], rfl, List.not_mem_nil, fun he => ⟨hquote _ hmem he, rfl⟩⟩
  · rename_i hlookup
    split
    · have hdigit : ∀ n < 16, '"' ≠ n.digitChar := by decide
      refine Or.inr ⟨'u', _, rfl, ?_, fun h => absurd h (by decide)⟩
      have hhigh := hdigit (c.toNat / 16) (by omega)
      have hlow := hdigit (c.toNat % 16) (by omega)
      simp [hhigh, hlow]
    · exact Or.inl ⟨rfl, escape_of_lookup_none hlookup⟩

theorem flatMap_escape_of_plain {cs : List Char} (hplain : ∀ c ∈ cs, c ≠ '"' ∧ c ≠ '\\')
    (hprintable : ∀ c ∈ cs, 0x20 ≤ c.toNat) : cs.flatMap escape = cs := by
  induction cs with
  | nil => rfl
  | cons c cs ih =>
      obtain ⟨⟨hquote, hslash⟩, hcs⟩ := List.forall_mem_cons.mp hplain
      obtain ⟨hc, hcs'⟩ := List.forall_mem_cons.mp hprintable
      rw [List.flatMap_cons, escape_of_plain hquote hslash hc, ih hcs hcs']
      rfl

/-- An escaped string up to its closing quote, against a word up to a quote. -/
theorem body_eq_word {w : List Char} (hw : ∀ c ∈ w, c ≠ '"' ∧ c ≠ '\\') : ∀ {s ys zs : List Char},
    s.flatMap escape ++ '"' :: zs = w ++ '"' :: ys → s = w ∧ zs = ys := by
  induction w with
  | nil =>
      intro s ys zs h
      cases s with
      | nil => exact ⟨rfl, (List.cons.inj h).2⟩
      | cons c s =>
          rw [List.flatMap_cons, List.append_assoc] at h
          obtain ⟨hc, hquote, -⟩ | ⟨letter, tail, hc, -, -⟩ := escape_cases c
          · rw [hc] at h
            exact absurd (List.cons.inj h).1 hquote
          · rw [hc] at h
            exact absurd (List.cons.inj h).1 (by decide)
  | cons d w ih =>
      intro s ys zs h
      obtain ⟨⟨hquote, hslash⟩, hrest⟩ := List.forall_mem_cons.mp hw
      cases s with
      | nil => exact absurd (List.cons.inj h).1.symm hquote
      | cons c s =>
          rw [List.flatMap_cons, List.append_assoc] at h
          obtain ⟨hc, -⟩ | ⟨letter, tail, hc, -, -⟩ := escape_cases c
          · rw [hc] at h
            obtain ⟨rfl, htail⟩ := List.cons.inj h
            obtain ⟨rfl, hzs⟩ := ih hrest htail
            exact ⟨rfl, hzs⟩
          · rw [hc] at h
            exact absurd (List.cons.inj h).1.symm hslash

/-- A quote in the text of an escaped string: the quote that ends the string, one
within it that it ends in together with the word, or one beyond its end. -/
theorem quote_in_string {w : List Char} (hw : ∀ c ∈ w, c ≠ '"' ∧ c ≠ '\\') {ys zs : List Char} :
    ∀ {s xs : List Char}, s.flatMap escape ++ '"' :: zs = xs ++ '"' :: (w ++ '"' :: ys) →
      ('"' :: w <:+ s ∧ zs = ys) ∨ zs = w ++ '"' :: ys ∨
        ∃ xs', zs = xs' ++ '"' :: (w ++ '"' :: ys) := by
  intro s
  induction s with
  | nil =>
      intro xs h
      cases xs with
      | nil => exact Or.inr (Or.inl (List.cons.inj h).2)
      | cons x xs => exact Or.inr (Or.inr ⟨xs, (List.cons.inj h).2⟩)
  | cons c s ih =>
      intro xs h
      have hrec : ∀ {xs'}, s.flatMap escape ++ '"' :: zs = xs' ++ '"' :: (w ++ '"' :: ys) →
          ('"' :: w <:+ c :: s ∧ zs = ys) ∨ zs = w ++ '"' :: ys ∨
            ∃ xs', zs = xs' ++ '"' :: (w ++ '"' :: ys) := by
        intro xs' h'
        obtain ⟨hsuffix, hzs⟩ | hlater := ih h'
        · exact Or.inl ⟨hsuffix.trans (List.suffix_cons c s), hzs⟩
        · exact Or.inr hlater
      rw [List.flatMap_cons, List.append_assoc] at h
      obtain ⟨hc, hquote, -⟩ | ⟨letter, tail, hc, htail, hletter⟩ := escape_cases c
      · rw [hc] at h
        cases xs with
        | nil => exact absurd (List.cons.inj h).1 hquote
        | cons x xs => exact hrec (List.cons.inj h).2
      · rw [hc] at h
        cases xs with
        | nil => exact absurd (List.cons.inj h).1 (by decide)
        | cons x xs =>
            have h' := (List.cons.inj h).2
            cases xs with
            | nil =>
                -- the escaped quote
                obtain ⟨hquote, hrest⟩ := List.cons.inj h'
                obtain ⟨rfl, rfl⟩ := hletter hquote
                obtain ⟨rfl, hzs⟩ := body_eq_word hw hrest
                exact Or.inl ⟨List.suffix_refl _, hzs⟩
            | cons y xs =>
                obtain ⟨xs', -, hxs'⟩ := exists_of_append_cons htail (List.cons.inj h').2
                exact hrec hxs'

private theorem Closed.not_word {ts : List Token} (hts : Closed ts) {w ys : List Char}
    (hw : IsWord w) : printTokens ts ≠ w ++ ys := by
  intro h
  obtain ⟨c, w', rfl⟩ := List.exists_cons_of_ne_nil hw.1
  have hc := (hw.2 c List.mem_cons_self).2.2
  cases ts with
  | nil => exact absurd h (by simp)
  | cons t ts =>
      obtain ⟨d, rfl, hd⟩ := hts t rfl
      rw [printTokens_sign] at h
      obtain rfl := (List.cons.inj h).1
      exact absurd hd (Bool.eq_false_iff.mp hc)

/-- Where a quoted word stands. Its second quote is the end of a string that
shows the word. -/
theorem exists_of_quoted {w ys : List Char} (hw : IsWord w) : ∀ {ts : List Token}
    {xs : List Char}, Separated ts → printTokens ts = xs ++ '"' :: (w ++ '"' :: ys) →
      ∃ before s after, ts = before ++ .text s :: after ∧ Shows w s ∧ ys = printTokens after := by
  intro ts
  induction ts with
  | nil =>
      intro xs _ h
      exact absurd h (by simp)
  | cons t ts ih =>
      intro xs hts h
      have hrec : ∀ {xs'}, Separated ts → printTokens ts = xs' ++ '"' :: (w ++ '"' :: ys) →
          ∃ before s after, t :: ts = before ++ .text s :: after ∧ Shows w s ∧
            ys = printTokens after := by
        intro xs' hts' h'
        obtain ⟨before, s, after, rfl, hs, hys⟩ := ih hts' h'
        exact ⟨t :: before, s, after, rfl, hs, hys⟩
      cases t with
      | sign c =>
          obtain ⟨hc, hts⟩ := hts
          rw [printTokens_sign] at h
          cases xs with
          | nil => exact absurd (List.cons.inj h).1 hc
          | cons x xs => exact hrec hts (List.cons.inj h).2
      | text s =>
          obtain ⟨hclosed, hts⟩ := hts
          have hprint : printTokens (.text s :: ts) =
              '"' :: (s.toList.flatMap escape ++ '"' :: printTokens ts) := by
            simp [printString]
          rw [hprint] at h
          cases xs with
          | nil =>
              -- the quote that opens the string
              obtain ⟨hs, hys⟩ := body_eq_word hw.plain (List.cons.inj h).2
              exact ⟨[], s, ts, rfl, hs ▸ List.suffix_refl _, hys.symm⟩
          | cons x xs =>
              obtain ⟨hs, hys⟩ | hafter | ⟨xs', hbeyond⟩ :=
                quote_in_string hw.plain (List.cons.inj h).2
              · exact ⟨[], s, ts, rfl, hs.trans (List.suffix_cons _ _), hys.symm⟩
              · exact absurd hafter (hclosed.not_word hw)
              · exact hrec hts hbeyond

/-- A string that shows a word contains it in quotes. -/
theorem quoted_infix_printString {w : List Char} (hw : IsWord w) {s : String} (hs : Shows w s) :
    '"' :: (w ++ ['"']) <:+: printString s := by
  have hescape : w.flatMap escape = w := flatMap_escape_of_plain hw.plain fun c hc =>
    (hw.2 c hc).2.1
  obtain ⟨before, hbefore⟩ := hs
  cases before with
  | nil =>
      obtain rfl := (List.cons.inj hbefore).2
      have hprint : printString s = '"' :: (s.toList ++ ['"']) := by rw [printString, hescape]
      rw [hprint]
  | cons q before =>
      have hs : before ++ '"' :: w = s.toList := (List.cons.inj hbefore).2
      refine ⟨'"' :: (before.flatMap escape ++ ['\\']), [], ?_⟩
      rw [printString, ← hs, List.flatMap_append, List.flatMap_cons, hescape]
      have hquote : escape '"' = ['\\', '"'] := by decide
      simp [hquote]

theorem text_mem_signs {s : String} {cs : List Char} : .text s ∉ signs cs := by
  simp [signs]

theorem text_mem_tokens_bool {s : String} {b : Bool} : .text s ∉ tokens (bool b) := by
  cases b <;> exact text_mem_signs

@[simp] theorem text_mem_tokens_str {s t : String} : .text s ∈ tokens (str t) ↔ s = t := by
  simp [tokens]

/-- A list without a member is in one of the parts around the member. -/
theorem infix_append_cons_iff {α : Type*} {pat l₁ l₂ : List α} {x : α} (hx : x ∉ pat) :
    pat <:+: l₁ ++ x :: l₂ ↔ pat <:+: l₁ ∨ pat <:+: l₂ := by
  constructor
  · rintro ⟨before, after, h⟩
    obtain ⟨more, rfl, -⟩ | ⟨more, hmore, hrest⟩ := List.append_eq_append_iff.mp h
    · exact Or.inl ⟨before, more, rfl⟩
    · cases more with
      | nil => exact Or.inl ⟨before, [], by simpa using hmore⟩
      | cons y more =>
          obtain ⟨rfl, rfl⟩ := List.cons.inj hrest
          obtain ⟨rest, -, rfl⟩ | ⟨rest, rfl, hrest'⟩ := List.append_eq_append_iff.mp hmore
          · exact absurd (List.mem_append_right _ List.mem_cons_self) hx
          · cases rest with
            | nil =>
                obtain rfl : x :: more = pat := hrest'
                exact absurd List.mem_cons_self hx
            | cons z rest =>
                obtain rfl : more = rest ++ pat := (List.cons.inj hrest').2
                exact Or.inr ⟨rest, after, rfl⟩
  · rintro (h | h)
    · exact h.trans (List.prefix_append _ _).isInfix
    · exact h.trans ((List.suffix_cons _ _).isInfix.trans (List.suffix_append _ _).isInfix)

private theorem text_mem_fieldTokens {s : String} : ∀ {fields : List (String × Json)},
    .text s ∈ fieldTokens fields ↔ ∃ f ∈ fields, s = f.1 ∨ .text s ∈ tokens f.2
  | [] => by simp [fieldTokens]
  | [(k, v)] => by simp [fieldTokens]
  | (k, v) :: f :: fs => by
      rw [List.exists_mem_cons_iff, ← text_mem_fieldTokens]
      simp [fieldTokens, or_assoc]

/-- The strings of an object are its keys, and the strings of its values. -/
theorem text_mem_tokens_obj {s : String} {fields : List (String × Json)} :
    .text s ∈ tokens (obj fields) ↔ ∃ f ∈ fields, s = f.1 ∨ .text s ∈ tokens f.2 := by
  simp [tokens, text_mem_fieldTokens]

/-- A key and a string that is its value. -/
def pairTokens (k s : String) : List Token := [.text k, .sign ':', .text s]

private theorem text_prefix_tokens {s : String} {v : Json} :
    [.text s] <+: tokens v ↔ v = .str s := by
  have hsigns : ∀ cs, ¬ [Token.text s] <+: signs cs := fun cs h =>
    text_mem_signs (h.subset List.mem_cons_self)
  constructor
  · intro h
    cases v with
    | null => exact absurd h (hsigns _)
    | bool b => cases b <;> exact absurd h (hsigns _)
    | num n => exact absurd h (hsigns _)
    | str t =>
        rw [tokens, List.cons_prefix_cons, Token.text.injEq] at h
        rw [h.1]
    | arr xs =>
        rw [tokens, List.cons_prefix_cons] at h
        exact absurd h.1 (by simp)
    | obj fields =>
        rw [tokens, List.cons_prefix_cons] at h
        exact absurd h.1 (by simp)
  · rintro rfl
    exact List.prefix_refl _

private theorem pair_infix_cons_sign {k s : String} {c : Char} {ts : List Token} :
    pairTokens k s <:+: .sign c :: ts ↔ pairTokens k s <:+: ts := by
  rw [List.infix_cons_iff, pairTokens, List.cons_prefix_cons]
  simp

private theorem pair_infix_field {k s k' : String} {v : Json} :
    pairTokens k s <:+: .text k' :: .sign ':' :: tokens v ↔
      (k', v) = (k, .str s) ∨ pairTokens k s <:+: tokens v := by
  rw [List.infix_cons_iff, pair_infix_cons_sign, pairTokens, List.cons_prefix_cons,
    List.cons_prefix_cons, text_prefix_tokens, Prod.mk.injEq, Token.text.injEq]
  simp [eq_comm]

private theorem pair_infix_fieldTokens {k s : String} : ∀ {fields : List (String × Json)},
    pairTokens k s <:+: fieldTokens fields ↔
      ∃ f ∈ fields, f = (k, .str s) ∨ pairTokens k s <:+: tokens f.2
  | [] => by simp [fieldTokens, pairTokens]
  | [(k', v)] => by simp [fieldTokens, pair_infix_field]
  | (k', v) :: f :: fs => by
      have hcomma : Token.sign ',' ∉ pairTokens k s := by simp [pairTokens]
      rw [List.exists_mem_cons_iff, ← pair_infix_fieldTokens, ← pair_infix_field,
        ← infix_append_cons_iff hcomma]
      rfl

/-- A pair is one of the fields, or within a value. -/
theorem pair_infix_tokens_obj {k s : String} {fields : List (String × Json)} :
    pairTokens k s <:+: tokens (obj fields) ↔
      ∃ f ∈ fields, f = (k, .str s) ∨ pairTokens k s <:+: tokens f.2 := by
  have hclose : Token.sign '}' ∉ pairTokens k s := by simp [pairTokens]
  rw [tokens, pair_infix_cons_sign, infix_append_cons_iff hclose, pair_infix_fieldTokens]
  simp [pairTokens]

theorem not_pair_infix_str {k s t : String} : ¬ pairTokens k s <:+: tokens (str t) := by
  intro h
  have hle := h.length_le
  simp [pairTokens, tokens] at hle

private theorem printTokens_infix {ts us : List Token} (h : ts <:+: us) :
    printTokens ts <:+: printTokens us := by
  obtain ⟨before, after, rfl⟩ := h
  exact ⟨printTokens before, printTokens after, by simp⟩

/-- A quoted word is found exactly when a string shows it. -/
theorem quoted_infix_print_iff {w : List Char} (hw : IsWord w) {v : Json} :
    '"' :: (w ++ ['"']) <:+: print v ↔ ∃ s, .text s ∈ tokens v ∧ Shows w s := by
  constructor
  · rintro ⟨xs, ys, h⟩
    have hprint : printTokens (tokens v) = xs ++ '"' :: (w ++ '"' :: ys) := by
      rw [printTokens_tokens, ← h]
      simp
    obtain ⟨before, s, after, htokens, hs, -⟩ := exists_of_quoted hw (separated_tokens v) hprint
    exact ⟨s, by simp [htokens], hs⟩
  · rintro ⟨s, hmem, hs⟩
    have htext : printTokens [.text s] <:+: printTokens (tokens v) :=
      printTokens_infix ((List.singleton_infix_iff _ _).mpr hmem)
    rw [printTokens_tokens, printTokens_text, printTokens_nil, List.append_nil] at htext
    exact (quoted_infix_printString hw hs).trans htext

/-- The key with its quotes, its colon and the quote after that. -/
def keyed (w : List Char) : List Char := '"' :: (w ++ ['"', ':', '"'])

/-- What is found for a key. It is the value of a field, though perhaps of one
whose key only shows the word. -/
theorem exists_of_keyed {w : List Char} (hw : IsWord w) {v : Json} {xs ys : List Char}
    (h : print v = xs ++ (keyed w ++ ys)) : ∃ k s rest, pairTokens k s <:+: tokens v ∧
      Shows w k ∧ ys = s.toList.flatMap escape ++ '"' :: rest := by
  have hprint : printTokens (tokens v) = xs ++ '"' :: (w ++ '"' :: (':' :: '"' :: ys)) := by
    rw [printTokens_tokens, h]
    simp [keyed]
  obtain ⟨before, k, after, htokens, hk, hafter⟩ :=
    exists_of_quoted hw (separated_tokens v) hprint
  -- a colon and a quote are left, and only a string begins with a quote
  have hsep : Separated after := by
    have hall := separated_tokens v
    rw [htokens] at hall
    clear htokens hprint
    induction before with
    | nil => exact hall.2
    | cons t before ih =>
        cases t with
        | text s => exact ih hall.2
        | sign c => exact ih hall.2
  rcases after with - | ⟨⟨s⟩ | ⟨c⟩, after⟩
  · exact absurd hafter (by simp)
  · exact absurd (List.cons.inj hafter).1 (by decide)
  · rw [printTokens_sign] at hafter
    obtain ⟨rfl, hvalue⟩ := List.cons.inj hafter
    rcases after with - | ⟨⟨s⟩ | ⟨d⟩, after⟩
    · exact absurd hvalue (by simp)
    · refine ⟨k, s, printTokens after, ⟨before, after, ?_⟩, hk, ?_⟩
      · rw [htokens]
        simp [pairTokens]
      · simpa [printString] using hvalue
    · rw [printTokens_sign] at hvalue
      exact absurd (List.cons.inj hvalue).1.symm hsep.2.1

theorem keyed_infix_print {k s : String} {v : Json} (hk : IsWord k.toList)
    (h : pairTokens k s <:+: tokens v) : keyed k.toList <:+: print v := by
  have hpair := printTokens_infix h
  rw [printTokens_tokens] at hpair
  refine List.IsInfix.trans ?_ hpair
  have hescape := flatMap_escape_of_plain hk.plain fun c hc => (hk.2 c hc).2.1
  refine ⟨[], s.toList.flatMap escape ++ ['"'], ?_⟩
  simp [pairTokens, printString, keyed, hescape]

end Json

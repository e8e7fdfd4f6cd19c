/-
# JSON texts

JSON values, the compact text of a value, and a reader for JSON texts. Numbers
are kept as their literals, so nothing is said about how a program rounds them.

The reader takes every text of the grammar with one exception: an escape of a
surrogate that has no partner is refused, because no `String` has such a
character. What the printer writes is read back as it was, contains no control
character, and in particular fits on one line.
-/

import Mathlib.Data.List.Basic
import Mathlib.Data.List.TakeWhile

set_option autoImplicit false

namespace Json

/-! ## Number literals -/

def isNumChar (c : Char) : Bool := c.isDigit || c ∈ ['-', '+', '.', 'e', 'E']

/-- The number that digits stand for. -/
def natOf (digits : List Char) : ℕ := Nat.ofDigitChars 10 digits 0

/-- The exponent of a literal, or nothing. -/
def readExponent : List Char → Option ℤ
  | [] => some 0
  | e :: rest =>
      let (negative, digits) := match rest with
        | '-' :: digits => (true, digits)
        | '+' :: digits => (false, digits)
        | digits => (false, digits)
      if (e = 'e' ∨ e = 'E') ∧ digits ≠ [] ∧ digits.all Char.isDigit then
        some (if negative then -(natOf digits : ℤ) else natOf digits)
      else none

/-- An unsigned literal as `m * 10 ^ e`. A leading zero stands alone. -/
def readUnsigned (cs : List Char) : Option (ℕ × ℤ) :=
  let whole := cs.takeWhile Char.isDigit
  if whole = [] ∨ (whole.head? = some '0' ∧ whole ≠ ['0']) then none
  else
    match cs.dropWhile Char.isDigit with
    | '.' :: rest =>
        let fraction := rest.takeWhile Char.isDigit
        if fraction = [] then none
        else (readExponent (rest.dropWhile Char.isDigit)).map fun e =>
          (natOf (whole ++ fraction), e - fraction.length)
    | rest => (readExponent rest).map fun e => (natOf whole, e)

/-- A literal as `m * 10 ^ e`. -/
def readDecimal : List Char → Option (ℤ × ℤ)
  | '-' :: cs => (readUnsigned cs).map fun (m, e) => (-(m : ℤ), e)
  | cs => (readUnsigned cs).map fun (m, e) => ((m : ℤ), e)

end Json

/-- The text of a number. -/
structure NumLit where
  text : List Char
  chars : ∀ c ∈ text, Json.isNumChar c = true
  decimal : (Json.readDecimal text).isSome = true

namespace NumLit

private theorem text_ne_nil (n : NumLit) : n.text ≠ [] := by
  intro h
  have hdecimal := n.decimal
  rw [h] at hdecimal
  exact absurd hdecimal (by decide)

private theorem readUnsigned_toDigits (n : ℕ) :
    (Json.readUnsigned (Nat.toDigits 10 n)).isSome = true := by
  have hdigits : ∀ c ∈ Nat.toDigits 10 n, c.isDigit = true :=
    fun c hc => Nat.isDigit_of_mem_toDigits (by decide) (by decide) hc
  have hhead : (Nat.toDigits 10 n).head? = some '0' → Nat.toDigits 10 n = ['0'] := by
    induction n using Nat.strongRecOn with
    | ind n ih =>
        rcases Nat.lt_or_ge n 10 with hlt | hge
        · rw [Nat.toDigits_of_lt_base hlt]
          simp
        · rw [Nat.toDigits_of_base_le (by decide) hge]
          intro h
          have hne : Nat.toDigits 10 (n / 10) ≠ [] := Nat.toDigits_ne_nil
          have hdiv : n / 10 < n := Nat.div_lt_self (by omega) (by decide)
          rw [List.head?_append_of_ne_nil _ hne] at h
          have hzero := ih (n / 10) hdiv
            (fun c hc => Nat.isDigit_of_mem_toDigits (by decide) (by decide) hc) h
          have hlt : n / 10 < 10 := by
            have hlength : (Nat.toDigits 10 (n / 10)).length ≤ 1 := by rw [hzero]; rfl
            exact (Nat.length_toDigits_le_iff (by decide) (by decide)).mp hlength
          rw [Nat.toDigits_of_lt_base hlt] at hzero
          have : n / 10 = 0 := by simpa using hzero
          omega
  have htake : (Nat.toDigits 10 n).takeWhile Char.isDigit = Nat.toDigits 10 n :=
    List.takeWhile_eq_self_iff.mpr hdigits
  have hdrop : (Nat.toDigits 10 n).dropWhile Char.isDigit = [] :=
    List.dropWhile_eq_nil_iff.mpr hdigits
  rw [Json.readUnsigned]
  simp only [htake, hdrop]
  rw [if_neg]
  · rfl
  · rintro (h | ⟨h, hne⟩)
    · exact Nat.toDigits_ne_nil h
    · exact hne (hhead h)

/-- The literal of a natural number. -/
def ofNat (n : ℕ) : NumLit where
  text := Nat.toDigits 10 n
  chars := by
    intro c hc
    rw [Json.isNumChar, Nat.isDigit_of_mem_toDigits (by decide) (by decide) hc, Bool.true_or]
  decimal := by
    have h := readUnsigned_toDigits n
    unfold Json.readDecimal
    split
    · rename_i cs heq
      have hc : '-' ∈ Nat.toDigits 10 n := by rw [heq]; exact List.mem_cons_self
      exact absurd (Nat.isDigit_of_mem_toDigits (by decide) (by decide) hc) (by decide)
    · simpa using h

/-- The literal of an integer. -/
def ofInt : ℤ → NumLit
  | .ofNat n => ofNat n
  | .negSucc n => {
      text := '-' :: Nat.toDigits 10 (n + 1)
      chars := by
        intro c hc
        obtain rfl | hc := List.mem_cons.mp hc
        · rfl
        · rw [Json.isNumChar, Nat.isDigit_of_mem_toDigits (by decide) (by decide) hc,
            Bool.true_or]
      decimal := by simpa [Json.readDecimal] using readUnsigned_toDigits (n + 1) }

end NumLit

/-! ## Values -/

inductive Json
  | null
  | bool (b : Bool)
  | num (n : NumLit)
  | str (s : String)
  | arr (xs : List Json)
  | obj (fields : List (String × Json))

namespace Json

/-- A field of an object. Of several under one key the last one counts. -/
def get : Json → String → Option Json
  | obj fields, key => fields.reverse.lookup key
  | _, _ => none

/-! ## Printing -/

/-- The characters that are escaped by a letter of their own. -/
def shortEscapes : List (Char × Char) :=
  [('"', '"'), ('\\', '\\'), ('\x08', 'b'), ('\x0c', 'f'), ('\n', 'n'), ('\r', 'r'), ('\t', 't')]

def escape (c : Char) : List Char :=
  match shortEscapes.lookup c with
  | some e => ['\\', e]
  | none =>
      if c.toNat < 0x20 then
        ['\\', 'u', '0', '0', (c.toNat / 16).digitChar, (c.toNat % 16).digitChar]
      else [c]

def printString (s : String) : List Char := '"' :: (s.toList.flatMap escape ++ ['"'])

mutual

/-- The compact text of a value. -/
def print : Json → List Char
  | null => ['n', 'u', 'l', 'l']
  | bool true => ['t', 'r', 'u', 'e']
  | bool false => ['f', 'a', 'l', 's', 'e']
  | num n => n.text
  | str s => printString s
  | arr xs => '[' :: (printElements xs ++ [']'])
  | obj fields => '{' :: (printFields fields ++ ['}'])
termination_by structural v => v

def printElements : List Json → List Char
  | [] => []
  | [v] => print v
  | v :: w :: vs => print v ++ ',' :: printElements (w :: vs)
termination_by structural vs => vs

def printFields : List (String × Json) → List Char
  | [] => []
  | [(k, v)] => printString k ++ ':' :: print v
  | (k, v) :: f :: fs => printString k ++ ':' :: (print v ++ ',' :: printFields (f :: fs))
termination_by structural fs => fs

end

/-! ## Reading -/

def isSpace (c : Char) : Bool := c ∈ [' ', '\t', '\n', '\r']

def skipSpace (cs : List Char) : List Char := cs.dropWhile isSpace

/-- The text after the next character that is not a space, if it is `c`. -/
def expect (c : Char) (cs : List Char) : Option (List Char) :=
  match skipSpace cs with
  | d :: rest => if d = c then some rest else none
  | [] => none

def hexValue (c : Char) : Option ℕ :=
  if c.isDigit then some (c.toNat - 48)
  else if c ∈ ['a', 'b', 'c', 'd', 'e', 'f'] then some (c.toNat - 87)
  else if c ∈ ['A', 'B', 'C', 'D', 'E', 'F'] then some (c.toNat - 55)
  else none

def readHex : List Char → Option (ℕ × List Char)
  | a :: b :: c :: d :: rest => do
      let a ← hexValue a
      let b ← hexValue b
      let c ← hexValue c
      let d ← hexValue d
      some (a * 4096 + b * 256 + c * 16 + d, rest)
  | _ => none

/-- The character that the four digits after an escape's `u` stand for. A high
surrogate needs the low one that follows it. -/
def readUnicode (cs : List Char) : Option (Char × List Char) :=
  match readHex cs with
  | none => none
  | some (unit, rest) =>
      if 0xD800 ≤ unit ∧ unit < 0xDC00 then
        match rest with
        | '\\' :: 'u' :: rest =>
            match readHex rest with
            | some (low, rest) =>
                if 0xDC00 ≤ low ∧ low < 0xE000 then
                  some (Char.ofNat (0x10000 + (unit - 0xD800) * 0x400 + (low - 0xDC00)), rest)
                else none
            | none => none
        | _ => none
      else if 0xDC00 ≤ unit ∧ unit < 0xE000 then none
      else some (Char.ofNat unit, rest)

/-- The letters after a backslash, and what they stand for. -/
def unescapes : List (Char × Char) :=
  ('/', '/') :: shortEscapes.map Prod.swap

def readEscape : List Char → Option (Char × List Char)
  | [] => none
  | e :: rest =>
      if e = 'u' then readUnicode rest
      else (unescapes.lookup e).map fun c => (c, rest)

/-- The next character of a string, or its end. -/
def readChar : List Char → Option (Option Char × List Char)
  | [] => none
  | c :: rest =>
      if c = '"' then some (none, rest)
      else if c = '\\' then (readEscape rest).map fun (d, rest) => (some d, rest)
      else if c.toNat < 0x20 then none
      else some (some c, rest)

/-- The rest of a string, after its opening quote. -/
def readString : ℕ → List Char → Option (List Char × List Char)
  | 0, _ => none
  | fuel + 1, cs =>
      match readChar cs with
      | none => none
      | some (none, rest) => some ([], rest)
      | some (some c, rest) => (readString fuel rest).map fun (s, rest) => (c :: s, rest)

def readNumber (cs : List Char) : Option (NumLit × List Char) :=
  if h : (readDecimal (cs.takeWhile isNumChar)).isSome then
    some (⟨cs.takeWhile isNumChar, fun _ => List.mem_takeWhile_imp, h⟩, cs.dropWhile isNumChar)
  else none

def readWord (word : List Char) (v : Json) (cs : List Char) : Option (Json × List Char) :=
  if word.isPrefixOf cs then some (v, cs.drop word.length) else none

mutual

/-- The value at the front of a text, and the rest of the text. -/
def readValue : ℕ → List Char → Option (Json × List Char)
  | 0, _ => none
  | fuel + 1, cs =>
      match skipSpace cs with
      | [] => none
      | c :: rest =>
          if c = '"' then (readString fuel rest).map fun (s, rest) => (str (.ofList s), rest)
          else if c = '[' then
            match expect ']' rest with
            | some rest => some (arr [], rest)
            | none => (readElements fuel rest).map fun (xs, rest) => (arr xs, rest)
          else if c = '{' then
            match expect '}' rest with
            | some rest => some (obj [], rest)
            | none => (readFields fuel rest).map fun (fields, rest) => (obj fields, rest)
          else if c = 'n' then readWord ['n', 'u', 'l', 'l'] null (c :: rest)
          else if c = 't' then readWord ['t', 'r', 'u', 'e'] (bool true) (c :: rest)
          else if c = 'f' then readWord ['f', 'a', 'l', 's', 'e'] (bool false) (c :: rest)
          else (readNumber (c :: rest)).map fun (n, rest) => (num n, rest)

def readElements : ℕ → List Char → Option (List Json × List Char)
  | 0, _ => none
  | fuel + 1, cs =>
      match readValue fuel cs with
      | none => none
      | some (v, rest) =>
          match expect ',' rest with
          | some rest => (readElements fuel rest).map fun (vs, rest) => (v :: vs, rest)
          | none => (expect ']' rest).map fun rest => ([v], rest)

def readFields : ℕ → List Char → Option (List (String × Json) × List Char)
  | 0, _ => none
  | fuel + 1, cs =>
      match (expect '"' cs).bind (readString fuel) with
      | none => none
      | some (k, rest) =>
          match (expect ':' rest).bind (readValue fuel) with
          | none => none
          | some (v, rest) =>
              match expect ',' rest with
              | some rest =>
                  (readFields fuel rest).map fun (fs, rest) => ((.ofList k, v) :: fs, rest)
              | none => (expect '}' rest).map fun rest => ([(.ofList k, v)], rest)

end

/-- A whole text. Every nested value takes one unit of fuel and one character. -/
def parse (cs : List Char) : Option Json :=
  match readValue (cs.length + 1) cs with
  | some (v, rest) => if (skipSpace rest).isEmpty then some v else none
  | none => none

/-! ## What is printed is read back -/

theorem escape_of_lookup_none {c : Char} (h : shortEscapes.lookup c = none) :
    c ≠ '"' ∧ c ≠ '\\' := by
  constructor <;> rintro rfl <;> exact absurd h (by decide)

/-- Everything else than quotes, backslashes and control characters stands for
itself. -/
theorem escape_of_plain {c : Char} (hquote : c ≠ '"') (hslash : c ≠ '\\')
    (hprintable : 0x20 ≤ c.toNat) : escape c = [c] := by
  have hlookup : shortEscapes.lookup c = none := by
    have hall : ∀ p ∈ shortEscapes, p.1 = '"' ∨ p.1 = '\\' ∨ p.1.toNat < 0x20 := by decide
    rw [List.lookup_eq_none_iff]
    intro p hp
    rw [bne_iff_ne]
    rintro rfl
    obtain h | h | h := hall p hp
    · exact hquote h
    · exact hslash h
    · exact absurd h (Nat.not_lt.mpr hprintable)
  rw [escape, hlookup]
  exact if_neg (Nat.not_lt.mpr hprintable)

theorem hexValue_digitChar : ∀ d < 16, hexValue d.digitChar = some d := by
  decide

theorem readChar_escape (c : Char) (rest : List Char) :
    readChar (escape c ++ rest) = some (some c, rest) := by
  unfold escape
  split
  · rename_i e hlookup
    have hall : ∀ p ∈ shortEscapes, p.2 ≠ 'u' ∧ unescapes.lookup p.2 = some p.1 := by decide
    obtain ⟨hu, hback⟩ := hall (c, e) (List.lookup_eq_some_iff.mp hlookup |>.elim
      fun l h => h.elim fun r h => by rw [h.1]; simp)
    simp [readChar, readEscape, hu, hback]
  · rename_i hlookup
    obtain ⟨hquote, hslash⟩ := escape_of_lookup_none hlookup
    split
    · rename_i hcontrol
      have hvalue : c.toNat / 16 * 16 + c.toNat % 16 = c.toNat := by omega
      have hzero : hexValue '0' = some 0 := by decide
      have hhigh := hexValue_digitChar (c.toNat / 16) (by omega)
      have hlow := hexValue_digitChar (c.toNat % 16) (by omega)
      simp [readChar, readEscape, readUnicode, readHex, hzero, hhigh, hlow, hvalue,
        show ¬ 0xD800 ≤ c.toNat by omega, show ¬ 0xDC00 ≤ c.toNat by omega]
    · rename_i hplain
      simp [readChar, hquote, hslash, hplain]

/-- A way to write values: how a character of a string is written, and what white space
there is around the members of a collection and after a colon. -/
structure Layout where
  escape : Char → List Char
  gap : ℕ → List Char
  afterColon : List Char
  reads : ∀ (c : Char) (rest : List Char), readChar (escape c ++ rest) = some (some c, rest)
  gap_space : ∀ d, ∀ c ∈ gap d, isSpace c = true
  afterColon_space : ∀ c ∈ afterColon, isSpace c = true

section Layout

variable (L : Layout)

def Layout.printString (s : String) : List Char := '"' :: (s.toList.flatMap L.escape ++ ['"'])

mutual

/-- The text of a value that stands at a depth. -/
def printWith : Json → ℕ → List Char
  | null, _ => ['n', 'u', 'l', 'l']
  | bool true, _ => ['t', 'r', 'u', 'e']
  | bool false, _ => ['f', 'a', 'l', 's', 'e']
  | num n, _ => n.text
  | str s, _ => L.printString s
  | arr [], _ => ['[', ']']
  | arr (v :: vs), d => '[' :: (printElementsWith (v :: vs) (d + 1) ++ (L.gap d ++ [']']))
  | obj [], _ => ['{', '}']
  | obj (f :: fs), d => '{' :: (printFieldsWith (f :: fs) (d + 1) ++ (L.gap d ++ ['}']))
termination_by structural v => v

def printElementsWith : List Json → ℕ → List Char
  | [], _ => []
  | [v], d => L.gap d ++ printWith v d
  | v :: w :: vs, d => L.gap d ++ (printWith v d ++ ',' :: printElementsWith (w :: vs) d)
termination_by structural vs => vs

def printFieldsWith : List (String × Json) → ℕ → List Char
  | [], _ => []
  | [(k, v)], d => L.gap d ++ (L.printString k ++ ':' :: (L.afterColon ++ printWith v d))
  | (k, v) :: f :: fs, d =>
      L.gap d ++ (L.printString k ++ ':' ::
        (L.afterColon ++ (printWith v d ++ ',' :: printFieldsWith (f :: fs) d)))
termination_by structural fs => fs

end

theorem readString_printed (s rest : List Char) :
    ∀ fuel : ℕ, s.length < fuel →
      readString fuel (s.flatMap L.escape ++ '"' :: rest) = some (s, rest) := by
  induction s with
  | nil =>
      intro fuel hfuel
      obtain ⟨fuel, rfl⟩ := Nat.exists_eq_add_of_lt hfuel
      simp [readString, readChar]
  | cons c s ih =>
      intro fuel hfuel
      obtain ⟨fuel, rfl⟩ : ∃ n, fuel = n + 1 := ⟨fuel - 1, by simp at hfuel; omega⟩
      have hrest := ih fuel (by simpa using hfuel)
      simp [readString, L.reads, hrest]

theorem length_printString_le (s : String) : s.toList.length + 2 ≤ (L.printString s).length := by
  have hone : ∀ c, 1 ≤ (L.escape c).length := by
    intro c
    refine List.length_pos_iff.mpr fun hnil => ?_
    have hread := L.reads c []
    rw [hnil] at hread
    simp [readChar] at hread
  have hall : ∀ cs : List Char, cs.length ≤ (cs.flatMap L.escape).length := by
    intro cs
    induction cs with
    | nil => exact le_rfl
    | cons c cs ih =>
        have := hone c
        simp only [List.length_cons, List.flatMap_cons, List.length_append]
        omega
  have := hall s.toList
  simp only [Layout.printString, List.length_cons, List.length_append, List.length_nil]
  omega

end Layout

theorem expect_cons {c : Char} (hc : isSpace c = false) (rest : List Char) :
    expect c (c :: rest) = some rest := by
  simp [expect, skipSpace, hc]

theorem expect_ne {c d : Char} (hd : isSpace d = false) (hne : d ≠ c) (rest : List Char) :
    expect c (d :: rest) = none := by
  simp [expect, skipSpace, hd, hne]

theorem skipSpace_append {gap : List Char} (hgap : ∀ c ∈ gap, isSpace c = true)
    (cs : List Char) : skipSpace (gap ++ cs) = skipSpace cs :=
  List.dropWhile_append_of_pos hgap

private theorem expect_append {gap : List Char} (hgap : ∀ c ∈ gap, isSpace c = true) (c : Char)
    (cs : List Char) : expect c (gap ++ cs) = expect c cs := by
  rw [expect, expect, skipSpace_append hgap]

private theorem readValue_append {gap : List Char} (hgap : ∀ c ∈ gap, isSpace c = true) (fuel : ℕ)
    (cs : List Char) : readValue fuel (gap ++ cs) = readValue fuel cs := by
  cases fuel with
  | zero => rfl
  | succ fuel => rw [readValue, readValue, skipSpace_append hgap]

private theorem readFields_append {gap : List Char} (hgap : ∀ c ∈ gap, isSpace c = true) (fuel : ℕ)
    (cs : List Char) : readFields fuel (gap ++ cs) = readFields fuel cs := by
  cases fuel with
  | zero => rfl
  | succ fuel => rw [readFields, readFields, expect_append hgap]

private theorem readElements_append {gap : List Char} (hgap : ∀ c ∈ gap, isSpace c = true)
    (fuel : ℕ) (cs : List Char) : readElements fuel (gap ++ cs) = readElements fuel cs := by
  cases fuel with
  | zero => rfl
  | succ fuel => rw [readElements, readElements, readValue_append hgap]

/-- The first character of a value's text says what kind of value it is. -/
def Opens (c : Char) : Prop := isNumChar c = true ∨ c ∈ ['"', '[', '{', 'n', 't', 'f']

private theorem printWith_cons (L : Layout) (v : Json) (d : ℕ) :
    ∃ c cs, printWith L v d = c :: cs ∧ Opens c := by
  cases v with
  | num n =>
      obtain ⟨c, cs, h⟩ := List.exists_cons_of_ne_nil n.text_ne_nil
      exact ⟨c, cs, h, Or.inl (n.chars c (by rw [h]; exact List.mem_cons_self))⟩
  | bool b => cases b <;> exact ⟨_, _, rfl, Or.inr (by decide)⟩
  | arr xs => cases xs <;> exact ⟨_, _, rfl, Or.inr (by decide)⟩
  | obj fields => cases fields <;> exact ⟨_, _, rfl, Or.inr (by decide)⟩
  | null | str => exact ⟨_, _, rfl, Or.inr (by decide)⟩

private theorem Opens.not_space {c : Char} (h : Opens c) :
    isSpace c = false ∧ c ≠ ']' ∧ c ≠ '}' := by
  obtain h | h := h
  · have hspaces : ∀ d ∈ [' ', '\t', '\n', '\r'], isNumChar d = false := by
      simp [isNumChar]
    refine ⟨?_, ?_, ?_⟩
    · rw [isSpace, decide_eq_false_iff_not]
      intro hmem
      simp [hspaces c hmem] at h
    all_goals rintro rfl; exact absurd h (by decide)
  · have hall : ∀ d ∈ ['"', '[', '{', 'n', 't', 'f'],
        isSpace d = false ∧ d ≠ ']' ∧ d ≠ '}' := by simp [isSpace]
    exact hall c h

/-- A text that goes on with no character of a number. -/
def EndsNumber (rest : List Char) : Prop := ∀ c ∈ rest.head?, isNumChar c = false

theorem endsNumber_cons {c : Char} (h : isNumChar c = false) (rest : List Char) :
    EndsNumber (c :: rest) := by
  simpa [EndsNumber] using h

private theorem readNumber_text (n : NumLit) {rest : List Char} (h : EndsNumber rest) :
    readNumber (n.text ++ rest) = some (n, rest) := by
  have hrest : rest.takeWhile isNumChar = [] ∧ rest.dropWhile isNumChar = rest := by
    cases rest with
    | nil => exact ⟨rfl, rfl⟩
    | cons c cs => simp [h c rfl]
  have htake : (n.text ++ rest).takeWhile isNumChar = n.text := by
    rw [List.takeWhile_append_of_pos n.chars, hrest.1, List.append_nil]
  have hdrop : (n.text ++ rest).dropWhile isNumChar = rest := by
    rw [List.dropWhile_append_of_pos n.chars, hrest.2]
  simp [readNumber, htake, hdrop, n.decimal]

/-- White space is no character of a number. -/
theorem endsNumber_append {gap : List Char} (hgap : ∀ c ∈ gap, isSpace c = true) {c : Char}
    (hc : isNumChar c = false) (rest : List Char) : EndsNumber (gap ++ c :: rest) := by
  have hspaces : ∀ d ∈ [' ', '\t', '\n', '\r'], isNumChar d = false := by
    simp [isNumChar]
  cases gap with
  | nil => exact endsNumber_cons hc rest
  | cons g gap =>
      have hg := hgap g List.mem_cons_self
      rw [isSpace, decide_eq_true_eq] at hg
      exact endsNumber_cons (hspaces g hg) _

section RoundTrip

variable (L : Layout)

mutual

theorem readValue_printWith : ∀ (v : Json) (d fuel : ℕ) (rest : List Char),
    (printWith L v d).length ≤ fuel → EndsNumber rest →
      readValue fuel (printWith L v d ++ rest) = some (v, rest)
  | v, d, 0, rest, hfuel, _ => by
      obtain ⟨c, cs, h, -⟩ := printWith_cons L v d
      simp [h] at hfuel
  | null, d, fuel + 1, rest, _, _ => by
      simp [printWith, readValue, skipSpace, isSpace, readWord]
  | bool true, d, fuel + 1, rest, _, _ => by
      simp [printWith, readValue, skipSpace, isSpace, readWord]
  | bool false, d, fuel + 1, rest, _, _ => by
      simp [printWith, readValue, skipSpace, isSpace, readWord]
  | num n, d, fuel + 1, rest, _, hrest => by
      have hnum := readNumber_text n hrest
      obtain ⟨c, cs, htext⟩ := List.exists_cons_of_ne_nil n.text_ne_nil
      have hc : isNumChar c = true := n.chars c (by rw [htext]; exact List.mem_cons_self)
      have hspace := (Opens.not_space (Or.inl hc)).1
      have hne : c ≠ '"' ∧ c ≠ '[' ∧ c ≠ '{' ∧ c ≠ 'n' ∧ c ≠ 't' ∧ c ≠ 'f' := by
        refine ⟨?_, ?_, ?_, ?_, ?_, ?_⟩ <;> rintro rfl <;> exact absurd hc (by decide)
      rw [htext, List.cons_append] at hnum
      simp [printWith, readValue, skipSpace, htext, hspace, hne, hnum]
  | str s, d, fuel + 1, rest, hfuel, _ => by
      have hlength := length_printString_le L s
      have hstring := readString_printed L s.toList rest fuel
        (by simp only [printWith] at hfuel; omega)
      simp [printWith, Layout.printString, readValue, skipSpace, isSpace, hstring]
  | arr [], d, fuel + 1, rest, _, _ => by
      simp [printWith, readValue, skipSpace, isSpace, expect]
  | arr (v :: vs), d, fuel + 1, rest, hfuel, _ => by
      have helements := readElements_printWith v vs (d + 1) fuel (L.gap d) rest (L.gap_space d)
        (by simp [printWith] at hfuel; omega)
      have hclose : expect ']' (printElementsWith L (v :: vs) (d + 1) ++
          (L.gap d ++ ']' :: rest)) = none := by
        obtain ⟨c, cs, hprint, hc⟩ := printWith_cons L v (d + 1)
        obtain ⟨hspace, hclose, -⟩ := hc.not_space
        cases vs <;> simp only [printElementsWith, List.append_assoc, hprint, List.cons_append,
          expect_append (L.gap_space (d + 1)), expect_ne hspace hclose]
      simp [printWith, readValue, skipSpace, isSpace, hclose, helements]
  | obj [], d, fuel + 1, rest, _, _ => by
      simp [printWith, readValue, skipSpace, isSpace, expect]
  | obj (f :: fs), d, fuel + 1, rest, hfuel, _ => by
      have hfields := readFields_printWith f fs (d + 1) fuel (L.gap d) rest (L.gap_space d)
        (by simp [printWith] at hfuel; omega)
      have hclose : expect '}' (printFieldsWith L (f :: fs) (d + 1) ++
          (L.gap d ++ '}' :: rest)) = none := by
        obtain ⟨k, v⟩ := f
        cases fs <;> simp only [printFieldsWith, Layout.printString, List.append_assoc,
          List.cons_append, expect_append (L.gap_space (d + 1)),
          expect_ne (c := '}') (d := '"') (by decide) (by decide)]
      simp [printWith, readValue, skipSpace, isSpace, hclose, hfields]

private theorem readElements_printWith : ∀ (v : Json) (vs : List Json) (d fuel : ℕ)
    (gap rest : List Char), (∀ c ∈ gap, isSpace c = true) →
    (printElementsWith L (v :: vs) d).length + 1 ≤ fuel →
      readElements fuel (printElementsWith L (v :: vs) d ++ (gap ++ ']' :: rest)) =
        some (v :: vs, rest)
  | v, _, d, 0, gap, _, _, hfuel => by simp at hfuel
  | v, [], d, fuel + 1, gap, rest, hgap, hfuel => by
      have hlength : (printWith L v d).length ≤ fuel := by
        simp [printElementsWith] at hfuel
        omega
      have hvalue := readValue_printWith v d fuel (gap ++ ']' :: rest) hlength
        (endsNumber_append hgap (by decide) rest)
      rw [printElementsWith, List.append_assoc, readElements_append (L.gap_space d)]
      simp only [readElements, hvalue, expect_append hgap, expect_cons (c := ']') (by decide),
        expect_ne (c := ',') (d := ']') (by decide) (by decide), Option.map_some]
  | v, w :: ws, d, fuel + 1, gap, rest, hgap, hfuel => by
      have hlength : (printWith L v d).length + (printElementsWith L (w :: ws) d).length + 1 ≤
          fuel := by
        simp [printElementsWith] at hfuel
        omega
      have hvalue := readValue_printWith v d fuel
        (',' :: (printElementsWith L (w :: ws) d ++ (gap ++ ']' :: rest))) (by omega)
        (endsNumber_cons (by decide) _)
      have helements := readElements_printWith w ws d fuel gap rest hgap (by omega)
      rw [printElementsWith, List.append_assoc, readElements_append (L.gap_space d),
        List.append_assoc, List.cons_append]
      simp only [readElements, hvalue, expect_cons (c := ',') (by decide), helements,
        Option.map_some]

private theorem readFields_printWith :
    ∀ (f : String × Json) (fs : List (String × Json)) (d fuel : ℕ)
    (gap rest : List Char), (∀ c ∈ gap, isSpace c = true) →
    (printFieldsWith L (f :: fs) d).length + 1 ≤ fuel →
      readFields fuel (printFieldsWith L (f :: fs) d ++ (gap ++ '}' :: rest)) =
        some (f :: fs, rest)
  | _, _, _, 0, _, _, _, hfuel => by simp at hfuel
  | (k, v), [], d, fuel + 1, gap, rest, hgap, hfuel => by
      have hlength := length_printString_le L k
      simp [printFieldsWith, Layout.printString] at hfuel hlength
      have hkey := readString_printed L k.toList
        (':' :: (L.afterColon ++ (printWith L v d ++ (gap ++ '}' :: rest)))) fuel (by omega)
      have hvalue := readValue_printWith v d fuel (gap ++ '}' :: rest) (by omega)
        (endsNumber_append hgap (by decide) rest)
      rw [printFieldsWith, List.append_assoc, readFields_append (L.gap_space d)]
      simp [Layout.printString, readFields, expect_cons (c := '"') (by decide), hkey,
        expect_cons (c := ':') (by decide), readValue_append L.afterColon_space, hvalue,
        expect_append hgap, expect_cons (c := '}') (by decide),
        expect_ne (c := ',') (d := '}') (by decide) (by decide)]
  | (k, v), g :: gs, d, fuel + 1, gap, rest, hgap, hfuel => by
      have hlength := length_printString_le L k
      simp [printFieldsWith, Layout.printString] at hfuel hlength
      have hkey := readString_printed L k.toList (':' :: (L.afterColon ++ (printWith L v d ++
        ',' :: (printFieldsWith L (g :: gs) d ++ (gap ++ '}' :: rest))))) fuel (by omega)
      have hvalue := readValue_printWith v d fuel
        (',' :: (printFieldsWith L (g :: gs) d ++ (gap ++ '}' :: rest))) (by omega)
        (endsNumber_cons (by decide) _)
      have hfields := readFields_printWith g gs d fuel gap rest hgap (by omega)
      rw [printFieldsWith, List.append_assoc, readFields_append (L.gap_space d)]
      simp [Layout.printString, readFields, expect_cons (c := '"') (by decide), hkey,
        expect_cons (c := ':') (by decide), readValue_append L.afterColon_space, hvalue,
        expect_cons (c := ',') (by decide), hfields]

end

/-- What is printed in any layout is read back. -/
theorem parse_printWith (v : Json) (d : ℕ) : parse (printWith L v d) = some v := by
  have h := readValue_printWith L v d ((printWith L v d).length + 1) [] (Nat.le_succ _)
    (by simp [EndsNumber])
  rw [List.append_nil] at h
  simp [parse, h, skipSpace]

end RoundTrip

theorem spaces_nil : ∀ c ∈ ([] : List Char), isSpace c = true :=
  fun _ hc => absurd hc List.not_mem_nil

/-- A line for each member, with two spaces for each level. -/
def pretty : Layout where
  escape := escape
  gap d := '\n' :: List.replicate (2 * d) ' '
  afterColon := [' ']
  reads := readChar_escape
  gap_space _ := List.forall_mem_cons.mpr
    ⟨rfl, fun _ hc => List.eq_of_mem_replicate hc ▸ rfl⟩
  afterColon_space := List.forall_mem_singleton.mpr rfl

/-- The layout of `print`. -/
def compact : Layout where
  escape := escape
  gap _ := []
  afterColon := []
  reads := readChar_escape
  gap_space _ := spaces_nil
  afterColon_space := spaces_nil

mutual

theorem print_eq_printWith : ∀ (v : Json) (d : ℕ), print v = printWith compact v d
  | null, d => rfl
  | bool true, d => rfl
  | bool false, d => rfl
  | num n, d => rfl
  | str s, d => rfl
  | arr [], d => rfl
  | arr (v :: vs), d => by
      rw [print, printElements_eq_printWith (v :: vs) (d + 1)]
      rfl
  | obj [], d => rfl
  | obj (f :: fs), d => by
      rw [print, printFields_eq_printWith (f :: fs) (d + 1)]
      rfl

private theorem printElements_eq_printWith : ∀ (vs : List Json) (d : ℕ),
    printElements vs = printElementsWith compact vs d
  | [], d => rfl
  | [v], d => print_eq_printWith v d
  | v :: w :: vs, d => by
      rw [printElements, print_eq_printWith v d, printElements_eq_printWith (w :: vs) d]
      rfl

private theorem printFields_eq_printWith : ∀ (fs : List (String × Json)) (d : ℕ),
    printFields fs = printFieldsWith compact fs d
  | [], d => rfl
  | [(k, v)], d => by
      rw [printFields, print_eq_printWith v d]
      rfl
  | (k, v) :: f :: fs, d => by
      rw [printFields, print_eq_printWith v d, printFields_eq_printWith (f :: fs) d]
      rfl

end

/-- Round trip. -/
theorem parse_print (v : Json) : parse (print v) = some v := by
  rw [print_eq_printWith v 0, parse_printWith]

/-! ## What is printed is on one line -/

/-- A text without control characters. -/
def Plain (cs : List Char) : Prop := ∀ c ∈ cs, 0x20 ≤ c.toNat

theorem plain_nil : Plain [] := by simp [Plain]

theorem Plain.cons {c : Char} {cs : List Char} (hc : 0x20 ≤ c.toNat) (h : Plain cs) :
    Plain (c :: cs) := List.forall_mem_cons.mpr ⟨hc, h⟩

theorem Plain.append {cs ds : List Char} (h : Plain cs) (h' : Plain ds) : Plain (cs ++ ds) :=
  List.forall_mem_append.mpr ⟨h, h'⟩

theorem plain_escape (c : Char) : Plain (escape c) := by
  intro d hd
  unfold escape at hd
  split at hd
  · rename_i e hlookup
    have hall : ∀ p ∈ shortEscapes, 0x20 ≤ p.2.toNat := by decide
    obtain ⟨l, r, hsplit, -⟩ := List.lookup_eq_some_iff.mp hlookup
    have he := hall (c, e) (by rw [hsplit]; simp)
    exact Plain.cons (by decide) (.cons he plain_nil) d hd
  · split_ifs at hd with hcontrol
    · have hdigit : ∀ n < 16, 0x20 ≤ n.digitChar.toNat := by decide
      have hdigits : Plain [(c.toNat / 16).digitChar, (c.toNat % 16).digitChar] :=
        .cons (hdigit _ (by omega)) (.cons (hdigit _ (by omega)) plain_nil)
      have hzeros : Plain ['\\', 'u', '0', '0'] := by
        simp [Plain]
      exact hzeros.append hdigits d hd
    · rw [List.mem_singleton] at hd
      rw [hd]
      omega

private theorem plain_of_isNumChar {c : Char} (h : isNumChar c = true) : 0x20 ≤ c.toNat := by
  rw [isNumChar, Bool.or_eq_true, decide_eq_true_eq] at h
  obtain h | h := h
  · have hzero : '0'.toNat = 48 := rfl
    have hle := (Char.isDigit_iff_toNat.mp h).1
    omega
  · have hall : ∀ d ∈ ['-', '+', '.', 'e', 'E'], 0x20 ≤ d.toNat := by simp
    exact hall c h

/-- A layout without control characters. -/
structure Layout.OnOneLine (L : Layout) : Prop where
  escape : ∀ c, Plain (L.escape c)
  gap : ∀ d, Plain (L.gap d)
  afterColon : Plain L.afterColon

section OneLine

variable {L : Layout} (hL : L.OnOneLine)

include hL

theorem Layout.OnOneLine.printString (s : String) : Plain (L.printString s) := by
  refine .cons (by decide) (.append ?_ (.cons (by decide) plain_nil))
  intro d hd
  obtain ⟨c, -, hd⟩ := List.mem_flatMap.mp hd
  exact hL.escape c d hd

mutual

theorem plain_printWith : ∀ (v : Json) (d : ℕ), Plain (printWith L v d)
  | null, _ | bool true, _ | bool false, _ => by simp [Plain, printWith]
  | num n, _ => fun c hc => plain_of_isNumChar (n.chars c hc)
  | str s, _ => hL.printString s
  | arr [], _ | obj [], _ => by simp [Plain, printWith]
  | arr (v :: vs), d => .cons (by decide) (.append (plain_printElementsWith (v :: vs) (d + 1))
      (.append (hL.gap d) (.cons (by decide) plain_nil)))
  | obj (f :: fs), d => .cons (by decide) (.append (plain_printFieldsWith (f :: fs) (d + 1))
      (.append (hL.gap d) (.cons (by decide) plain_nil)))

private theorem plain_printElementsWith :
    ∀ (vs : List Json) (d : ℕ), Plain (printElementsWith L vs d)
  | [], _ => plain_nil
  | [v], d => .append (hL.gap d) (plain_printWith v d)
  | v :: w :: ws, d => .append (hL.gap d) (.append (plain_printWith v d)
      (.cons (by decide) (plain_printElementsWith (w :: ws) d)))

private theorem plain_printFieldsWith : ∀ (fs : List (String × Json)) (d : ℕ),
    Plain (printFieldsWith L fs d)
  | [], _ => plain_nil
  | [(k, v)], d => .append (hL.gap d) (.append (hL.printString k) (.cons (by decide)
      (.append hL.afterColon (plain_printWith v d))))
  | (k, v) :: g :: gs, d => .append (hL.gap d) (.append (hL.printString k) (.cons (by decide)
      (.append hL.afterColon (.append (plain_printWith v d) (.cons (by decide)
        (plain_printFieldsWith (g :: gs) d))))))

end

end OneLine

theorem compact_onOneLine : compact.OnOneLine := ⟨plain_escape, fun _ => plain_nil, plain_nil⟩

theorem plain_print (v : Json) : Plain (print v) :=
  print_eq_printWith v 0 ▸ plain_printWith compact_onOneLine v 0

end Json

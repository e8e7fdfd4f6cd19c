/-
# The size of what is read

A reader drops spaces and undoes escapes, so the strings and signs of what it
reads take no more bytes than the text. If they take as many, nothing has been
dropped or undone: every string stands in the text as it is.
-/

import Mathlib.Algebra.BigOperators.Group.List.Basic
import Mathlib.Algebra.GroupWithZero.Nat
import Commmon.Lib.JsonTokens

set_option autoImplicit false

namespace Json

/-- The number of bytes that a text is encoded in. -/
def weight (cs : List Char) : ℕ := (cs.map Char.utf8Size).sum

@[simp] theorem weight_nil : weight [] = 0 := rfl

@[simp] theorem weight_cons (c : Char) (cs : List Char) :
    weight (c :: cs) = c.utf8Size + weight cs := List.sum_cons

@[simp] theorem weight_append (cs ds : List Char) :
    weight (cs ++ ds) = weight cs + weight ds := by
  simp [weight]

theorem weight_le_of_sublist {cs ds : List Char} (h : cs.Sublist ds) : weight cs ≤ weight ds := by
  induction h with
  | slnil => exact le_rfl
  | cons c _ ih =>
      rw [weight_cons]
      omega
  | cons_cons c _ ih =>
      rw [weight_cons, weight_cons]
      omega

/-- A string takes two bytes for its quotes. -/
def Token.size : Token → ℕ
  | .text s => weight s.toList + 2
  | .sign c => c.utf8Size

def size (ts : List Token) : ℕ := (ts.map Token.size).sum

@[simp] theorem size_nil : size [] = 0 := rfl

@[simp] theorem size_cons (t : Token) (ts : List Token) : size (t :: ts) = t.size + size ts :=
  List.sum_cons

@[simp] theorem size_append (ts us : List Token) : size (ts ++ us) = size ts + size us := by
  simp [size]

@[simp] theorem size_signs (cs : List Char) : size (signs cs) = weight cs := by
  induction cs with
  | nil => rfl
  | cons c cs ih => exact congrArg (c.utf8Size + ·) ih

/-- Nothing in the string is escaped. -/
def Unescaped (cs : List Char) : Prop := ∀ c ∈ cs, c ≠ '"' ∧ c ≠ '\\' ∧ 0x20 ≤ c.toNat

/-- The tokens are read off the front of a text, and `rest` is left of it. -/
structure Reads (cs : List Char) (ts : List Token) (rest : List Char) : Prop where
  le : size ts + weight rest ≤ weight cs
  tight : size ts + weight rest = weight cs → ∀ s, .text s ∈ ts → Unescaped s.toList

namespace Reads

variable {cs mid rest : List Char} {ts us : List Token}

theorem nil (h : weight rest ≤ weight cs) : Reads cs [] rest :=
  ⟨by simpa using h, fun _ s hs => absurd hs List.not_mem_nil⟩

theorem append (h : Reads cs ts mid) (h' : Reads mid us rest) : Reads cs (ts ++ us) rest := by
  have hle := h.le
  have hle' := h'.le
  constructor
  · rw [size_append]
    omega
  · intro htight s hs
    rw [size_append] at htight
    obtain hs | hs := List.mem_append.mp hs
    · exact h.tight (by omega) s hs
    · exact h'.tight (by omega) s hs

private theorem of_signs {chars : List Char} (h : weight chars + weight rest ≤ weight cs) :
    Reads cs (signs chars) rest :=
  ⟨by rwa [size_signs], fun _ _ hs => absurd hs text_mem_signs⟩

end Reads

private theorem weight_skipSpace_le (cs : List Char) : weight (skipSpace cs) ≤ weight cs := by
  have h := congrArg weight (List.takeWhile_append_dropWhile (p := isSpace) (l := cs))
  rw [weight_append] at h
  rw [skipSpace]
  omega

private theorem reads_expect {c : Char} {cs rest : List Char} (h : expect c cs = some rest) :
    Reads cs [.sign c] rest := by
  have hle := weight_skipSpace_le cs
  unfold expect at h
  split at h
  · rename_i d rest' hskip
    split_ifs at h with hd
    obtain rfl := Option.some.inj h
    rw [hskip, hd, weight_cons] at hle
    have hsigns : weight [c] + weight rest' ≤ weight cs := by simpa using hle
    exact .of_signs hsigns
  · simp at h

private theorem utf8Size_ascii {c : Char} (hc : c.toNat < 0x80) : c.utf8Size = 1 := by
  rw [Char.utf8Size_eq_one_iff, UInt32.le_iff_toNat_le]
  exact Nat.le_of_lt_succ hc

private theorem weight_of_readHex {cs rest : List Char} {n : ℕ} (h : readHex cs = some (n, rest)) :
    weight rest + 4 ≤ weight cs := by
  unfold readHex at h
  split at h
  · rename_i a b c d rest'
    simp only [Option.bind_eq_bind, Option.bind_eq_some_iff, Option.some.injEq, Prod.mk.injEq] at h
    obtain ⟨-, -, -, -, -, -, -, -, -, rfl⟩ := h
    have ha := a.utf8Size_pos
    have hb := b.utf8Size_pos
    have hc := c.utf8Size_pos
    have hd := d.utf8Size_pos
    simp only [weight_cons]
    omega
  · simp at h

private theorem weight_of_readUnicode {cs rest : List Char} {c : Char}
    (h : readUnicode cs = some (c, rest)) : c.utf8Size + weight rest ≤ weight cs := by
  have hsize : ∀ d : Char, d.utf8Size ≤ 4 := Char.utf8Size_le_four
  unfold readUnicode at h
  split at h
  · simp at h
  · rename_i unit rest' hhex
    have hweight := weight_of_readHex hhex
    split_ifs at h
    · split at h
      · rename_i rest''
        split at h
        · rename_i low last hlow
          have hweight' := weight_of_readHex hlow
          split_ifs at h
          obtain ⟨rfl, rfl⟩ := Prod.mk.inj (Option.some.inj h)
          have hc := hsize (Char.ofNat (0x10000 + (unit - 0xD800) * 0x400 + (low - 0xDC00)))
          simp only [weight_cons] at hweight
          omega
        · simp at h
      · simp at h
    · obtain ⟨rfl, rfl⟩ := Prod.mk.inj (Option.some.inj h)
      have hc := hsize (Char.ofNat unit)
      omega

/-- With its backslash, an escape is longer than what it stands for. -/
theorem weight_of_readEscape {cs rest : List Char} {c : Char}
    (h : readEscape cs = some (c, rest)) : c.utf8Size + weight rest ≤ weight cs := by
  unfold readEscape at h
  split at h
  · simp at h
  · rename_i e tail
    have he := e.utf8Size_pos
    split_ifs at h
    · have hunicode := weight_of_readUnicode h
      rw [weight_cons]
      omega
    · obtain ⟨d, hlookup, hd⟩ := Option.map_eq_some_iff.mp h
      obtain ⟨rfl, rfl⟩ := Prod.mk.inj hd
      have hall : ∀ p ∈ unescapes, p.2.toNat < 0x80 := by decide
      obtain ⟨l, r, hsplit, -⟩ := List.lookup_eq_some_iff.mp hlookup
      have hsize : d.utf8Size = 1 := utf8Size_ascii (hall (e, d) (by rw [hsplit]; simp))
      rw [weight_cons]
      omega

/-- The end of a string, or a character that is no longer than its text and, if it
is as long, stands for itself. -/
theorem readChar_cases {cs rest : List Char} {next : Option Char}
    (h : readChar cs = some (next, rest)) :
    (next = none ∧ 1 + weight rest ≤ weight cs) ∨
      ∃ c, next = some c ∧ c.utf8Size + weight rest ≤ weight cs ∧
        (c.utf8Size + weight rest = weight cs → c ≠ '"' ∧ c ≠ '\\' ∧ 0x20 ≤ c.toNat) := by
  unfold readChar at h
  split at h
  · simp at h
  · rename_i c tail
    have hc := c.utf8Size_pos
    split_ifs at h with hquote hslash hcontrol
    · obtain ⟨rfl, rfl⟩ := Prod.mk.inj (Option.some.inj h)
      refine Or.inl ⟨rfl, ?_⟩
      rw [weight_cons]
      omega
    · obtain ⟨⟨d, rest'⟩, hescape, hd⟩ := Option.map_eq_some_iff.mp h
      obtain ⟨rfl, rfl⟩ := Prod.mk.inj hd
      have hweight := weight_of_readEscape hescape
      rw [weight_cons]
      refine Or.inr ⟨d, rfl, by omega, fun htight => ?_⟩
      omega
    · obtain ⟨rfl, rfl⟩ := Prod.mk.inj (Option.some.inj h)
      exact Or.inr ⟨c, rfl, (weight_cons c tail).ge, fun _ =>
        ⟨hquote, hslash, Nat.not_lt.mp hcontrol⟩⟩

private theorem readString_weight : ∀ {fuel : ℕ} {cs s rest : List Char},
    readString fuel cs = some (s, rest) → weight s + 1 + weight rest ≤ weight cs ∧
      (weight s + 1 + weight rest = weight cs → Unescaped s)
  | 0, cs, s, rest, h => by simp [readString] at h
  | fuel + 1, cs, s, rest, h => by
      unfold readString at h
      split at h
      · simp at h
      · rename_i rest' hchar
        obtain ⟨rfl, rfl⟩ := Prod.mk.inj (Option.some.inj h)
        obtain ⟨-, hle⟩ | ⟨c, hc, -⟩ := readChar_cases hchar
        · exact ⟨by simpa using hle, fun _ c hc => absurd hc List.not_mem_nil⟩
        · simp at hc
      · rename_i c rest' hchar
        obtain ⟨⟨s', rest''⟩, hstring, hs⟩ := Option.map_eq_some_iff.mp h
        obtain ⟨rfl, rfl⟩ := Prod.mk.inj hs
        obtain ⟨hle, htight⟩ := readString_weight hstring
        obtain ⟨hc, -⟩ | ⟨d, hc, hdle, hdtight⟩ := readChar_cases hchar
        · simp at hc
        · obtain rfl := Option.some.inj hc
          rw [weight_cons]
          refine ⟨by omega, fun heq => List.forall_mem_cons.mpr ⟨hdtight (by omega), ?_⟩⟩
          exact htight (by omega)

private theorem reads_string {fuel : ℕ} {cs s rest : List Char}
    (h : readString fuel cs = some (s, rest)) : Reads ('"' :: cs) [.text (.ofList s)] rest := by
  obtain ⟨hle, htight⟩ := readString_weight h
  have hquote : '"'.utf8Size = 1 := by decide
  constructor
  · simp only [size_cons, size_nil, Token.size, String.toList_ofList, weight_cons]
    omega
  · intro heq t ht
    obtain rfl := Token.text.inj (List.mem_singleton.mp ht)
    simp only [size_cons, size_nil, Token.size, String.toList_ofList, weight_cons] at heq ⊢
    exact htight (by omega)

/-- A quote and the string after it. -/
theorem reads_quoted {fuel : ℕ} {cs s rest : List Char}
    (h : (expect '"' cs).bind (readString fuel) = some (s, rest)) :
    Reads cs [.text (.ofList s)] rest := by
  obtain ⟨mid, hquote, hstring⟩ := Option.bind_eq_some_iff.mp h
  have hopen := (reads_expect hquote).le
  have hreads := reads_string hstring
  simp only [size_cons, size_nil, Token.size] at hopen
  constructor
  · have hle := hreads.le
    rw [weight_cons] at hle
    omega
  · intro heq
    apply hreads.tight
    have hle := hreads.le
    rw [weight_cons] at hle ⊢
    omega

private theorem reads_number {cs rest : List Char} {n : NumLit}
    (h : readNumber cs = some (n, rest)) :
    Reads cs (signs n.text) rest := by
  unfold readNumber at h
  split_ifs at h
  obtain ⟨rfl, rfl⟩ := Prod.mk.inj (Option.some.inj h)
  have hsplit := congrArg weight (List.takeWhile_append_dropWhile (p := isNumChar) (l := cs))
  rw [weight_append] at hsplit
  exact .of_signs hsplit.le

private theorem reads_word {word cs rest : List Char} {v w : Json} (hv : tokens v = signs word)
    (h : readWord word v cs = some (w, rest)) : Reads cs (tokens w) rest := by
  unfold readWord at h
  split_ifs at h with hword
  obtain ⟨rfl, rfl⟩ := Prod.mk.inj (Option.some.inj h)
  obtain ⟨rest, rfl⟩ := List.isPrefixOf_iff_prefix.mp hword
  rw [hv, List.drop_left]
  exact .of_signs (weight_append _ _).ge

/-- Spaces before what is read do not matter. -/
theorem Reads.of_skipSpace {cs rest : List Char} {ts : List Token}
    (h : Reads (skipSpace cs) ts rest) : Reads cs ts rest :=
  (Reads.nil (weight_skipSpace_le cs)).append h

private theorem reads_sign (c : Char) (cs : List Char) : Reads (c :: cs) [.sign c] cs := by
  have hsigns : weight [c] + weight cs ≤ weight (c :: cs) := by simp
  exact .of_signs hsigns

private theorem elementTokens_cons {v : Json} : ∀ {vs : List Json}, vs ≠ [] →
    elementTokens (v :: vs) = tokens v ++ .sign ',' :: elementTokens vs
  | [], h => absurd rfl h
  | _ :: _, _ => rfl

private theorem fieldTokens_cons {f : String × Json} : ∀ {fs : List (String × Json)}, fs ≠ [] →
    fieldTokens (f :: fs) = .text f.1 :: .sign ':' :: (tokens f.2 ++ .sign ',' :: fieldTokens fs)
  | [], h => absurd rfl h
  | _ :: _, _ => rfl

/-- At least one element is read. -/
theorem ne_nil_of_readElements {fuel : ℕ} {cs rest : List Char} {xs : List Json}
    (h : readElements fuel cs = some (xs, rest)) : xs ≠ [] := by
  cases fuel with
  | zero => simp [readElements] at h
  | succ fuel =>
      unfold readElements at h
      split at h
      · simp at h
      · split at h
        all_goals
          obtain ⟨_, -, hx⟩ := Option.map_eq_some_iff.mp h
          exact (Prod.mk.inj hx).1 ▸ List.cons_ne_nil _ _

theorem ne_nil_of_readFields {fuel : ℕ} {cs rest : List Char} {fields : List (String × Json)}
    (h : readFields fuel cs = some (fields, rest)) : fields ≠ [] := by
  cases fuel with
  | zero => simp [readFields] at h
  | succ fuel =>
      unfold readFields at h
      split at h
      · simp at h
      · split at h
        · simp at h
        · split at h
          all_goals
            obtain ⟨_, -, hx⟩ := Option.map_eq_some_iff.mp h
            exact (Prod.mk.inj hx).1 ▸ List.cons_ne_nil _ _

mutual

private theorem reads_value : ∀ {fuel : ℕ} {cs rest : List Char} {v : Json},
    readValue fuel cs = some (v, rest) → Reads cs (tokens v) rest
  | 0, cs, rest, v, h => by simp [readValue] at h
  | fuel + 1, cs, rest, v, h => by
      unfold readValue at h
      apply Reads.of_skipSpace
      split at h
      · simp at h
      · rename_i c tail hskip
        rw [hskip]
        split_ifs at h with hquote hbracket hbrace hn ht hf
        · obtain ⟨⟨s, rest'⟩, hstring, hs⟩ := Option.map_eq_some_iff.mp h
          obtain ⟨rfl, rfl⟩ := Prod.mk.inj hs
          exact hquote ▸ reads_string hstring
        · subst hbracket
          split at h
          · rename_i rest' hclose
            obtain ⟨rfl, rfl⟩ := Prod.mk.inj (Option.some.inj h)
            exact (reads_sign '[' tail).append (reads_expect hclose)
          · obtain ⟨⟨xs, rest'⟩, helements, hx⟩ := Option.map_eq_some_iff.mp h
            obtain ⟨rfl, rfl⟩ := Prod.mk.inj hx
            exact (reads_sign '[' tail).append (reads_elements helements)
        · subst hbrace
          split at h
          · rename_i rest' hclose
            obtain ⟨rfl, rfl⟩ := Prod.mk.inj (Option.some.inj h)
            exact (reads_sign '\x7b' tail).append (reads_expect hclose)
          · obtain ⟨⟨fields, rest'⟩, hfields, hx⟩ := Option.map_eq_some_iff.mp h
            obtain ⟨rfl, rfl⟩ := Prod.mk.inj hx
            exact (reads_sign '\x7b' tail).append (reads_fields hfields)
        · exact reads_word rfl h
        · exact reads_word rfl h
        · exact reads_word rfl h
        · obtain ⟨⟨n, rest'⟩, hnumber, hx⟩ := Option.map_eq_some_iff.mp h
          obtain ⟨rfl, rfl⟩ := Prod.mk.inj hx
          exact reads_number hnumber

private theorem reads_elements : ∀ {fuel : ℕ} {cs rest : List Char} {xs : List Json},
    readElements fuel cs = some (xs, rest) → Reads cs (elementTokens xs ++ [.sign ']']) rest
  | 0, cs, rest, xs, h => by simp [readElements] at h
  | fuel + 1, cs, rest, xs, h => by
      unfold readElements at h
      split at h
      · simp at h
      · rename_i v mid hvalue
        have hv := reads_value hvalue
        split at h
        · rename_i mid' hcomma
          obtain ⟨⟨ys, rest'⟩, helements, hx⟩ := Option.map_eq_some_iff.mp h
          obtain ⟨rfl, rfl⟩ := Prod.mk.inj hx
          rw [elementTokens_cons (ne_nil_of_readElements helements), List.append_assoc]
          exact hv.append ((reads_expect hcomma).append (reads_elements helements))
        · obtain ⟨rest', hclose, hx⟩ := Option.map_eq_some_iff.mp h
          obtain ⟨rfl, rfl⟩ := Prod.mk.inj hx
          exact hv.append (reads_expect hclose)

private theorem reads_fields : ∀ {fuel : ℕ} {cs rest : List Char} {fields : List (String × Json)},
    readFields fuel cs = some (fields, rest) → Reads cs (fieldTokens fields ++ [.sign '}']) rest
  | 0, cs, rest, fields, h => by simp [readFields] at h
  | fuel + 1, cs, rest, fields, h => by
      unfold readFields at h
      split at h
      · simp at h
      · rename_i k mid hkey
        have hk := reads_quoted hkey
        split at h
        · simp at h
        · rename_i v mid' hcolon
          obtain ⟨mid'', hcolon, hvalue⟩ := Option.bind_eq_some_iff.mp hcolon
          have hkv := hk.append ((reads_expect hcolon).append (reads_value hvalue))
          split at h
          · rename_i last hcomma
            obtain ⟨⟨fs, rest'⟩, hfields, hx⟩ := Option.map_eq_some_iff.mp h
            obtain ⟨rfl, rfl⟩ := Prod.mk.inj hx
            have hall := hkv.append ((reads_expect hcomma).append (reads_fields hfields))
            rw [fieldTokens_cons (ne_nil_of_readFields hfields)]
            simpa using hall
          · obtain ⟨rest', hclose, hx⟩ := Option.map_eq_some_iff.mp h
            obtain ⟨rfl, rfl⟩ := Prod.mk.inj hx
            have hall := hkv.append (reads_expect hclose)
            simpa [fieldTokens] using hall

end

/-- The size of what is read. It is at most that of the text, and if it is the
same then no string has been escaped. -/
theorem reads_parse {cs : List Char} {v : Json} (h : parse cs = some v) :
    Reads cs (tokens v) [] := by
  unfold parse at h
  split at h
  · rename_i w rest hvalue
    split_ifs at h
    obtain rfl := Option.some.inj h
    have hrest : Reads rest [] [] := .nil (Nat.zero_le _)
    simpa using (reads_value hvalue).append hrest
  · simp at h

theorem parse_nil : parse [] = none := by decide

/-- What begins with a brace is an object. -/
theorem exists_fields_of_parse {tail : List Char} {v : Json}
    (h : parse ('{' :: tail) = some v) : ∃ fields, v = .obj fields := by
  unfold parse at h
  split at h
  · rename_i w rest hvalue
    split_ifs at h
    obtain rfl := Option.some.inj h
    have hskip : skipSpace ('{' :: tail) = '{' :: tail := by simp [skipSpace, isSpace]
    rw [readValue, hskip] at hvalue
    simp only [Char.reduceEq, if_true, if_false] at hvalue
    split at hvalue
    · exact ⟨[], (Prod.mk.inj (Option.some.inj hvalue)).1.symm⟩
    · obtain ⟨⟨fields, rest'⟩, -, hx⟩ := Option.map_eq_some_iff.mp hvalue
      exact ⟨fields, (Prod.mk.inj hx).1.symm⟩
  · simp at h

/-- The bytes of a field: its key in quotes, a colon and its value. -/
def fieldSize (f : String × Json) : ℕ := weight f.1.toList + 3 + size (tokens f.2)

private theorem size_fieldTokens_cons (f : String × Json) (fs : List (String × Json)) :
    size (fieldTokens (f :: fs)) =
      fieldSize f + (if fs = [] then 0 else 1 + size (fieldTokens fs)) := by
  have hcolon : ':'.utf8Size = 1 := by decide
  have hcomma : ','.utf8Size = 1 := by decide
  cases fs with
  | nil => simp [fieldTokens, fieldSize, Token.size, hcolon]; omega
  | cons g fs =>
      simp only [fieldTokens, fieldSize, Token.size, hcolon, hcomma, size_cons, size_append,
        if_neg (List.cons_ne_nil g fs)]
      omega

theorem fieldSize_le_of_mem {f : String × Json} : ∀ {fields : List (String × Json)}, f ∈ fields →
    fieldSize f ≤ size (fieldTokens fields)
  | g :: fs, h => by
      rw [size_fieldTokens_cons]
      obtain rfl | h := List.mem_cons.mp h
      · exact Nat.le_add_right _ _
      · have hrec := fieldSize_le_of_mem h
        rw [if_neg (List.ne_nil_of_mem h)]
        omega

/-- Two fields take a comma between them. -/
theorem fieldSize_add_le_of_mem {f g : String × Json} (hne : f ≠ g) :
    ∀ {fields : List (String × Json)}, f ∈ fields → g ∈ fields →
      fieldSize f + 1 + fieldSize g ≤ size (fieldTokens fields)
  | x :: fs, hf, hg => by
      rw [size_fieldTokens_cons]
      obtain rfl | hf' := List.mem_cons.mp hf
      · have hg' := (List.mem_cons.mp hg).resolve_left hne.symm
        have hle := fieldSize_le_of_mem hg'
        rw [if_neg (List.ne_nil_of_mem hg')]
        omega
      · rw [if_neg (List.ne_nil_of_mem hf')]
        obtain rfl | hg' := List.mem_cons.mp hg
        · have hle := fieldSize_le_of_mem hf'
          omega
        · have hrec := fieldSize_add_le_of_mem hne hf' hg'
          omega

theorem size_tokens_obj (fields : List (String × Json)) :
    size (tokens (.obj fields)) = 2 + size (fieldTokens fields) := by
  have hopen : '\x7b'.utf8Size = 1 := by decide
  have hclose : '\x7d'.utf8Size = 1 := by decide
  simp only [tokens, size_cons, size_append, size_nil, Token.size, hopen, hclose]
  omega

end Json

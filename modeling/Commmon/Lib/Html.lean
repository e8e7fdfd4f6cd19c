/-
# Text in HTML

Where a page is put together from strings, a text must not be taken for markup. This
is the part of the tokenizer that decides it: a `<` begins a tag, which goes on to
the next `>`, and a reference stands for its character. Newlines are normalized
first, and a null character is dropped.

Of the references it has the three that escaping makes. Another name is given back
as it stands, which differs from a browser only for texts that are not escaped.
-/

import Mathlib.Data.List.Basic

set_option autoImplicit false

namespace Commmon

namespace Html

inductive Token
  | char (c : Char)
  | tag (body : List Char)
  deriving DecidableEq

/-- Where the tokenizer stands. What has been read of a reference or a tag is kept. -/
inductive State
  | data
  | reference (read : List Char)
  | tag (read : List Char)
  deriving DecidableEq

/-- The character that a reference stands for, by its name. -/
def references : List (List Char × Char) :=
  [(['a', 'm', 'p'], '&'), (['l', 't'], '<'), (['g', 't'], '>')]

/-- A character outside of tags and references. -/
def stepData (c : Char) : State × List Token :=
  if c = '<' then (.tag [], [])
  else if c = '&' then (.reference [], [])
  else if c = Char.ofNat 0 then (.data, [])
  else (.data, [.char c])

/-- A reference that was not one. -/
def giveBack (read : List Char) : List Token := ('&' :: read).map .char

def step : State → Char → State × List Token
  | .data, c => stepData c
  | .reference read, c =>
      if c = ';' then
        match references.lookup read with
        | some d => (.data, [.char d])
        | none => (.data, giveBack (read ++ [c]))
      else if c.isAlphanum then (.reference (read ++ [c]), [])
      else ((stepData c).1, giveBack read ++ (stepData c).2)
  | .tag read, c => if c = '>' then (.data, [.tag read]) else (.tag (read ++ [c]), [])

/-- Tokenize from a state on. A tag that is not closed is dropped. -/
def tokensFrom : State → List Char → List Token
  | .data, [] => []
  | .reference read, [] => giveBack read
  | .tag _, [] => []
  | s, c :: cs => (step s c).2 ++ tokensFrom (step s c).1 cs

/-- A carriage return is a line feed, and so is one with the line feed after it. -/
def normalizeFrom : Bool → List Char → List Char
  | _, [] => []
  | afterReturn, c :: cs =>
      if c = '\r' then '\n' :: normalizeFrom true cs
      else if afterReturn ∧ c = '\n' then normalizeFrom false cs
      else c :: normalizeFrom false cs

def normalize (text : List Char) : List Char := normalizeFrom false text

def tokens (html : List Char) : List Token := tokensFrom .data (normalize html)

/-- What is to be seen of a text. -/
def shown (text : List Char) : List Char := (normalize text).filter (· ≠ Char.ofNat 0)

def escapeChar (c : Char) : List Char :=
  if c = '&' then ['&', 'a', 'm', 'p', ';']
  else if c = '<' then ['&', 'l', 't', ';']
  else if c = '>' then ['&', 'g', 't', ';']
  else [c]

def escape (text : List Char) : List Char := text.flatMap escapeChar

/-- `replace` of every occurrence of a character. -/
def replaceAll (c : Char) (word : List Char) (text : List Char) : List Char :=
  text.flatMap fun d => if d = c then word else [d]

theorem replaceAll_cons (c : Char) (word : List Char) (d : Char) (text : List Char) :
    replaceAll c word (d :: text) = (if d = c then word else [d]) ++ replaceAll c word text :=
  rfl

theorem replaceAll_append (c : Char) (word xs ys : List Char) :
    replaceAll c word (xs ++ ys) = replaceAll c word xs ++ replaceAll c word ys :=
  List.flatMap_append

/-- The ampersands are replaced first, so that no replacement is replaced again. -/
theorem escape_eq_replaceAll (text : List Char) :
    escape text = replaceAll '>' ['&', 'g', 't', ';'] (replaceAll '<' ['&', 'l', 't', ';']
      (replaceAll '&' ['&', 'a', 'm', 'p', ';'] text)) := by
  induction text with
  | nil => rfl
  | cons c text ih =>
      rw [replaceAll_cons, replaceAll_append, replaceAll_append, ← ih]
      refine congrArg (· ++ escape text) ?_
      unfold escapeChar
      by_cases hamp : c = '&'
      · simp [hamp, replaceAll]
      by_cases hlt : c = '<'
      · simp [hlt, replaceAll]
      by_cases hgt : c = '>'
      · simp [hgt, replaceAll]
      · simp [hamp, hlt, hgt, replaceAll]

theorem escape_cons (c : Char) (text : List Char) :
    escape (c :: text) = escapeChar c ++ escape text := rfl

theorem normalizeFrom_append {xs ys : List Char} (hys : ys.head? ≠ some '\n') :
    ∀ b, normalizeFrom b (xs ++ ys) = normalizeFrom b xs ++ normalizeFrom false ys := by
  have hstart : ∀ b, normalizeFrom b ys = normalizeFrom false ys := by
    intro b
    cases ys with
    | nil => rfl
    | cons y ys =>
        have hne : y ≠ '\n' := fun h => hys (by rw [h]; rfl)
        simp [normalizeFrom, hne]
  induction xs with
  | nil =>
      intro b
      rw [List.nil_append, hstart]
      rfl
  | cons x xs ih =>
      intro b
      rw [List.cons_append]
      simp only [normalizeFrom]
      split_ifs
      · rw [ih, List.cons_append]
      · exact ih false
      · rw [ih, List.cons_append]

/-- Characters that end no line stay. -/
theorem normalizeFrom_plain {xs : List Char} (h : ∀ c ∈ xs, c ≠ '\r' ∧ c ≠ '\n')
    (hne : xs ≠ []) (ys : List Char) :
    ∀ b, normalizeFrom b (xs ++ ys) = xs ++ normalizeFrom false ys := by
  induction xs with
  | nil => exact absurd rfl hne
  | cons x xs ih =>
      intro b
      obtain ⟨⟨hreturn, hfeed⟩, hrest⟩ := List.forall_mem_cons.mp h
      rw [List.cons_append, normalizeFrom, if_neg hreturn, if_neg fun h => hfeed h.2]
      cases xs with
      | nil => rfl
      | cons y xs =>
          rw [ih hrest (List.cons_ne_nil _ _)]
          rfl

/-- Escaping does not touch the ends of lines. -/
theorem normalizeFrom_escape (text : List Char) :
    ∀ b, normalizeFrom b (escape text) = escape (normalizeFrom b text) := by
  induction text with
  | nil => exact fun b => rfl
  | cons c text ih =>
      intro b
      rw [escape_cons]
      by_cases hreturn : c = '\r'
      · subst hreturn
        exact congrArg ('\n' :: ·) (ih true)
      by_cases hfeed : c = '\n'
      · subst hfeed
        cases b with
        | false => exact congrArg ('\n' :: ·) (ih false)
        | true => exact ih false
      · have hplain : ∀ d ∈ escapeChar c, d ≠ '\r' ∧ d ≠ '\n' := by
          unfold escapeChar
          split_ifs
          · simp
          · simp
          · simp
          · exact List.forall_mem_singleton.mpr ⟨hreturn, hfeed⟩
        have hne : escapeChar c ≠ [] := by
          unfold escapeChar
          split_ifs <;> exact List.cons_ne_nil _ _
        rw [normalizeFrom_plain hplain hne, ih, normalizeFrom, if_neg hreturn,
          if_neg fun h => hfeed h.2, escape_cons]

/-- The characters of a text as tokens. -/
def charTokens (text : List Char) : List Token := (text.filter (· ≠ Char.ofNat 0)).map .char

/-- An escaped character stands for itself. -/
theorem tokensFrom_escapeChar (c : Char) (rest : List Char) :
    tokensFrom .data (escapeChar c ++ rest) = charTokens [c] ++ tokensFrom .data rest := by
  unfold escapeChar
  split_ifs with hamp hlt hgt
  · subst hamp
    rfl
  · subst hlt
    rfl
  · subst hgt
    rfl
  · rw [List.singleton_append, tokensFrom, step, stepData, if_neg hlt, if_neg hamp]
    split_ifs with hnull
    · simp [charTokens, hnull]
    · simp [charTokens, hnull]

/-- What is escaped is text, whatever it is. -/
theorem tokensFrom_escape (text rest : List Char) :
    tokensFrom .data (escape text ++ rest) = charTokens text ++ tokensFrom .data rest := by
  induction text with
  | nil => rfl
  | cons c text ih =>
      rw [escape_cons, List.append_assoc, tokensFrom_escapeChar, ih, ← List.append_assoc]
      refine congrArg (· ++ tokensFrom .data rest) ?_
      rw [charTokens, charTokens, charTokens, ← List.map_append, ← List.filter_append]
      rfl

/-- So is what needs no escaping. -/
theorem escape_of_plain {text : List Char} (h : ∀ c ∈ text, c ≠ '<' ∧ c ≠ '>' ∧ c ≠ '&') :
    escape text = text := by
  induction text with
  | nil => rfl
  | cons c text ih =>
      obtain ⟨⟨hlt, hgt, hamp⟩, hrest⟩ := List.forall_mem_cons.mp h
      rw [escape_cons, ih hrest, escapeChar, if_neg hamp, if_neg hlt, if_neg hgt]
      rfl

private theorem tokensFrom_tagBody {body : List Char} (h : '>' ∉ body) (rest : List Char) :
    ∀ read, tokensFrom (.tag read) (body ++ '>' :: rest) =
      .tag (read ++ body) :: tokensFrom .data rest := by
  induction body with
  | nil =>
      intro read
      rw [List.append_nil]
      rfl
  | cons c body ih =>
      intro read
      obtain ⟨hc, hbody⟩ := not_or.mp (fun h' => h (List.mem_cons.mpr h'))
      rw [List.cons_append, tokensFrom, step, if_neg (Ne.symm hc), ih hbody, List.append_assoc]
      rfl

private theorem tokensFrom_tag {body : List Char} (h : '>' ∉ body) (rest : List Char) :
    tokensFrom .data ('<' :: (body ++ '>' :: rest)) = .tag body :: tokensFrom .data rest :=
  tokensFrom_tagBody h rest []

/-- Texts, each with a tag after it. -/
def render : List (List Char × List Char) → List Char
  | [] => []
  | (text, body) :: pieces => escape text ++ (('<' :: (body ++ ['>'])) ++ render pieces)

/-- A tag that can stand in a template. -/
def IsTag (body : List Char) : Prop := ∀ c ∈ body, c ≠ '>' ∧ c ≠ '\r' ∧ c ≠ '\n'

instance : DecidablePred IsTag := fun body => List.decidableBAll _ body

theorem normalize_render {pieces : List (List Char × List Char)}
    (h : ∀ p ∈ pieces, IsTag p.2) :
    normalize (render pieces) = render (pieces.map fun p => (normalize p.1, p.2)) := by
  induction pieces with
  | nil => rfl
  | cons p pieces ih =>
      obtain ⟨hp, hrest⟩ := List.forall_mem_cons.mp h
      have hplain : ∀ c ∈ '<' :: (p.2 ++ ['>']), c ≠ '\r' ∧ c ≠ '\n' := by
        refine List.forall_mem_cons.mpr ⟨by decide, List.forall_mem_append.mpr ⟨?_, by simp⟩⟩
        exact fun c hc => (hp c hc).2
      have hhead : (('<' :: (p.2 ++ ['>'])) ++ render pieces).head? ≠ some '\n' := by simp
      rw [render, normalize, normalizeFrom_append hhead, normalizeFrom_escape,
        normalizeFrom_plain hplain (List.cons_ne_nil _ _)]
      exact congrArg (fun html => escape (normalize p.1) ++ (('<' :: (p.2 ++ ['>'])) ++ html))
        (ih hrest)

/-- The tags of a template are those that it was made of, whatever the texts are. -/
theorem tokens_render {pieces : List (List Char × List Char)} (h : ∀ p ∈ pieces, IsTag p.2) :
    tokens (render pieces) = pieces.flatMap fun p => (shown p.1).map .char ++ [.tag p.2] := by
  have hall : ∀ qs : List (List Char × List Char), (∀ q ∈ qs, IsTag q.2) →
      tokensFrom .data (render qs) = qs.flatMap fun q => charTokens q.1 ++ [.tag q.2] := by
    intro qs
    induction qs with
    | nil => exact fun _ => rfl
    | cons q qs ih =>
        intro hqs
        obtain ⟨hq, hrest⟩ := List.forall_mem_cons.mp hqs
        have hclose : '>' ∉ q.2 := fun hmem => (hq _ hmem).1 rfl
        rw [render, tokensFrom_escape, List.cons_append, List.append_assoc, List.singleton_append,
          tokensFrom_tag hclose, ih hrest, List.flatMap_cons, List.append_assoc]
        rfl
  rw [tokens, normalize_render h, hall]
  · rw [List.flatMap_map]
    rfl
  · intro q hq
    obtain ⟨p, hp, rfl⟩ := List.mem_map.mp hq
    exact h p hp

end Html

end Commmon

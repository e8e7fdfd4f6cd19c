/-
# The options of a log command

The options are read by index. A pass of the loop goes on by one word or, where an
option takes the word after it, by two, so what a word means depends on the words
before it. A value is taken as it stands, whatever it looks like.
-/

import Commmon.Repl

set_option autoImplicit false

namespace Commmon

namespace Repl

/-- One pass of the loop, at a word that is there: the next index, and the
arguments. -/
def flagPass (flags : List String) (i : ℕ) (fields : List (String × Value)) :
    Option (ℕ × List (String × Value)) :=
  match flags[i]? with
  | none => none
  | some "--duration" =>
      match flags[i + 1]?.bind (parseUnsigned UInt64.size) with
      | some val => some (i + 2, setField fields "duration" (.number (.posInt val)))
      | none => some (i + 1, fields)
  | some "--keyword" =>
      match flags[i + 1]? with
      | some val => some (i + 2, setField fields "stopKeyword" (.string val))
      | none => some (i + 1, fields)
  | some "--file" =>
      match flags[i + 1]? with
      | some val => some (i + 2, setField fields "filePath" (.string val))
      | none => some (i + 1, fields)
  | some _ => some (i + 1, fields)

/-- The loop from an index on, for so many passes at most. It has no answer if it
reads past the end, or if the passes do not suffice. -/
def flagLoop (flags : List String) :
    ℕ → ℕ → List (String × Value) → Option (List (String × Value))
  | 0, _, _ => none
  | passes + 1, i, fields =>
      if i < flags.length then
        (flagPass flags i fields).bind fun r => flagLoop flags passes r.1 r.2
      else some fields

/-- `parse_log_flags`. -/
def parseLogFlags (flags : List String) (fields : List (String × Value)) :
    Option (List (String × Value)) :=
  flagLoop flags (flags.length + 1) 0 fields

/-- An option with its value, or a word that is no option. -/
inductive FlagSegment
  | duration (word : String) (n : ℕ) (hword : parseUnsigned UInt64.size word = some n)
  | keyword (word : String)
  | file (word : String)
  | other (word : String) (hword : word ∉ ["--duration", "--keyword", "--file"])

namespace FlagSegment

def words : FlagSegment → List String
  | duration word _ _ => ["--duration", word]
  | keyword word => ["--keyword", word]
  | file word => ["--file", word]
  | other word _ => [word]

/-- What an option says. -/
def field : FlagSegment → Option (String × Value)
  | duration _ n _ => some ("duration", .number (.posInt n))
  | keyword word => some ("stopKeyword", .string word)
  | file word => some ("filePath", .string word)
  | other _ _ => none

/-- The last value that the options give to a key. -/
def lastValue (segments : List FlagSegment) (key : String) : Option Value :=
  (segments.filterMap field).reverse.lookup key

end FlagSegment

/-- The word at a place, and what stands behind it. -/
theorem getElem?_of_drop {flags rest : List String} {word : String} {i : ℕ}
    (h : flags.drop i = word :: rest) :
    flags[i]? = some word ∧ flags.drop (i + 1) = rest ∧ i + 1 ≤ flags.length := by
  have hword : flags[i]? = some word := by
    rw [← List.head?_drop, h]
    rfl
  have hrest : flags.drop (i + 1) = rest := by
    rw [← List.tail_drop, h]
    rfl
  exact ⟨hword, hrest, (List.getElem?_eq_some_iff.mp hword).1⟩

/-- A pass at a word that is there goes on to a later place, at most the end, and
leaves the same to do for the words from there on. -/
theorem flagPass_eq_some {flags rest : List String} {word : String} {i : ℕ}
    (hdrop : flags.drop i = word :: rest) (fields : List (String × Value)) :
    ∃ j fields', flagPass flags i fields = some (j, fields') ∧ i < j ∧ j ≤ flags.length ∧
      logFlags (flags.drop i) fields = logFlags (flags.drop j) fields' := by
  obtain ⟨hword, hrest, hle⟩ := getElem?_of_drop hdrop
  cases rest with
  | nil =>
      have hnext : flags[i + 1]? = none := by
        rw [← List.head?_drop, hrest]
        rfl
      refine ⟨i + 1, fields, ?_, Nat.lt_succ_self i, hle, ?_⟩
      · simp only [flagPass, hword, hnext]
        split <;> simp_all
      · rw [hdrop, hrest]
        simp [logFlags]
  | cons val rest =>
      obtain ⟨hval, hrest₂, hle₂⟩ := getElem?_of_drop hrest
      by_cases hduration : word = "--duration"
      · subst hduration
        cases hn : parseUnsigned UInt64.size val with
        | none =>
            refine ⟨i + 1, fields, ?_, Nat.lt_succ_self i, hle, ?_⟩
            · simp [flagPass, hword, hval, hn]
            · rw [hdrop, hrest, logFlags, hn]
        | some n =>
            refine ⟨i + 2, setField fields "duration" (.number (.posInt n)), ?_, by omega, hle₂,
              ?_⟩
            · simp [flagPass, hword, hval, hn]
            · rw [hdrop, hrest₂, logFlags, hn]
      by_cases hkeyword : word = "--keyword"
      · subst hkeyword
        refine ⟨i + 2, setField fields "stopKeyword" (.string val), ?_, by omega, hle₂, ?_⟩
        · simp [flagPass, hword, hval]
        · rw [hdrop, hrest₂, logFlags]
      by_cases hfile : word = "--file"
      · subst hfile
        refine ⟨i + 2, setField fields "filePath" (.string val), ?_, by omega, hle₂, ?_⟩
        · simp [flagPass, hword, hval]
        · rw [hdrop, hrest₂, logFlags]
      · refine ⟨i + 1, fields, ?_, Nat.lt_succ_self i, hle, ?_⟩
        · simp [flagPass, hword]
        · rw [hdrop, hrest]
          simp [logFlags, hduration, hkeyword, hfile]

/-- The loop ends with what is left of the words read in order. -/
theorem flagLoop_eq_some {flags : List String} : ∀ {passes i : ℕ}
    (fields : List (String × Value)), i ≤ flags.length → flags.length < i + passes →
    flagLoop flags passes i fields = some (logFlags (flags.drop i) fields) := by
  intro passes
  induction passes with
  | zero => exact fun _ hi hpasses => absurd hpasses (Nat.not_lt.mpr hi)
  | succ passes ih =>
      intro i fields hi hpasses
      rw [flagLoop]
      split_ifs with hlt
      · obtain ⟨j, fields', hpass, hij, hj, hflags⟩ :=
          flagPass_eq_some (List.drop_eq_getElem_cons hlt) fields
        rw [hpass, Option.bind_some, hflags]
        exact ih fields' hj (by omega)
      · rw [List.drop_eq_nil_of_le (Nat.le_of_not_lt hlt), logFlags]

private theorem parseLogFlags_eq (flags : List String) (fields : List (String × Value)) :
    parseLogFlags flags fields = some (logFlags flags fields) := by
  rw [parseLogFlags, flagLoop_eq_some fields (Nat.zero_le _) (by omega), List.drop_zero]

/-- An option is read whole, whatever stands behind it. -/
theorem logFlags_segment (segment : FlagSegment) (rest : List String)
    (fields : List (String × Value)) :
    logFlags (segment.words ++ rest) fields =
      logFlags rest (segment.field.elim fields fun f => setField fields f.1 f.2) := by
  cases segment with
  | duration word n hword => simp [FlagSegment.words, FlagSegment.field, logFlags, hword]
  | keyword word => simp [FlagSegment.words, FlagSegment.field, logFlags]
  | file word => simp [FlagSegment.words, FlagSegment.field, logFlags]
  | other word hword =>
      simp only [List.mem_cons, List.not_mem_nil, or_false, not_or] at hword
      obtain ⟨hduration, hkeyword, hfile⟩ := hword
      simp [FlagSegment.words, FlagSegment.field, logFlags, hduration, hkeyword, hfile]

theorem lookup_setField (fields : List (String × Value)) (key k : String) (v : Value) :
    (setField fields key v).lookup k = if k = key then some v else fields.lookup k := by
  by_cases hk : k = key
  · simp [setField, hk]
  · have hfilter : (fields.filter fun f => f.1 ≠ key).lookup k = fields.lookup k := by
      induction fields with
      | nil => rfl
      | cons f fields ih =>
          by_cases hf : f.1 = key
          · rw [List.filter_cons_of_neg (by simp [hf]), List.lookup_cons,
              beq_false_of_ne (hf ▸ hk)]
            exact ih
          · rw [List.filter_cons_of_pos (by simp [hf]), List.lookup_cons, List.lookup_cons, ih]
    rw [setField, List.lookup_cons, beq_false_of_ne hk, if_neg hk]
    exact hfilter

private theorem lookup_logFlags_segments (segments : List FlagSegment)
    (fields : List (String × Value))
    (key : String) : (logFlags (segments.flatMap FlagSegment.words) fields).lookup key =
      (FlagSegment.lastValue segments key).or (fields.lookup key) := by
  induction segments generalizing fields with
  | nil => simp [FlagSegment.lastValue, logFlags]
  | cons segment segments ih =>
      rw [List.flatMap_cons, logFlags_segment, ih]
      unfold FlagSegment.lastValue
      cases hfield : segment.field with
      | none => rw [List.filterMap_cons_none hfield]; rfl
      | some f =>
          obtain ⟨k, v⟩ := f
          rw [List.filterMap_cons_some hfield, List.reverse_cons, List.lookup_append,
            Option.or_assoc]
          congr 1
          by_cases hkey : key = k
          · simp [lookup_setField, hkey]
          · simp [lookup_setField, List.lookup_cons, hkey, beq_false_of_ne hkey]

private theorem FlagSegment.lastValue_of_other {key : String}
    (hkey : key ∉ ["duration", "stopKeyword", "filePath"]) (segments : List FlagSegment) :
    lastValue segments key = none := by
  simp only [List.mem_cons, List.not_mem_nil, or_false, not_or] at hkey
  obtain ⟨hduration, hkeyword, hfile⟩ := hkey
  apply List.lookup_eq_none_iff.mpr
  intro f hf
  obtain ⟨segment, -, hfield⟩ := List.mem_filterMap.mp (List.mem_reverse.mp hf)
  cases segment <;> simp only [field, Option.some.injEq, reduceCtorEq] at hfield <;>
    subst hfield <;> simpa

/-- Options are read as they are written. Each option's last value is taken, the
other arguments stay, and there is always an answer. -/
theorem parseLogFlags_as_written :
    (∀ (segments : List FlagSegment) (fields : List (String × Value)), ∃ fields',
      parseLogFlags (segments.flatMap FlagSegment.words) fields = some fields' ∧
      (∀ key ∈ ["duration", "stopKeyword", "filePath"], fields'.lookup key =
        (FlagSegment.lastValue segments key).or (fields.lookup key)) ∧
      ∀ key ∉ ["duration", "stopKeyword", "filePath"],
        fields'.lookup key = fields.lookup key) ∧
    ∀ (flags : List String) (fields : List (String × Value)),
      (parseLogFlags flags fields).isSome = true := by
  constructor
  · intro segments fields
    refine ⟨_, parseLogFlags_eq _ fields, fun key _ => ?_, fun key hkey => ?_⟩
    · exact lookup_logFlags_segments segments fields key
    · rw [lookup_logFlags_segments, FlagSegment.lastValue_of_other hkey, Option.none_or]
  · intro flags fields
    rw [parseLogFlags_eq, Option.isSome_some]

end Repl

end Commmon

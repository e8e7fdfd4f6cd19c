/-
# The C++ client's parser

The C++ client has no JSON library. It looks for a key with its colon and the
opening quote of a string anywhere in a line, and undoes the escapes of what
follows one letter at a time. An escape that it does not know stands for its
letter, so of the control characters only the ones that it knows come through:
the line feed, the carriage return and the tab. The daemon writes every other one
as a `b`, an `f` or a `u` with four digits.

A `std::string` is a list of bytes here.
-/

import Commmon.Daemon
import Commmon.Lib.PatternSearch
import Commmon.Lib.Utf8Chunks
import Commmon.Wire

set_option autoImplicit false

namespace Commmon

open PatternSearch (OccursAt occurrences mem_occurrences)
open Utf8Lossy (encode)

namespace RxClient

/-- The bytes of a literal. -/
def bytes (s : String) : List UInt8 := encode s.toList

/-- `std::string::find` of a pattern that is not empty. -/
def find (text pattern : List UInt8) : Option ℕ := (occurrences pattern text).head?

/-- What a reader of `c_str()` sees. -/
def cStr (text : List UInt8) : List UInt8 := text.takeWhile (· ≠ 0)

/-- The byte that an escape stands for, by its letter. -/
def unescape (letter : UInt8) : UInt8 :=
  if letter = 0x22 then 0x22
  else if letter = 0x5C then 0x5C
  else if letter = 0x6E then 0x0A
  else if letter = 0x72 then 0x0D
  else if letter = 0x74 then 0x09
  else letter

/-- The loop of `ExtractJsonString`, up to the closing quote. A backslash that
ends the text stands for itself. -/
def unquote : List UInt8 → List UInt8
  | [] => []
  | [b] => if b = 0x22 then [] else [b]
  | b :: letter :: rest =>
      if b = 0x5C then unescape letter :: unquote rest
      else if b = 0x22 then []
      else b :: unquote (letter :: rest)

/-- The key with the quotes around it, the colon and the opening quote. -/
def keyPattern (key : String) : List UInt8 := 0x22 :: (bytes key ++ [0x22, 0x3A, 0x22])

theorem keyPattern_ne_nil (key : String) : keyPattern key ≠ [] := List.cons_ne_nil _ _

/-- `ExtractJsonString`. -/
def extractJsonString (json : List UInt8) (key : String) : List UInt8 :=
  match find json (keyPattern key) with
  | none => []
  | some start => unquote (json.drop (start + (keyPattern key).length))

/-- What a callback is given. -/
structure RxData where
  port : List UInt8
  timestamp : List UInt8
  ascii : List UInt8
  hex : List UInt8

/-- `ParseNotification`, with the arguments of the callback if there is a call. -/
def parseNotification (line : List UInt8) : Option RxData :=
  if find line (bytes "\"notify\"") = none then none
  else if find line (bytes "\"rx_data\"") = none then none
  else some {
    port := cStr (extractJsonString line "port")
    timestamp := cStr (extractJsonString line "timestamp")
    ascii := cStr (extractJsonString line "ascii")
    hex := cStr (extractJsonString line "hex") }

/-- The first occurrence is found where it ends the text so far. -/
theorem find_append {pattern text : List UInt8} (rest : List UInt8) (hpattern : pattern ≠ [])
    (hend : pattern <:+ text)
    (hfirst : ∀ i, i + pattern.length < text.length → ¬ OccursAt pattern text i) :
    find (text ++ rest) pattern = some (text.length - pattern.length) := by
  obtain ⟨before, rfl⟩ := hend
  have hlength : (before ++ pattern).length - pattern.length = before.length := by simp
  have hocc : OccursAt pattern (before ++ pattern ++ rest) before.length := by
    rw [OccursAt, List.append_assoc, List.drop_left]
    exact List.prefix_append _ _
  have hearlier : ∀ j, 0 ≤ j → j < before.length →
      ¬ OccursAt pattern (before ++ pattern ++ rest) j := by
    intro j _ hj hoccurs
    have hin : j + pattern.length < (before ++ pattern).length := by
      rw [List.length_append]
      omega
    exact hfirst j hin ((PatternSearch.occursAt_append_iff hin.le).mp hoccurs)
  have hall := PatternSearch.filter_le_occurrences_of_first hpattern (Nat.zero_le _) hocc hearlier
  simp only [Nat.zero_le, decide_true, List.filter_true] at hall
  rw [find, hall, hlength]
  rfl

/-- What is found stands there. -/
theorem exists_of_find {text pattern : List UInt8} (hpattern : pattern ≠ []) {start : ℕ}
    (h : find text pattern = some start) :
    ∃ before after, text = before ++ (pattern ++ after) ∧ before.length = start := by
  have hmem : start ∈ occurrences pattern text := List.mem_of_mem_head? h
  have hoccurs := (mem_occurrences hpattern).mp hmem
  have hle := hoccurs.add_length_le hpattern
  obtain ⟨after, hafter⟩ := hoccurs
  refine ⟨text.take start, after, ?_, ?_⟩
  · rw [hafter, List.take_append_drop]
  · rw [List.length_take]
    omega

private theorem find_ne_none_iff {text pattern : List UInt8} (hpattern : pattern ≠ []) :
    find text pattern ≠ none ↔ pattern <:+: text := by
  rw [find, ne_eq, List.head?_eq_none_iff]
  exact PatternSearch.occurrences_ne_nil_iff hpattern

/-- A pattern that stands in the front of a text is found. -/
theorem find_ne_none {pattern text rest : List UInt8} (hpattern : pattern ≠ [])
    (h : pattern <:+: text) : find (text ++ rest) pattern ≠ none :=
  (find_ne_none_iff hpattern).mpr (h.trans (List.prefix_append _ _).isInfix)

/-- In encoded text a pattern is found where the text has its characters. -/
theorem find_encode_ne_none_iff {cs pattern : List Char} (hpattern : pattern ≠ []) :
    find (encode cs) (encode pattern) ≠ none ↔ pattern <:+: cs := by
  have hne : encode pattern ≠ [] := by
    obtain ⟨c, pattern, rfl⟩ := List.exists_cons_of_ne_nil hpattern
    rw [Utf8Lossy.encode_cons]
    exact List.append_ne_nil_of_left_ne_nil (String.utf8EncodeChar_ne_nil) _
  rw [find_ne_none_iff hne]
  constructor
  · intro h
    exact Utf8Lossy.chars_encode cs ▸ Utf8Lossy.infix_chars h
  · rintro ⟨xs, ys, rfl⟩
    exact ⟨encode xs, encode ys, by simp only [Utf8Lossy.encode_append]⟩

private theorem extractJsonString_append {key : String} {text rest : List UInt8}
    (hend : keyPattern key <:+ text) (hfirst : ∀ i, i + (keyPattern key).length < text.length →
      ¬ OccursAt (keyPattern key) text i) :
    extractJsonString (text ++ rest) key = unquote rest := by
  have hfind := find_append rest (keyPattern_ne_nil key) hend hfirst
  have hdrop := Nat.sub_add_cancel hend.length_le
  simp only [extractJsonString, hfind, hdrop, List.drop_left]

/-- A character that the parser gets back: no control character, or one whose
escape it knows. -/
def Known (c : Char) : Prop := 0x20 ≤ c.toNat ∨ c = '\n' ∨ c = '\r' ∨ c = '\t'

instance : DecidablePred Known := fun _ => inferInstanceAs (Decidable (_ ∨ _))

/-- The first byte of such a character, or a byte within one. -/
def KnownByte (b : UInt8) : Prop := 0x20 ≤ b.toNat ∨ b = 0x0A ∨ b = 0x0D ∨ b = 0x09

instance : DecidablePred KnownByte := fun _ => inferInstanceAs (Decidable (_ ∨ _))

private theorem unquote_escape (letter : UInt8) (rest : List UInt8) :
    unquote (0x5C :: letter :: rest) = unescape letter :: unquote rest := by
  simp [unquote]

private theorem unquote_quote (rest : List UInt8) : unquote (0x22 :: rest) = [] := by
  cases rest <;> simp [unquote]

/-- Bytes that are neither a quote nor a backslash stand for themselves. -/
theorem unquote_plain {text rest : List UInt8} (h : ∀ b ∈ text, b ≠ 0x22 ∧ b ≠ 0x5C)
    (hrest : rest ≠ []) : unquote (text ++ rest) = text ++ unquote rest := by
  induction text with
  | nil => rfl
  | cons b text ih =>
      obtain ⟨⟨hquote, hslash⟩, htext⟩ := List.forall_mem_cons.mp h
      obtain ⟨c, more, hmore⟩ :=
        List.exists_cons_of_ne_nil (List.append_ne_nil_of_right_ne_nil text hrest)
      have hrec := ih htext
      rw [hmore] at hrec
      rw [List.cons_append, List.cons_append, hmore, unquote, if_neg hslash, if_neg hquote, hrec]

/-- Hexadecimal digits are plain. -/
theorem plain_digits : ∀ m < 2, ∀ n < 16, ∀ b ∈ encode ['u', '0', '0', m.digitChar, n.digitChar],
    b ≠ 0x22 ∧ b ≠ 0x5C ∧ KnownByte b := by
  decide +kernel

/-- Escapes of one letter. -/
theorem unescape_short : ∀ p ∈ Json.shortEscapes,
    encode ['\\', p.2] = [0x5C, UInt8.ofNat p.2.toNat] ∧
      KnownByte (unescape (UInt8.ofNat p.2.toNat)) ∧
      (Known p.1 → [unescape (UInt8.ofNat p.2.toNat)] = encode [p.1]) := by
  decide

/-- What the loop makes of one escaped character: something that it knows, and
the character itself if it knows that. -/
theorem unquote_escaped (c : Char) {rest : List UInt8} (hrest : rest ≠ []) :
    ∃ seen, unquote (encode (Json.escape c) ++ rest) = seen ++ unquote rest ∧
      (∀ b ∈ seen, KnownByte b) ∧ (Known c → seen = encode [c]) := by
  unfold Json.escape
  split
  · rename_i e hlookup
    have hmem : (c, e) ∈ Json.shortEscapes := by
      obtain ⟨l, r, h, -⟩ := List.lookup_eq_some_iff.mp hlookup
      rw [h]
      simp
    obtain ⟨hencode, hknown, hsame⟩ := unescape_short (c, e) hmem
    refine ⟨[unescape (UInt8.ofNat e.toNat)], ?_, by simpa using hknown, hsame⟩
    rw [hencode]
    exact unquote_escape _ _
  · rename_i hlookup
    split
    · rename_i hcontrol
      have hplain := plain_digits (c.toNat / 16) (by omega) (c.toNat % 16) (by omega)
      refine ⟨encode ['u', '0', '0', (c.toNat / 16).digitChar, (c.toNat % 16).digitChar], ?_,
        fun b hb => (hplain b hb).2.2, fun hknown => ?_⟩
      · have hdigits : ∀ b ∈ encode ['0', '0', (c.toNat / 16).digitChar,
            (c.toNat % 16).digitChar], b ≠ 0x22 ∧ b ≠ 0x5C := by
          intro b hb
          obtain ⟨hne, hb', -⟩ := hplain b (List.mem_cons_of_mem _ hb)
          exact ⟨hne, hb'⟩
        have hrest' := unquote_plain hdigits hrest
        exact (unquote_escape 0x75 _).trans (congrArg (0x75 :: ·) hrest')
      · obtain hprintable | rfl | rfl | rfl := hknown
        · exact absurd hcontrol (Nat.not_lt.mpr hprintable)
        all_goals exact absurd hlookup (by decide)
    · rename_i hprintable
      obtain ⟨hquote, hslash⟩ := Json.escape_of_lookup_none hlookup
      have hplain : ∀ b ∈ encode [c], (b ≠ 0x22 ∧ b ≠ 0x5C) ∧ KnownByte b := by
        intro b hb
        rw [Utf8Lossy.encode_cons, Utf8Lossy.encode_nil, List.append_nil] at hb
        obtain ⟨-, hsame⟩ | ⟨-, hbeyond⟩ := Utf8Lossy.toNat_of_mem_encode hb
        · refine ⟨⟨?_, ?_⟩, Or.inl (hsame ▸ Nat.not_lt.mp hprintable)⟩
          · rintro rfl
            exact hquote (by rw [← c.ofNat_toNat, ← hsame]; rfl)
          · rintro rfl
            exact hslash (by rw [← c.ofNat_toNat, ← hsame]; rfl)
        · have hne : ∀ d : UInt8, d.toNat < 0x80 → b ≠ d := by
            rintro d hd rfl
            omega
          exact ⟨⟨hne _ (by decide), hne _ (by decide)⟩, Or.inl (by omega)⟩
      exact ⟨encode [c], unquote_plain (fun b hb => (hplain b hb).1) hrest,
        fun b hb => (hplain b hb).2, fun _ => rfl⟩

/-- What the loop makes of an escaped text: bytes that it knows, and the text
itself if it knows every character of it. -/
theorem unquote_text (cs : List Char) (rest : List UInt8) :
    ∃ seen, unquote (encode (cs.flatMap Json.escape) ++ 0x22 :: rest) = seen ∧
      (∀ b ∈ seen, KnownByte b) ∧ ((∀ c ∈ cs, Known c) → seen = encode cs) := by
  induction cs with
  | nil => exact ⟨[], unquote_quote rest, by simp, fun _ => rfl⟩
  | cons c cs ih =>
      obtain ⟨more, hmore, hmoreKnown, hmoreSame⟩ := ih
      have hne : encode (cs.flatMap Json.escape) ++ 0x22 :: rest ≠ [] := by simp
      obtain ⟨seen, hseen, hknown, hsame⟩ := unquote_escaped c hne
      refine ⟨seen ++ more, ?_, List.forall_mem_append.mpr ⟨hknown, hmoreKnown⟩, fun hall => ?_⟩
      · rw [List.flatMap_cons, Utf8Lossy.encode_append, List.append_assoc, hseen, hmore]
      · obtain ⟨hc, hcs⟩ := List.forall_mem_cons.mp hall
        rw [hsame hc, hmoreSame hcs, ← Utf8Lossy.encode_append]
        rfl

private theorem encode_ascii {c : Char} (hc : c.toNat < 0x80) :
    encode [c] = [UInt8.ofNat c.toNat] := by
  rw [Utf8Lossy.encode_cons, Utf8Lossy.encode_nil, List.append_nil, ← Utf8Lossy.encode_one hc,
    c.ofNat_toNat]

private theorem known_ofNat : ∀ n < 0x80, Known (Char.ofNat n) ↔ KnownByte (UInt8.ofNat n) := by
  decide

/-- A character that is not known is a byte that is not known. -/
theorem encode_of_not_known {c : Char} (h : ¬ Known c) :
    encode [c] = [UInt8.ofNat c.toNat] ∧ ¬ KnownByte (UInt8.ofNat c.toNat) := by
  have hcontrol : c.toNat < 0x20 := Nat.not_le.mp fun hle => h (Or.inl hle)
  have hascii : c.toNat < 0x80 := hcontrol.trans (by decide)
  refine ⟨encode_ascii hascii, fun hknown => h ?_⟩
  rw [← c.ofNat_toNat]
  exact (known_ofNat c.toNat hascii).mpr hknown

/-- A text is known if its bytes are. -/
theorem known_of_bytes {cs : List Char} (h : ∀ b ∈ encode cs, KnownByte b) :
    ∀ c ∈ cs, Known c := by
  intro c hc
  by_contra hunknown
  obtain ⟨hencode, hbyte⟩ := encode_of_not_known hunknown
  obtain ⟨before, after, rfl⟩ := List.append_of_mem hc
  refine hbyte (h _ ?_)
  have hsplit : encode (before ++ c :: after) = encode before ++ (encode [c] ++ encode after) := by
    rw [← Utf8Lossy.encode_append, ← Utf8Lossy.encode_append]
    rfl
  rw [hsplit, hencode]
  simp

/-- Lossy decoding keeps every control byte, and makes none. -/
theorem known_chars_iff (data : List UInt8) :
    (∀ c ∈ Utf8Lossy.chars data, Known c) ↔ ∀ b ∈ data, KnownByte b := by
  constructor
  · intro h b hb
    by_contra hunknown
    have hcontrol : b.toNat < 0x20 := Nat.not_le.mp fun hle => hunknown (Or.inl hle)
    have hascii : b.toNat < 0x80 := hcontrol.trans (by decide)
    have hencode : encode [Char.ofNat b.toNat] = [b] := by
      rw [Utf8Lossy.encode_cons, Utf8Lossy.encode_nil, List.append_nil,
        Utf8Lossy.encode_one hascii, UInt8.ofNat_toNat]
    have hinfix : encode [Char.ofNat b.toNat] <:+: data := by
      rw [hencode]
      exact (List.singleton_infix_iff _ _).mpr hb
    have hmem := (Utf8Lossy.infix_chars hinfix).subset List.mem_cons_self
    have hknown := (known_ofNat b.toNat hascii).mp (h _ hmem)
    rw [UInt8.ofNat_toNat] at hknown
    exact hunknown hknown
  · intro h c hc
    by_contra hunknown
    obtain ⟨hencode, hbyte⟩ := encode_of_not_known hunknown
    have hne : Utf8Lossy.replacement ∉ [c] := by
      rw [List.mem_singleton]
      rintro rfl
      exact hunknown (by decide)
    have hinfix := Utf8Lossy.infix_of_infix_chars hne ((List.singleton_infix_iff _ _).mpr hc)
    rw [← encode, hencode] at hinfix
    exact hbyte (h _ ((List.singleton_infix_iff _ _).mp hinfix))

end RxClient

section

open RxClient

variable (showFloat : Rat → NumLit)

/-- The bytes of a notification's line, without the line feed. -/
def Push.lineBytes (p : Push) : List UInt8 := encode (p.notification.toJson showFloat).print

/-- The line up to the quote that opens the text. -/
def rxDataHead : String := "\x7b\"notify\":\"rx_data\",\"data\":\x7b\"ascii\":\""

/-- The keys of the data come in their order, so the text is the first of them. -/
theorem rxData_print (port : String) (a : Arrival) :
    ∃ rest, ((Push.rxData port a).notification.toJson showFloat).print =
      rxDataHead.toList ++
        ((Utf8Lossy.decode a.entry.data).toList.flatMap Json.escape ++ '"' :: rest) := by
  have hsort : ([("port", Json.str port), ("timestamp", .str a.entry.timestamp),
      ("ascii", .str (Utf8Lossy.decode a.entry.data)),
      ("hex", .str (hexEncode a.entry.data))].insertionSort fun f g => f.1 ≤ g.1) =
      [("ascii", .str (Utf8Lossy.decode a.entry.data)),
        ("hex", .str (hexEncode a.entry.data)), ("port", .str port),
        ("timestamp", .str a.entry.timestamp)] := by
    simp [List.insertionSort, List.orderedInsert]
  have hnotify : Json.printString "notify" = "\"notify\"".toList := by decide
  have hname : Json.printString "rx_data" = "\"rx_data\"".toList := by decide
  have hdata : Json.printString "data" = "\"data\"".toList := by decide
  have hascii : Json.printString "ascii" = "\"ascii\"".toList := by decide
  refine ⟨',' :: (Json.printFields [("hex", .str (hexEncode a.entry.data)), ("port", .str port),
    ("timestamp", .str a.entry.timestamp)] ++ ['\x7d', '\x7d']), ?_⟩
  simp only [Notification.toJson, Push.notification, Value.toJson, fieldsToJson, hsort, Json.print,
    Json.printFields, hnotify, hname, hdata, hascii]
  simp [rxDataHead, Json.printString]

/-- The text's key is found where the text begins, and nowhere before. -/
theorem extractJsonString_rxDataHead (rest : List UInt8) :
    extractJsonString (bytes rxDataHead ++ rest) "ascii" = unquote rest := by
  have hfirst : ∀ i < (bytes rxDataHead).length - (keyPattern "ascii").length,
      ¬ OccursAt (keyPattern "ascii") (bytes rxDataHead) i := by
    decide
  refine extractJsonString_append (by decide) fun i hi => hfirst i ?_
  omega

/-- The line of an entry gets to the callback. -/
theorem parseNotification_rxDataHead (rest : List UInt8) :
    (parseNotification (bytes rxDataHead ++ rest)).map (·.ascii) = some (cStr (unquote rest)) := by
  have hnotify : find (bytes rxDataHead ++ rest) (bytes "\"notify\"") ≠ none :=
    find_ne_none (by decide) (by decide)
  have hname : find (bytes rxDataHead ++ rest) (bytes "\"rx_data\"") ≠ none :=
    find_ne_none (by decide) (by decide)
  rw [parseNotification, if_neg hnotify, if_neg hname]
  simp only [Option.map_some, extractJsonString_rxDataHead]

theorem cStr_of_known {text : List UInt8} (h : ∀ b ∈ text, KnownByte b) : cStr text = text := by
  apply List.takeWhile_eq_self_iff.mpr
  intro b hb
  have hzero : ¬ KnownByte 0 := by decide
  have hne : b ≠ 0 := fun heq => hzero (heq ▸ h b hb)
  simpa using hne

/-- When the text of an entry comes through. The callback is given the text
that the daemon put into the line exactly when the entry has no control byte but
line feeds, carriage returns and tabs. -/
theorem ascii_delivered_iff (port : String) (a : Arrival) :
    (parseNotification ((Push.rxData port a).lineBytes showFloat)).map (·.ascii) =
        some (bytes (Utf8Lossy.decode a.entry.data)) ↔
      ∀ b ∈ a.entry.data, b.toNat < 0x20 → b = 0x0A ∨ b = 0x0D ∨ b = 0x09 := by
  have hcond : (∀ b ∈ a.entry.data, b.toNat < 0x20 → b = 0x0A ∨ b = 0x0D ∨ b = 0x09) ↔
      ∀ b ∈ a.entry.data, KnownByte b :=
    forall₂_congr fun b _ => by rw [KnownByte, ← Nat.not_lt, imp_iff_not_or]
  obtain ⟨rest, hprint⟩ := rxData_print showFloat port a
  have hline : (Push.rxData port a).lineBytes showFloat = bytes rxDataHead ++
      (encode ((Utf8Lossy.chars a.entry.data).flatMap Json.escape) ++ 0x22 :: encode rest) := by
    rw [Push.lineBytes, hprint, Utf8Lossy.encode_append, Utf8Lossy.encode_append,
      Utf8Lossy.toList_decode]
    rfl
  obtain ⟨seen, hseen, hknown, hsame⟩ := unquote_text (Utf8Lossy.chars a.entry.data) (encode rest)
  rw [hline, parseNotification_rxDataHead, hseen, cStr_of_known hknown, Option.some.injEq, bytes,
    Utf8Lossy.toList_decode, hcond, ← known_chars_iff]
  exact ⟨fun heq => known_of_bytes (heq ▸ hknown), hsame⟩

end

/-- An escape character. The callback is given `u001b`. -/
theorem ascii_not_always_delivered :
    ¬ ∀ (showFloat : Rat → NumLit) (port : String) (a : Arrival),
      (RxClient.parseNotification ((Push.rxData port a).lineBytes showFloat)).map (·.ascii) =
        some (RxClient.bytes (Utf8Lossy.decode a.entry.data)) := by
  intro hascii
  have hdelivered := hascii (fun _ => .ofNat 0) "COM3" ⟨0, 0, ⟨"2026:01:01 12:00:00", [0x1B]⟩⟩
  exact absurd hdelivered (by decide +kernel)

end Commmon

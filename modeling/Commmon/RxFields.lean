/-
# The fields that the C++ client takes out of a line

The client finds a field by its key, its colon and the quote after that, wherever
they stand. In the line of an entry they stand once, whatever the entry's bytes
are and whatever the order of the keys is: within a string every quote is escaped,
and no key of the line ends in a quote and another key.
-/

import Commmon.Lib.JsonTokens
import Commmon.RxClient

set_option autoImplicit false

namespace Commmon

open Json (IsWord Shows pairTokens tokens)
open Utf8Lossy (encode)

namespace RxClient

private theorem keyPattern_eq (key : String) : keyPattern key = encode (Json.keyed key.toList) := by
  rw [Json.keyed, Utf8Lossy.encode_cons, Utf8Lossy.encode_append]
  rfl

/-- A key that stands for itself only. If no other string has the key before
it, the loop begins with the value. It gives bytes that it knows, and the value
itself if it knows the characters of it. -/
theorem extractJsonString_seen {key value : String} {v : Json} (hkey : IsWord key.toList)
    (hpair : pairTokens key value <:+: tokens v)
    (honly : ∀ k s, pairTokens k s <:+: tokens v → Shows key.toList k → s = value) :
    (∀ b ∈ extractJsonString (encode v.print) key, KnownByte b) ∧
      ((∀ c ∈ value.toList, Known c) → extractJsonString (encode v.print) key = bytes value) := by
  have hkeyed : Json.keyed key.toList ≠ [] := List.cons_ne_nil _ _
  have hfound : find (encode v.print) (keyPattern key) ≠ none := by
    rw [keyPattern_eq, find_encode_ne_none_iff hkeyed]
    exact Json.keyed_infix_print hkey hpair
  obtain ⟨start, hstart⟩ := Option.ne_none_iff_exists'.mp hfound
  obtain ⟨before, after, htext, hlength⟩ := exists_of_find (keyPattern_ne_nil key) hstart
  have hdrop : (encode v.print).drop (start + (keyPattern key).length) = after := by
    rw [htext, ← List.append_assoc, ← hlength, ← List.length_append, List.drop_left]
  rw [keyPattern_eq] at htext
  obtain ⟨xs, ys, hprint, -, rfl⟩ := Utf8Lossy.exists_of_encode_infix hkeyed htext.symm
  obtain ⟨k, s, rest, hmem, hshows, rfl⟩ := Json.exists_of_keyed hkey hprint
  obtain rfl := honly k s hmem hshows
  obtain ⟨seen, hseen, hseenKnown, hsame⟩ := unquote_text s.toList (encode rest)
  have hquote : encode (s.toList.flatMap Json.escape ++ '"' :: rest) =
      encode (s.toList.flatMap Json.escape) ++ 0x22 :: encode rest := by
    rw [Utf8Lossy.encode_append]
    rfl
  have hextract : extractJsonString (encode v.print) key = seen := by
    rw [extractJsonString, hstart]
    simp only [hdrop, hquote, hseen]
  exact hextract ▸ ⟨hseenKnown, hsame⟩

end RxClient

open RxClient

/-- The characters of `%Y:%m:%d %H:%M:%S`. A year beyond four digits has a sign. -/
def IsTimestamp (t : String) : Prop := ∀ c ∈ t.toList, c.isDigit = true ∨ c ∈ [':', ' ', '+', '-']

instance : DecidablePred IsTimestamp := fun t => List.decidableBAll _ t.toList

private theorem known_of_isTimestamp {t : String} (ht : IsTimestamp t) :
    ∀ c ∈ t.toList, Known c := by
  intro c hc
  refine Or.inl ?_
  obtain hdigit | hsign := ht c hc
  · have hzero : '0'.toNat = 48 := rfl
    have hle := (Char.isDigit_iff_toNat.mp hdigit).1
    omega
  · have hall : ∀ d ∈ [':', ' ', '+', '-'], 0x20 ≤ d.toNat := by simp
    exact hall c hsign

private theorem known_hexEncode (data : List UInt8) : ∀ c ∈ (hexEncode data).toList, Known c := by
  have hdigit : ∀ n < 16, Known n.digitChar := by decide
  intro c hc
  rw [hexEncode, String.toList_ofList] at hc
  obtain ⟨b, -, hc⟩ := List.mem_flatMap.mp hc
  have hb := b.toNat_lt
  obtain rfl | hc := List.mem_cons.mp hc
  · exact hdigit _ (by omega)
  · rw [List.mem_singleton.mp hc]
    exact hdigit _ (by omega)

section

variable (showFloat : Rat → NumLit)

/-- A text of a notification, with the fields of its data in some order. -/
def Notification.TextInSomeOrder (n : Notification) (text : List Char) : Prop :=
  ∃ given fields, n.data.toJson showFloat = .obj given ∧ fields.Perm given ∧
    text = (Json.obj [("notify", .str n.notify), ("data", .obj fields)]).print

/-- The order that the daemon writes is one of them. -/
theorem rxData_textInSomeOrder (port : String) (a : Arrival) :
    (Push.rxData port a).notification.TextInSomeOrder showFloat
      ((Push.rxData port a).notification.toJson showFloat).print :=
  ⟨_, _, rfl, .refl _, rfl⟩

/-- The fields of an entry's data. -/
def rxDataFields (port : String) (a : Arrival) : List (String × Json) :=
  [("port", .str port), ("timestamp", .str a.entry.timestamp),
    ("ascii", .str (Utf8Lossy.decode a.entry.data)), ("hex", .str (hexEncode a.entry.data))]

/-- The pairs of an entry's line. -/
theorem pair_infix_rxData {port : String} {a : Arrival} {fields : List (String × Json)}
    (hfields : fields.Perm (rxDataFields port a)) {k s : String} :
    pairTokens k s <:+: tokens (.obj [("notify", .str "rx_data"), ("data", .obj fields)]) ↔
      (k = "notify" ∧ s = "rx_data") ∨ (k, Json.str s) ∈ rxDataFields port a := by
  have hdata : (∃ f ∈ fields, f = (k, Json.str s) ∨ pairTokens k s <:+: tokens f.2) ↔
      (k, Json.str s) ∈ rxDataFields port a := by
    constructor
    · rintro ⟨f, hf, rfl | hinner⟩
      · exact hfields.mem_iff.mp hf
      · have hstr : ∀ g ∈ rxDataFields port a, ∃ t, g.2 = .str t := by
          simp [rxDataFields]
        obtain ⟨t, ht⟩ := hstr f (hfields.mem_iff.mp hf)
        rw [ht] at hinner
        exact absurd hinner Json.not_pair_infix_str
    · exact fun h => ⟨_, hfields.mem_iff.mpr h, Or.inl rfl⟩
  rw [Json.pair_infix_tokens_obj]
  simp [Json.pair_infix_tokens_obj, hdata, Json.not_pair_infix_str, eq_comm]

/-- No key of the line shows another one. -/
theorem eq_of_shows : ∀ key ∈ ["port", "timestamp", "ascii", "hex"],
    ∀ k ∈ ["notify", "port", "timestamp", "ascii", "hex"], Shows key.toList k → k = key := by
  decide

/-- What is found under a key of the data is made of its field. -/
theorem extractJsonString_field_seen {port : String} {a : Arrival}
    {fields : List (String × Json)} (hfields : fields.Perm (rxDataFields port a))
    {key value : String} (hmem : (key, Json.str value) ∈ rxDataFields port a) :
    (∀ b ∈ extractJsonString (encode
        (Json.obj [("notify", .str "rx_data"), ("data", .obj fields)]).print) key, KnownByte b) ∧
      ((∀ c ∈ value.toList, Known c) → extractJsonString (encode
        (Json.obj [("notify", .str "rx_data"), ("data", .obj fields)]).print) key =
          bytes value) := by
  have hkeys : ∀ k s, (k, Json.str s) ∈ rxDataFields port a →
      k ∈ ["port", "timestamp", "ascii", "hex"] := by
    intro k s h
    exact List.mem_map_of_mem (f := Prod.fst) h
  have hword : ∀ k ∈ ["port", "timestamp", "ascii", "hex"], IsWord k.toList := by
    decide
  have hkey := hkeys _ _ hmem
  apply extractJsonString_seen (hword key hkey)
    ((pair_infix_rxData hfields).mpr (Or.inr hmem))
  intro k s hpair hshows
  obtain ⟨rfl, rfl⟩ | hpair := (pair_infix_rxData hfields).mp hpair
  · obtain rfl := eq_of_shows key hkey "notify" List.mem_cons_self hshows
    exact absurd hkey (by decide)
  · obtain rfl := eq_of_shows key hkey k (List.mem_cons_of_mem _ (hkeys _ _ hpair)) hshows
    have hnodup : ((rxDataFields port a).map Prod.fst).Nodup := by
      simp [rxDataFields]
    exact Json.str.inj (congrArg Prod.snd (List.inj_on_of_nodup_map hnodup hpair hmem rfl))

/-- A field of the data is what is found under its key. -/
theorem extractJsonString_field {port : String} {a : Arrival} {fields : List (String × Json)}
    (hfields : fields.Perm (rxDataFields port a)) {key value : String}
    (hmem : (key, Json.str value) ∈ rxDataFields port a) (hknown : ∀ c ∈ value.toList, Known c) :
    extractJsonString
      (encode (Json.obj [("notify", .str "rx_data"), ("data", .obj fields)]).print) key =
        bytes value :=
  (extractJsonString_field_seen hfields hmem).2 hknown

/-- The fields of an entry cannot be forged. -/
theorem rxData_fields_extracted (port : String) (a : Arrival)
    (hport : ∀ c ∈ port.toList, Known c) (htimestamp : IsTimestamp a.entry.timestamp)
    {text : List Char} (htext : (Push.rxData port a).notification.TextInSomeOrder showFloat text) :
    extractJsonString (encode text) "port" = bytes port ∧
      extractJsonString (encode text) "timestamp" = bytes a.entry.timestamp ∧
      extractJsonString (encode text) "hex" = bytes (hexEncode a.entry.data) := by
  obtain ⟨given, fields, hgiven, hfields, rfl⟩ := htext
  have hperm : fields.Perm (rxDataFields port a) := by
    have hsorted : (Push.rxData port a).notification.data.toJson showFloat =
        .obj ((rxDataFields port a).insertionSort fun f g => f.1 ≤ g.1) := rfl
    obtain rfl := Json.obj.inj (hgiven.symm.trans hsorted)
    exact hfields.trans (List.perm_insertionSort _ _)
  refine ⟨extractJsonString_field hperm ?_ hport,
    extractJsonString_field hperm ?_ (known_of_isTimestamp htimestamp),
    extractJsonString_field hperm ?_ (known_hexEncode _)⟩
  all_goals simp [rxDataFields]

end

/-- An entry that looks like a port, and one that ends in a backslash. -/
theorem rxData_fields_extracted_forged :
    RxClient.extractJsonString (encode
        (((Push.rxData "COM3" ⟨0, 0, ⟨"2026:01:01 12:00:00", RxClient.bytes "\"port\":\"X\"\\"⟩⟩)
          |>.notification.toJson fun _ => .ofNat 0).print)) "port" = RxClient.bytes "COM3" :=
  (rxData_fields_extracted (fun _ => .ofNat 0) "COM3"
    ⟨0, 0, ⟨"2026:01:01 12:00:00", RxClient.bytes "\"port\":\"X\"\\"⟩⟩
    (by simp [Known]) (by decide) (rxData_textInSomeOrder _ _ _)).1

end Commmon

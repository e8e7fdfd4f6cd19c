/-
# Lossy UTF-8 decoding

Bytes are decoded from the left. A well-formed sequence gives its character;
otherwise the longest prefix that could still have begun a well-formed sequence,
and at least one byte, is replaced by one U+FFFD.
-/

import Mathlib.Data.List.Infix

set_option autoImplicit false

namespace Utf8Lossy

/-- U+FFFD, the replacement character. -/
def replacement : Char := Char.ofNat 0xFFFD

/-- A continuation byte, `10xxxxxx`. -/
def isCont (b : UInt8) : Bool := 0x80 ≤ b && b ≤ 0xBF

/-- The second byte that a three-byte sequence may have after its lead byte:
neither an overlong form nor a surrogate. -/
def second3 (lead b : UInt8) : Bool :=
  if lead == 0xE0 then 0xA0 ≤ b && b ≤ 0xBF
  else if lead == 0xED then 0x80 ≤ b && b ≤ 0x9F
  else isCont b

/-- The second byte that a four-byte sequence may have after its lead byte:
neither an overlong form nor a value beyond U+10FFFF. -/
def second4 (lead b : UInt8) : Bool :=
  if lead == 0xF0 then 0x90 ≤ b && b ≤ 0xBF
  else if lead == 0xF4 then 0x80 ≤ b && b ≤ 0x8F
  else isCont b

/-- The low six bits of a continuation byte. -/
def low6 (b : UInt8) : ℕ := b.toNat % 64

/-- Decode at a lead byte: the character, and the bytes after it. -/
def decodeNext (lead : UInt8) (rest : List UInt8) : Char × List UInt8 :=
  if lead < 0x80 then (Char.ofNat lead.toNat, rest)
  else if 0xC2 ≤ lead && lead ≤ 0xDF then
    match rest with
    | b1 :: tail =>
        if isCont b1 then (Char.ofNat (lead.toNat % 32 * 64 + low6 b1), tail)
        else (replacement, rest)
    | [] => (replacement, rest)
  else if 0xE0 ≤ lead && lead ≤ 0xEF then
    match rest with
    | b1 :: tail1 =>
        if second3 lead b1 then
          match tail1 with
          | b2 :: tail2 =>
              if isCont b2 then
                (Char.ofNat (lead.toNat % 16 * 4096 + low6 b1 * 64 + low6 b2), tail2)
              else (replacement, tail1)
          | [] => (replacement, tail1)
        else (replacement, rest)
    | [] => (replacement, rest)
  else if 0xF0 ≤ lead && lead ≤ 0xF4 then
    match rest with
    | b1 :: tail1 =>
        if second4 lead b1 then
          match tail1 with
          | b2 :: tail2 =>
              if isCont b2 then
                match tail2 with
                | b3 :: tail3 =>
                    if isCont b3 then
                      (Char.ofNat (lead.toNat % 8 * 262144 + low6 b1 * 4096 +
                        low6 b2 * 64 + low6 b3), tail3)
                    else (replacement, tail2)
                | [] => (replacement, tail2)
              else (replacement, tail1)
          | [] => (replacement, tail1)
        else (replacement, rest)
    | [] => (replacement, rest)
  else (replacement, rest)

/-- Decode at most `fuel` characters. Every character takes a byte, so the
number of bytes is fuel enough. -/
def decodeChars : ℕ → List UInt8 → List Char
  | 0, _ => []
  | _, [] => []
  | fuel + 1, lead :: rest =>
      (decodeNext lead rest).1 :: decodeChars fuel (decodeNext lead rest).2

/-- The text of a byte sequence. -/
def decode (bytes : List UInt8) : String := String.ofList (decodeChars bytes.length bytes)

private theorem isCont_of_second3 {lead b : UInt8} (h : second3 lead b = true) :
    isCont b = true := by
  simp only [second3, isCont] at h ⊢
  grind

private theorem isCont_of_second4 {lead b : UInt8} (h : second4 lead b = true) :
    isCont b = true := by
  simp only [second4, isCont] at h ⊢
  grind

theorem toNat_byte {n : ℕ} (h : n < 256) : (UInt8.ofNat n).toNat = n :=
  UInt8.toNat_ofNat_of_lt' h

theorem between_iff {lo hi b : UInt8} : (decide (lo ≤ b) && decide (b ≤ hi)) = true ↔
    lo.toNat ≤ b.toNat ∧ b.toNat ≤ hi.toNat := by
  rw [Bool.and_eq_true, decide_eq_true_eq, decide_eq_true_eq, UInt8.le_iff_toNat_le,
    UInt8.le_iff_toNat_le]

theorem isCont_iff {b : UInt8} : isCont b = true ↔ 0x80 ≤ b.toNat ∧ b.toNat ≤ 0xBF := between_iff

theorem isCont_ofNat {n : ℕ} (h : n < 64) : isCont (UInt8.ofNat (n + 0x80)) = true := by
  rw [isCont_iff, toNat_byte (by omega)]
  omega

private theorem low6_ofNat {n : ℕ} (h : n < 64) : low6 (UInt8.ofNat (n + 0x80)) = n := by
  rw [low6, toNat_byte (by omega)]
  omega

private theorem second3_of_bounds {lead b : UInt8} (hcont : isCont b = true)
    (hlow : lead.toNat = 0xE0 → 0xA0 ≤ b.toNat) (hhigh : lead.toNat = 0xED → b.toNat ≤ 0x9F) :
    second3 lead b = true := by
  have hb := isCont_iff.mp hcont
  unfold second3
  split_ifs with hE0 hED
  · exact between_iff.mpr ⟨hlow (congrArg UInt8.toNat (beq_iff_eq.mp hE0)), hb.2⟩
  · exact between_iff.mpr ⟨hb.1, hhigh (congrArg UInt8.toNat (beq_iff_eq.mp hED))⟩
  · exact hcont

private theorem second4_of_bounds {lead b : UInt8} (hcont : isCont b = true)
    (hlow : lead.toNat = 0xF0 → 0x90 ≤ b.toNat) (hhigh : lead.toNat = 0xF4 → b.toNat ≤ 0x8F) :
    second4 lead b = true := by
  have hb := isCont_iff.mp hcont
  unfold second4
  split_ifs with hF0 hF4
  · exact between_iff.mpr ⟨hlow (congrArg UInt8.toNat (beq_iff_eq.mp hF0)), hb.2⟩
  · exact between_iff.mpr ⟨hb.1, hhigh (congrArg UInt8.toNat (beq_iff_eq.mp hF4))⟩
  · exact hcont

/-- Go on if the next byte passes the test, and otherwise replace what there is. -/
def follow (test : UInt8 → Bool) (next : UInt8 → List UInt8 → Char × List UInt8) :
    List UInt8 → Char × List UInt8
  | b :: tail => if test b then next b tail else (replacement, b :: tail)
  | [] => (replacement, [])

theorem follow_of_pass {test : UInt8 → Bool} {next : UInt8 → List UInt8 → Char × List UInt8}
    {b : UInt8} (h : test b = true) (tail : List UInt8) :
    follow test next (b :: tail) = next b tail := if_pos h

/-- What is not replaced has passed the test. -/
theorem exists_of_follow {test : UInt8 → Bool}
    {next : UInt8 → List UInt8 → Char × List UInt8} {rest rest' : List UInt8} {c : Char}
    (h : follow test next rest = (c, rest')) (hc : c ≠ replacement) :
    ∃ b tail, rest = b :: tail ∧ test b = true ∧ next b tail = (c, rest') := by
  cases rest with
  | nil => exact absurd (Prod.mk.inj h).1.symm hc
  | cons b tail =>
      cases hb : test b with
      | true => exact ⟨b, tail, rfl, hb, (follow_of_pass hb tail).symm.trans h⟩
      | false =>
          rw [follow, hb] at h
          exact absurd (Prod.mk.inj h).1.symm hc

section Sequence

variable {lead : UInt8}

private theorem not_ascii (h : 0x80 ≤ lead.toNat) : ¬ lead < 0x80 := by
  rw [UInt8.lt_iff_toNat_lt]
  exact Nat.not_lt.mpr h

theorem not_between {lo hi : UInt8} (h : lead.toNat < lo.toNat ∨ hi.toNat < lead.toNat) :
    ¬ (decide (lo ≤ lead) && decide (lead ≤ hi)) = true := by
  rw [between_iff]
  omega

theorem decodeNext_ascii (h : lead.toNat < 0x80) :
    decodeNext lead = fun rest => (Char.ofNat lead.toNat, rest) := by
  funext rest
  exact if_pos (UInt8.lt_iff_toNat_lt.mpr h)

theorem decodeNext_lead2 (hlow : 0xC2 ≤ lead.toNat) (hhigh : lead.toNat ≤ 0xDF) :
    decodeNext lead = follow isCont fun b1 tail =>
      (Char.ofNat (lead.toNat % 32 * 64 + low6 b1), tail) := by
  funext rest
  have hlead : (decide (0xC2 ≤ lead) && decide (lead ≤ 0xDF)) = true :=
    between_iff.mpr ⟨hlow, hhigh⟩
  unfold decodeNext
  rw [if_neg (not_ascii (by omega)), if_pos hlead]
  cases rest <;> rfl

theorem decodeNext_lead3 (hlow : 0xE0 ≤ lead.toNat) (hhigh : lead.toNat ≤ 0xEF) :
    decodeNext lead = follow (second3 lead) fun b1 => follow isCont fun b2 tail =>
      (Char.ofNat (lead.toNat % 16 * 4096 + low6 b1 * 64 + low6 b2), tail) := by
  funext rest
  have hlead : (decide (0xE0 ≤ lead) && decide (lead ≤ 0xEF)) = true :=
    between_iff.mpr ⟨hlow, hhigh⟩
  have hnot2 : ¬ (decide (0xC2 ≤ lead) && decide (lead ≤ 0xDF)) = true :=
    not_between (Or.inr hlow)
  unfold decodeNext
  rw [if_neg (not_ascii (by omega)), if_neg hnot2, if_pos hlead]
  rcases rest with - | ⟨b1, - | ⟨b2, tail⟩⟩ <;> rfl

theorem decodeNext_lead4 (hlow : 0xF0 ≤ lead.toNat) (hhigh : lead.toNat ≤ 0xF4) :
    decodeNext lead = follow (second4 lead) fun b1 => follow isCont fun b2 =>
      follow isCont fun b3 tail =>
        (Char.ofNat (lead.toNat % 8 * 262144 + low6 b1 * 4096 + low6 b2 * 64 + low6 b3),
          tail) := by
  funext rest
  have hlead : (decide (0xF0 ≤ lead) && decide (lead ≤ 0xF4)) = true :=
    between_iff.mpr ⟨hlow, hhigh⟩
  have hnot2 : ¬ (decide (0xC2 ≤ lead) && decide (lead ≤ 0xDF)) = true :=
    not_between (Or.inr (Nat.lt_of_lt_of_le (by decide) hlow))
  have hnot3 : ¬ (decide (0xE0 ≤ lead) && decide (lead ≤ 0xEF)) = true :=
    not_between (Or.inr hlow)
  unfold decodeNext
  rw [if_neg (not_ascii (by omega)), if_neg hnot2, if_neg hnot3, if_pos hlead]
  rcases rest with - | ⟨b1, - | ⟨b2, - | ⟨b3, tail⟩⟩⟩ <;> rfl

theorem decodeNext_invalid (hascii : 0x80 ≤ lead.toNat)
    (h2 : ¬ (0xC2 ≤ lead.toNat ∧ lead.toNat ≤ 0xDF))
    (h3 : ¬ (0xE0 ≤ lead.toNat ∧ lead.toNat ≤ 0xEF))
    (h4 : ¬ (0xF0 ≤ lead.toNat ∧ lead.toNat ≤ 0xF4)) :
    decodeNext lead = fun rest => (replacement, rest) := by
  funext rest
  have hnot2 : ¬ (decide (0xC2 ≤ lead) && decide (lead ≤ 0xDF)) = true := mt between_iff.mp h2
  have hnot3 : ¬ (decide (0xE0 ≤ lead) && decide (lead ≤ 0xEF)) = true := mt between_iff.mp h3
  have hnot4 : ¬ (decide (0xF0 ≤ lead) && decide (lead ≤ 0xF4)) = true := mt between_iff.mp h4
  unfold decodeNext
  rw [if_neg (not_ascii hascii), if_neg hnot2, if_neg hnot3, if_neg hnot4]

end Sequence

/-- A decoder that reads continuation bytes, one at a time. -/
inductive Follows : (List UInt8 → Char × List UInt8) → Prop
  | done (c : Char) : Follows fun rest => (c, rest)
  | follow (test : UInt8 → Bool) (next : UInt8 → List UInt8 → Char × List UInt8)
      (htest : ∀ b, test b = true → isCont b = true) (hnext : ∀ b, Follows (next b)) :
      Follows (follow test next)

private theorem follows_decodeNext (lead : UInt8) : Follows (decodeNext lead) := by
  by_cases hascii : lead.toNat < 0x80
  · rw [decodeNext_ascii hascii]
    exact .done _
  by_cases h2 : 0xC2 ≤ lead.toNat ∧ lead.toNat ≤ 0xDF
  · rw [decodeNext_lead2 h2.1 h2.2]
    exact .follow _ _ (fun _ h => h) fun _ => .done _
  by_cases h3 : 0xE0 ≤ lead.toNat ∧ lead.toNat ≤ 0xEF
  · rw [decodeNext_lead3 h3.1 h3.2]
    exact .follow _ _ (fun _ => isCont_of_second3) fun _ =>
      .follow _ _ (fun _ h => h) fun _ => .done _
  by_cases h4 : 0xF0 ≤ lead.toNat ∧ lead.toNat ≤ 0xF4
  · rw [decodeNext_lead4 h4.1 h4.2]
    exact .follow _ _ (fun _ => isCont_of_second4) fun _ =>
      .follow _ _ (fun _ h => h) fun _ => .follow _ _ (fun _ h => h) fun _ => .done _
  · rw [decodeNext_invalid (Nat.not_lt.mp hascii) h2 h3 h4]
    exact .done _

private theorem decodeNext_two {a b : ℕ} (ha : 2 ≤ a) (ha' : a < 32) (hb : b < 64)
    (rest : List UInt8) : decodeNext (UInt8.ofNat (a + 0xC0)) (UInt8.ofNat (b + 0x80) :: rest) =
      (Char.ofNat (a * 64 + b), rest) := by
  have hlead : (UInt8.ofNat (a + 0xC0)).toNat = a + 192 := toNat_byte (by omega)
  have hnum : (a + 192) % 32 * 64 + b = a * 64 + b := by omega
  rw [decodeNext_lead2 (by omega) (by omega), follow_of_pass (isCont_ofNat hb), hlead,
    low6_ofNat hb, hnum]

private theorem decodeNext_three {a b c : ℕ} (ha : a < 16) (hb : b < 64) (hc : c < 64)
    (hlow : a = 0 → 0x20 ≤ b) (hhigh : a = 0xD → b < 0x20) (rest : List UInt8) :
    decodeNext (UInt8.ofNat (a + 0xE0))
        (UInt8.ofNat (b + 0x80) :: UInt8.ofNat (c + 0x80) :: rest) =
      (Char.ofNat (a * 4096 + b * 64 + c), rest) := by
  have hlead : (UInt8.ofNat (a + 0xE0)).toNat = a + 224 := toNat_byte (by omega)
  have hb' : (UInt8.ofNat (b + 0x80)).toNat = b + 128 := toNat_byte (by omega)
  have hsecond : second3 (UInt8.ofNat (a + 0xE0)) (UInt8.ofNat (b + 0x80)) = true :=
    second3_of_bounds (isCont_ofNat hb) (by omega) (by omega)
  have hnum : (a + 224) % 16 * 4096 + b * 64 + c = a * 4096 + b * 64 + c := by omega
  rw [decodeNext_lead3 (by omega) (by omega), follow_of_pass hsecond,
    follow_of_pass (isCont_ofNat hc), hlead, low6_ofNat hb, low6_ofNat hc, hnum]

private theorem decodeNext_four {a b c d : ℕ} (ha : a < 5) (hb : b < 64) (hc : c < 64) (hd : d < 64)
    (hlow : a = 0 → 0x10 ≤ b) (hhigh : a = 4 → b < 0x10) (rest : List UInt8) :
    decodeNext (UInt8.ofNat (a + 0xF0)) (UInt8.ofNat (b + 0x80) :: UInt8.ofNat (c + 0x80) ::
      UInt8.ofNat (d + 0x80) :: rest) =
      (Char.ofNat (a * 262144 + b * 4096 + c * 64 + d), rest) := by
  have hlead : (UInt8.ofNat (a + 0xF0)).toNat = a + 240 := toNat_byte (by omega)
  have hb' : (UInt8.ofNat (b + 0x80)).toNat = b + 128 := toNat_byte (by omega)
  have hsecond : second4 (UInt8.ofNat (a + 0xF0)) (UInt8.ofNat (b + 0x80)) = true :=
    second4_of_bounds (isCont_ofNat hb) (by omega) (by omega)
  have hnum : (a + 240) % 8 * 262144 + b * 4096 + c * 64 + d =
      a * 262144 + b * 4096 + c * 64 + d := by omega
  rw [decodeNext_lead4 (by omega) (by omega), follow_of_pass hsecond,
    follow_of_pass (isCont_ofNat hc), follow_of_pass (isCont_ofNat hd), hlead, low6_ofNat hb,
    low6_ofNat hc, low6_ofNat hd, hnum]

/-- An encoded character is decoded, whatever follows it, and begins with a byte
that continues nothing. -/
theorem decodeNext_encode (c : Char) (rest : List UInt8) :
    ∃ lead tail, String.utf8EncodeChar c = lead :: tail ∧ isCont lead = false ∧
      decodeNext lead (tail ++ rest) = (c, rest) := by
  have hvalid := c.valid
  simp only [UInt32.isValidChar, Nat.isValidChar] at hvalid
  have hof : Char.ofNat c.val.toNat = c := Char.ofNat_toNat c
  unfold String.utf8EncodeChar
  generalize c.val.toNat = v at *
  dsimp only
  split_ifs with h1 h2 h3
  · refine ⟨_, [], rfl, ?_, ?_⟩
    · simp [isCont, UInt8.le_iff_toNat_le]; omega
    · have h : v % 256 = v := Nat.mod_eq_of_lt (by omega)
      simp [decodeNext, UInt8.lt_iff_toNat_lt, h, show v < 128 by omega, hof]
  · refine ⟨_, _, rfl, ?_, ?_⟩
    · simp [isCont, UInt8.le_iff_toNat_le]; omega
    · rw [List.cons_append, List.nil_append, decodeNext_two (by omega) (by omega) (by omega)]
      refine Prod.ext ((congrArg Char.ofNat ?_).trans hof) rfl
      omega
  · refine ⟨_, _, rfl, ?_, ?_⟩
    · simp [isCont, UInt8.le_iff_toNat_le]; omega
    · rw [List.cons_append, List.cons_append, List.nil_append,
        decodeNext_three (by omega) (by omega) (by omega) (by omega) (by omega)]
      refine Prod.ext ((congrArg Char.ofNat ?_).trans hof) rfl
      omega
  · refine ⟨_, _, rfl, ?_, ?_⟩
    · simp [isCont, UInt8.le_iff_toNat_le]; omega
    · rw [List.cons_append, List.cons_append, List.cons_append, List.nil_append,
        decodeNext_four (by omega) (by omega) (by omega) (by omega) (by omega) (by omega)]
      refine Prod.ext ((congrArg Char.ofNat ?_).trans hof) rfl
      omega

theorem toNat_ofNat {n : ℕ} (h : n < 0xD800 ∨ 0xDFFF < n ∧ n < 0x110000) :
    (Char.ofNat n).val.toNat = n := by
  have hvalid : n.isValidChar := h
  unfold Char.ofNat
  rw [dif_pos hvalid]
  rfl

theorem encode_one {a : ℕ} (ha : a < 128) :
    String.utf8EncodeChar (Char.ofNat a) = [UInt8.ofNat a] := by
  unfold String.utf8EncodeChar
  rw [toNat_ofNat (by omega)]
  exact if_pos (by omega)

private theorem encode_two {a b : ℕ} (ha : 2 ≤ a) (ha' : a < 32) (hb : b < 64) :
    String.utf8EncodeChar (Char.ofNat (a * 64 + b)) =
      [UInt8.ofNat (a + 0xC0), UInt8.ofNat (b + 0x80)] := by
  unfold String.utf8EncodeChar
  rw [toNat_ofNat (by omega)]
  dsimp only
  rw [if_neg (by omega), if_pos (by omega),
    show (a * 64 + b) / 64 % 0x20 = a by omega, show (a * 64 + b) % 0x40 = b by omega]

private theorem encode_three {a b c : ℕ} (ha : a < 16) (hb : b < 64) (hc : c < 64)
    (hlow : a = 0 → 0x20 ≤ b) (hhigh : a = 0xD → b < 0x20) :
    String.utf8EncodeChar (Char.ofNat (a * 4096 + b * 64 + c)) =
      [UInt8.ofNat (a + 0xE0), UInt8.ofNat (b + 0x80), UInt8.ofNat (c + 0x80)] := by
  unfold String.utf8EncodeChar
  rw [toNat_ofNat (by omega)]
  dsimp only
  rw [if_neg (by omega), if_neg (by omega), if_pos (by omega),
    show (a * 4096 + b * 64 + c) / 4096 % 0x10 = a by omega,
    show (a * 4096 + b * 64 + c) / 64 % 0x40 = b by omega,
    show (a * 4096 + b * 64 + c) % 0x40 = c by omega]

private theorem encode_four {a b c d : ℕ} (ha : a < 5) (hb : b < 64) (hc : c < 64) (hd : d < 64)
    (hlow : a = 0 → 0x10 ≤ b) (hhigh : a = 4 → b < 0x10) :
    String.utf8EncodeChar (Char.ofNat (a * 262144 + b * 4096 + c * 64 + d)) =
      [UInt8.ofNat (a + 0xF0), UInt8.ofNat (b + 0x80), UInt8.ofNat (c + 0x80),
        UInt8.ofNat (d + 0x80)] := by
  unfold String.utf8EncodeChar
  rw [toNat_ofNat (by omega)]
  dsimp only
  rw [if_neg (by omega), if_neg (by omega), if_neg (by omega),
    show (a * 262144 + b * 4096 + c * 64 + d) / 262144 % 0x08 = a by omega,
    show (a * 262144 + b * 4096 + c * 64 + d) / 4096 % 0x40 = b by omega,
    show (a * 262144 + b * 4096 + c * 64 + d) / 64 % 0x40 = c by omega,
    show (a * 262144 + b * 4096 + c * 64 + d) % 0x40 = d by omega]

private theorem toNat_of_isCont {b : UInt8} (h : isCont b = true) :
    b.toNat = low6 b + 0x80 ∧ low6 b < 64 := by
  simp only [isCont, Bool.and_eq_true, decide_eq_true_eq, UInt8.le_iff_toNat_le,
    UInt8.reduceToNat] at h
  simp only [low6]
  omega

private theorem ofNat_of_isCont {b : UInt8} (h : isCont b = true) :
    UInt8.ofNat (low6 b + 0x80) = b := by
  rw [← (toNat_of_isCont h).1, UInt8.ofNat_toNat]

private theorem second3_bounds {lead b : UInt8} (hlead : 0xE0 ≤ lead.toNat)
    (h : second3 lead b = true) : isCont b = true ∧ (lead.toNat - 0xE0 = 0 → 0x20 ≤ low6 b) ∧
      (lead.toNat - 0xE0 = 0xD → low6 b < 0x20) := by
  have hcont := isCont_of_second3 h
  refine ⟨hcont, ?_, ?_⟩
  · intro hzero
    have heq : lead = 0xE0 := by
      rw [← UInt8.toNat_inj]
      simp only [UInt8.reduceToNat]
      omega
    subst heq
    have hb := (toNat_of_isCont hcont).1
    simp [second3, UInt8.le_iff_toNat_le] at h
    omega
  · intro hD
    have heq : lead = 0xED := by
      rw [← UInt8.toNat_inj]
      simp only [UInt8.reduceToNat]
      omega
    subst heq
    have hb := (toNat_of_isCont hcont).1
    simp [second3, UInt8.le_iff_toNat_le] at h
    omega

private theorem second4_bounds {lead b : UInt8} (hlead : 0xF0 ≤ lead.toNat)
    (h : second4 lead b = true) : isCont b = true ∧ (lead.toNat - 0xF0 = 0 → 0x10 ≤ low6 b) ∧
      (lead.toNat - 0xF0 = 4 → low6 b < 0x10) := by
  have hcont := isCont_of_second4 h
  refine ⟨hcont, ?_, ?_⟩
  · intro hzero
    have heq : lead = 0xF0 := by
      rw [← UInt8.toNat_inj]
      simp only [UInt8.reduceToNat]
      omega
    subst heq
    have hb := (toNat_of_isCont hcont).1
    simp [second4, UInt8.le_iff_toNat_le] at h
    omega
  · intro hD
    have heq : lead = 0xF4 := by
      rw [← UInt8.toNat_inj]
      simp only [UInt8.reduceToNat]
      omega
    subst heq
    have hb := (toNat_of_isCont hcont).1
    simp [second4, UInt8.le_iff_toNat_le] at h
    omega

/-- A character that is decoded, and is not the replacement, stood there in full. -/
theorem encode_of_decodeNext {lead : UInt8} {rest rest' : List UInt8} {c : Char}
    (h : decodeNext lead rest = (c, rest')) (hc : c ≠ replacement) :
    lead :: rest = String.utf8EncodeChar c ++ rest' := by
  by_cases hascii : lead.toNat < 0x80
  · rw [decodeNext_ascii hascii] at h
    obtain ⟨rfl, rfl⟩ := Prod.mk.inj h
    rw [encode_one hascii, UInt8.ofNat_toNat]
    rfl
  by_cases h2 : 0xC2 ≤ lead.toNat ∧ lead.toNat ≤ 0xDF
  · rw [decodeNext_lead2 h2.1 h2.2] at h
    obtain ⟨b1, tail, rfl, hb1, h⟩ := exists_of_follow h hc
    obtain ⟨rfl, rfl⟩ := Prod.mk.inj h
    have hlead : lead.toNat % 32 + 0xC0 = lead.toNat := by omega
    rw [encode_two (by omega) (by omega) (toNat_of_isCont hb1).2, hlead, UInt8.ofNat_toNat,
      ofNat_of_isCont hb1]
    rfl
  by_cases h3 : 0xE0 ≤ lead.toNat ∧ lead.toNat ≤ 0xEF
  · rw [decodeNext_lead3 h3.1 h3.2] at h
    obtain ⟨b1, tail1, rfl, hb1, h⟩ := exists_of_follow h hc
    obtain ⟨b2, tail2, rfl, hb2, h⟩ := exists_of_follow h hc
    obtain ⟨rfl, rfl⟩ := Prod.mk.inj h
    obtain ⟨hcont, hlow, hhigh⟩ := second3_bounds h3.1 hb1
    have hlead : lead.toNat % 16 + 0xE0 = lead.toNat := by omega
    rw [encode_three (by omega) (toNat_of_isCont hcont).2 (toNat_of_isCont hb2).2
      (by omega) (by omega), hlead, UInt8.ofNat_toNat, ofNat_of_isCont hcont,
      ofNat_of_isCont hb2]
    rfl
  by_cases h4 : 0xF0 ≤ lead.toNat ∧ lead.toNat ≤ 0xF4
  · rw [decodeNext_lead4 h4.1 h4.2] at h
    obtain ⟨b1, tail1, rfl, hb1, h⟩ := exists_of_follow h hc
    obtain ⟨b2, tail2, rfl, hb2, h⟩ := exists_of_follow h hc
    obtain ⟨b3, tail3, rfl, hb3, h⟩ := exists_of_follow h hc
    obtain ⟨rfl, rfl⟩ := Prod.mk.inj h
    obtain ⟨hcont, hlow, hhigh⟩ := second4_bounds h4.1 hb1
    have hlead : lead.toNat % 8 + 0xF0 = lead.toNat := by omega
    rw [encode_four (by omega) (toNat_of_isCont hcont).2 (toNat_of_isCont hb2).2
      (toNat_of_isCont hb3).2 (by omega) (by omega), hlead, UInt8.ofNat_toNat,
      ofNat_of_isCont hcont, ofNat_of_isCont hb2, ofNat_of_isCont hb3]
    rfl
  · rw [decodeNext_invalid (Nat.not_lt.mp hascii) h2 h3 h4] at h
    exact absurd (Prod.mk.inj h).1.symm hc

/-- Bytes that begin like a character, or no bytes. -/
def Starts (suffix : List UInt8) : Prop := ∀ b ∈ suffix.head?, isCont b = false

/-- A sequence that is cut off does not reach into the bytes that begin anew. -/
theorem Follows.append {f : List UInt8 → Char × List UInt8} (hf : Follows f)
    {suffix : List UInt8} (hsuffix : Starts suffix) (rest : List UInt8) :
    f (rest ++ suffix) = ((f rest).1, (f rest).2 ++ suffix) := by
  induction hf generalizing rest with
  | done c => rfl
  | follow test next htest hnext ih =>
      cases rest with
      | nil =>
          cases suffix with
          | nil => rfl
          | cons b tail =>
              have hb : test b = false := by
                have hcont : isCont b = false := hsuffix b rfl
                by_contra hpass
                simp [htest b (by simpa using hpass)] at hcont
              simp [Utf8Lossy.follow, hb]
      | cons b tail =>
          cases hb : test b with
          | true => simpa only [List.cons_append, follow_of_pass hb] using ih b tail
          | false => simp [Utf8Lossy.follow, hb]

theorem decodeNext_append {suffix : List UInt8} (hsuffix : Starts suffix) (lead : UInt8)
    (rest : List UInt8) :
    decodeNext lead (rest ++ suffix) =
      ((decodeNext lead rest).1, (decodeNext lead rest).2 ++ suffix) :=
  (follows_decodeNext lead).append hsuffix rest

theorem Follows.suffix {f : List UInt8 → Char × List UInt8} (hf : Follows f)
    (rest : List UInt8) : (f rest).2 <:+ rest := by
  induction hf generalizing rest with
  | done c => exact List.suffix_rfl
  | follow test next htest hnext ih =>
      cases rest with
      | nil => exact List.suffix_rfl
      | cons b tail =>
          cases hb : test b with
          | true =>
              rw [follow_of_pass hb]
              exact (ih b tail).trans (List.suffix_cons b tail)
          | false => simp [Utf8Lossy.follow, hb]

theorem decodeNext_suffix (lead : UInt8) (rest : List UInt8) :
    (decodeNext lead rest).2 <:+ rest := (follows_decodeNext lead).suffix rest

theorem length_decodeNext_le (lead : UInt8) (rest : List UInt8) :
    (decodeNext lead rest).2.length ≤ rest.length :=
  (decodeNext_suffix lead rest).length_le

/-- The characters of a byte sequence. -/
def chars (bytes : List UInt8) : List Char := decodeChars bytes.length bytes

theorem toList_decode (bytes : List UInt8) : (decode bytes).toList = chars bytes :=
  String.toList_ofList

/-- Any fuel that covers the bytes decodes the same. -/
theorem decodeChars_congr : ∀ {fuel fuel' : ℕ} {bytes : List UInt8}, bytes.length ≤ fuel →
    bytes.length ≤ fuel' → decodeChars fuel bytes = decodeChars fuel' bytes := by
  intro fuel
  induction fuel with
  | zero =>
      intro fuel' bytes h _
      obtain rfl := List.length_eq_zero_iff.mp (Nat.le_zero.mp h)
      cases fuel' <;> rfl
  | succ fuel ih =>
      intro fuel' bytes h h'
      cases bytes with
      | nil => cases fuel' <;> rfl
      | cons lead rest =>
          obtain ⟨fuel', rfl⟩ : ∃ n, fuel' = n + 1 :=
            ⟨fuel' - 1, by rw [List.length_cons] at h'; omega⟩
          have hle := length_decodeNext_le lead rest
          rw [List.length_cons] at h h'
          have hrest := @ih fuel' (decodeNext lead rest).2 (by omega) (by omega)
          rw [decodeChars, decodeChars, hrest]

theorem chars_cons (lead : UInt8) (rest : List UInt8) :
    chars (lead :: rest) = (decodeNext lead rest).1 :: chars (decodeNext lead rest).2 := by
  rw [chars, List.length_cons, decodeChars]
  exact congrArg _ (decodeChars_congr (length_decodeNext_le ..) le_rfl)

/-- Decoding begins anew where a character begins. -/
theorem chars_append {suffix : List UInt8} (hsuffix : Starts suffix) :
    ∀ {n : ℕ} {bytes : List UInt8}, bytes.length ≤ n →
      chars (bytes ++ suffix) = chars bytes ++ chars suffix := by
  intro n
  induction n with
  | zero =>
      intro bytes h
      obtain rfl := List.length_eq_zero_iff.mp (Nat.le_zero.mp h)
      rfl
  | succ n ih =>
      intro bytes h
      cases bytes with
      | nil => rfl
      | cons lead rest =>
          have hle := length_decodeNext_le lead rest
          rw [List.length_cons] at h
          rw [List.cons_append, chars_cons, chars_cons, decodeNext_append hsuffix,
            ih (by omega), List.cons_append]

theorem starts_encode (cs : List Char) (hne : cs ≠ []) (rest : List UInt8) :
    Starts (cs.flatMap String.utf8EncodeChar ++ rest) := by
  obtain ⟨c, cs, rfl⟩ := List.exists_cons_of_ne_nil hne
  obtain ⟨lead, tail, hencode, hcont, -⟩ := decodeNext_encode c []
  intro b hb
  simp only [List.flatMap_cons, hencode, List.cons_append, List.head?_cons, Option.mem_some_iff]
    at hb
  exact hb ▸ hcont

/-- Text that is encoded is decoded to itself. -/
theorem chars_encode_append (cs : List Char) (rest : List UInt8) :
    chars (cs.flatMap String.utf8EncodeChar ++ rest) = cs ++ chars rest := by
  induction cs with
  | nil => rfl
  | cons c cs ih =>
      obtain ⟨lead, tail, hencode, -, hdecode⟩ :=
        decodeNext_encode c (cs.flatMap String.utf8EncodeChar ++ rest)
      rw [List.flatMap_cons, hencode, List.append_assoc, List.cons_append, chars_cons, hdecode,
        ih, List.cons_append]

/-- Encoded text that stands in the bytes stands in what they decode to,
whatever surrounds it. -/
theorem infix_chars {cs : List Char} {bytes : List UInt8}
    (h : cs.flatMap String.utf8EncodeChar <:+: bytes) : cs <:+: chars bytes := by
  by_cases hne : cs = []
  · exact hne ▸ List.nil_infix
  · obtain ⟨before, after, rfl⟩ := h
    rw [List.append_assoc, chars_append (starts_encode cs hne after) le_rfl,
      chars_encode_append]
    exact ⟨chars before, chars after, by rw [List.append_assoc]⟩

/-- What is decoded after some characters is what some last bytes decode to. -/
theorem exists_suffix_of_chars {xs zs : List Char} : ∀ {bytes : List UInt8},
    chars bytes = xs ++ zs → ∃ suffix, suffix <:+ bytes ∧ chars suffix = zs := by
  induction xs with
  | nil => exact fun {bytes} h => ⟨bytes, List.suffix_rfl, h⟩
  | cons x xs ih =>
      intro bytes h
      cases bytes with
      | nil => simp [chars, decodeChars] at h
      | cons lead rest =>
          rw [chars_cons, List.cons_append, List.cons.injEq] at h
          obtain ⟨suffix, hsuffix, hchars⟩ := ih h.2
          exact ⟨suffix, (hsuffix.trans (decodeNext_suffix lead rest)).trans
            (List.suffix_cons _ _), hchars⟩

/-- Characters that are decoded and have no replacement among them stood in the
bytes. -/
theorem prefix_of_chars {cs ys : List Char} (hcs : replacement ∉ cs) : ∀ {bytes : List UInt8},
    chars bytes = cs ++ ys → cs.flatMap String.utf8EncodeChar <+: bytes := by
  induction cs with
  | nil => exact fun _ => List.nil_prefix
  | cons c cs ih =>
      intro bytes h
      cases bytes with
      | nil => simp [chars, decodeChars] at h
      | cons lead rest =>
          rw [chars_cons, List.cons_append, List.cons.injEq] at h
          rw [List.mem_cons, not_or] at hcs
          have hbytes := encode_of_decodeNext (Prod.ext h.1 rfl) (Ne.symm hcs.1)
          rw [hbytes, List.flatMap_cons]
          exact List.prefix_append_right_inj _ |>.mpr (ih hcs.2 h.2)

/-- Decoded text without a replacement character stands encoded in the bytes. -/
theorem infix_of_infix_chars {cs : List Char} {bytes : List UInt8} (hcs : replacement ∉ cs)
    (h : cs <:+: chars bytes) : cs.flatMap String.utf8EncodeChar <:+: bytes := by
  obtain ⟨xs, ys, h⟩ := h
  rw [List.append_assoc] at h
  obtain ⟨suffix, hsuffix, hchars⟩ := exists_suffix_of_chars h.symm
  exact (prefix_of_chars hcs hchars).isInfix.trans hsuffix.isInfix

end Utf8Lossy

/-
# Decoding UTF-8 that comes in pieces

A decoder with a memory keeps the beginning of a sequence back until the rest of it
has come. What it has decoded after some pieces is then what it decodes from the
whole of them, however they were cut.
-/

import Commmon.Lib.Utf8Chunks

set_option autoImplicit false

namespace Utf8Lossy

/-- Two more bytes are needed, or one. -/
def waits3 (lead : UInt8) : List UInt8 → Bool
  | [] => true
  | [b1] => second3 lead b1
  | _ => false

/-- Three more bytes are needed, or two, or one. -/
def waits4 (lead : UInt8) : List UInt8 → Bool
  | [] => true
  | [b1] => second4 lead b1
  | [b1, b2] => second4 lead b1 && isCont b2
  | _ => false

/-- The bytes are the beginning of a sequence that could still become well-formed. -/
def waits (lead : UInt8) (rest : List UInt8) : Bool :=
  if 0xC2 ≤ lead && lead ≤ 0xDF then rest.isEmpty
  else if 0xE0 ≤ lead && lead ≤ 0xEF then waits3 lead rest
  else if 0xF0 ≤ lead && lead ≤ 0xF4 then waits4 lead rest
  else false

/-- Decode at most `fuel` characters, and stop where more bytes are needed. -/
def decodeReady : ℕ → List UInt8 → List Char × List UInt8
  | 0, bytes => ([], bytes)
  | _, [] => ([], [])
  | fuel + 1, lead :: rest =>
      if waits lead rest then ([], lead :: rest)
      else
        let r := decodeReady fuel (decodeNext lead rest).2
        ((decodeNext lead rest).1 :: r.1, r.2)

/-- The characters that are certain, and the bytes that are kept back. -/
def ready (bytes : List UInt8) : List Char × List UInt8 := decodeReady bytes.length bytes

private theorem decodeReady_congr : ∀ {fuel fuel' : ℕ} {bytes : List UInt8}, bytes.length ≤ fuel →
    bytes.length ≤ fuel' → decodeReady fuel bytes = decodeReady fuel' bytes := by
  intro fuel
  induction fuel with
  | zero =>
      intro fuel' bytes hfuel _
      obtain rfl := List.length_eq_zero_iff.mp (Nat.le_zero.mp hfuel)
      cases fuel' <;> rfl
  | succ fuel ih =>
      intro fuel' bytes hfuel hfuel'
      cases bytes with
      | nil => cases fuel' <;> rfl
      | cons lead rest =>
          obtain ⟨fuel', rfl⟩ : ∃ n, fuel' = n + 1 := ⟨fuel' - 1, by simp at hfuel'; omega⟩
          have hle := length_decodeNext_le lead rest
          rw [List.length_cons] at hfuel hfuel'
          have hsame : decodeReady fuel (decodeNext lead rest).2 =
              decodeReady fuel' (decodeNext lead rest).2 := ih (by omega) (by omega)
          rw [decodeReady, decodeReady, hsame]

@[simp]
theorem ready_nil : ready [] = ([], []) := rfl

theorem ready_cons (lead : UInt8) (rest : List UInt8) :
    ready (lead :: rest) =
      if waits lead rest then ([], lead :: rest)
      else ((decodeNext lead rest).1 :: (ready (decodeNext lead rest).2).1,
        (ready (decodeNext lead rest).2).2) := by
  have hle := length_decodeNext_le lead rest
  have hsame : decodeReady rest.length (decodeNext lead rest).2 = ready (decodeNext lead rest).2 :=
    decodeReady_congr hle le_rfl
  rw [ready, List.length_cons, decodeReady, hsame]

private theorem follow_append {test : UInt8 → Bool} {next : UInt8 → List UInt8 → Char × List UInt8}
    {rest : List UInt8} (hne : rest ≠ [])
    (hnext : ∀ b tail, rest = b :: tail → test b = true →
      ∀ more, next b (tail ++ more) = ((next b tail).1, (next b tail).2 ++ more))
    (more : List UInt8) : follow test next (rest ++ more) =
      ((follow test next rest).1, (follow test next rest).2 ++ more) := by
  obtain ⟨b, tail, rfl⟩ := List.exists_cons_of_ne_nil hne
  cases hb : test b with
  | true =>
      rw [List.cons_append, follow_of_pass hb, follow_of_pass hb]
      exact hnext b tail rfl hb more
  | false => simp [follow, hb]

/-- A sequence that needs no more bytes is decoded as it is, whatever comes. -/
theorem decodeNext_of_not_waits {lead : UInt8} {rest : List UInt8} (h : waits lead rest = false)
    (more : List UInt8) : decodeNext lead (rest ++ more) =
      ((decodeNext lead rest).1, (decodeNext lead rest).2 ++ more) := by
  unfold waits at h
  by_cases hascii : lead < 0x80
  · rw [decodeNext_ascii (UInt8.lt_iff_toNat_lt.mp hascii)]
  have hbeyond : 0x80 ≤ lead.toNat :=
    Nat.not_lt.mp fun hlt => hascii (UInt8.lt_iff_toNat_lt.mpr hlt)
  split_ifs at h with h2 h3 h4
  · have hbounds := between_iff.mp h2
    rw [decodeNext_lead2 hbounds.1 hbounds.2]
    refine follow_append ?_ (fun b tail _ _ more => rfl) more
    rintro rfl
    simp at h
  · have hbounds := between_iff.mp h3
    rw [decodeNext_lead3 hbounds.1 hbounds.2]
    refine follow_append (by rintro rfl; simp [waits3] at h) (fun b tail hrest hb more => ?_) more
    refine follow_append ?_ (fun b' tail' _ _ more => rfl) more
    rintro rfl
    simp [hrest, hb, waits3] at h
  · have hbounds := between_iff.mp h4
    rw [decodeNext_lead4 hbounds.1 hbounds.2]
    refine follow_append (by rintro rfl; simp [waits4] at h) (fun b tail hrest hb more => ?_) more
    refine follow_append (by rintro rfl; simp [hrest, hb, waits4] at h)
      (fun b' tail' htail hb' more => ?_) more
    refine follow_append ?_ (fun b'' tail'' _ _ more => rfl) more
    rintro rfl
    simp [hrest, htail, hb, hb', waits4] at h
  · rw [between_iff] at h2 h3 h4
    rw [decodeNext_invalid hbeyond h2 h3 h4]

/-- More bytes make nothing wait that does not. -/
theorem not_waits_append {lead : UInt8} {rest : List UInt8} (h : waits lead rest = false)
    (more : List UInt8) : waits lead (rest ++ more) = false := by
  unfold waits at h ⊢
  split_ifs at h ⊢ with h2 h3 h4
  · cases rest with
    | nil => simp at h
    | cons b tail => rfl
  · rcases rest with - | ⟨b1, - | ⟨b2, tail⟩⟩
    · simp [waits3] at h
    · rcases more with - | ⟨b2, more⟩
      · exact h
      · rfl
    · rfl
  · rcases rest with - | ⟨b1, - | ⟨b2, - | ⟨b3, tail⟩⟩⟩
    · simp [waits4] at h
    · rcases more with - | ⟨b2, - | ⟨b3, more⟩⟩
      · exact h
      · exact Bool.and_eq_false_imp.mpr fun hb => absurd hb (Bool.eq_false_iff.mp h)
      · rfl
    · rcases more with - | ⟨b3, more⟩
      · exact h
      · rfl
    · rfl
  · rfl

/-- An encoded character needs no more bytes. -/
theorem not_waits_encode {c : Char} {lead : UInt8} {tail : List UInt8}
    (h : String.utf8EncodeChar c = lead :: tail) : waits lead tail = false := by
  have hval : c.val.toNat < 0x110000 := by
    have hvalid := c.valid
    simp only [UInt32.isValidChar, Nat.isValidChar] at hvalid
    omega
  unfold String.utf8EncodeChar at h
  dsimp only at h
  generalize c.val.toNat = v at *
  split_ifs at h with h1 h2 h3 <;> obtain ⟨rfl, rfl⟩ := List.cons.inj h
  · have hnot : ∀ lo hi : UInt8, 0x80 ≤ lo.toNat →
        ¬ (decide (lo ≤ UInt8.ofNat v) && decide (UInt8.ofNat v ≤ hi)) = true := by
      intro lo hi hlo
      refine not_between (Or.inl ?_)
      rw [toNat_byte (by omega)]
      omega
    rw [waits, if_neg (hnot _ _ (by decide)), if_neg (hnot _ _ (by decide)),
      if_neg (hnot _ _ (by decide))]
  · have hlead := toNat_byte (n := v / 64 % 0x20 + 0xC0) (by omega)
    unfold waits
    split_ifs with h2 h3 h4
    · rfl
    · have hbounds : 0xE0 ≤ _ := (between_iff.mp h3).1
      omega
    · have hbounds : 0xF0 ≤ _ := (between_iff.mp h4).1
      omega
    · rfl
  · have hlead := toNat_byte (n := v / 4096 % 0x10 + 0xE0) (by omega)
    unfold waits
    split_ifs with h2 h3 h4
    · rfl
    · rfl
    · have hbounds : 0xF0 ≤ _ := (between_iff.mp h4).1
      omega
    · rfl
  · unfold waits
    split_ifs <;> rfl

/-- Decoding goes on where it stopped. -/
theorem ready_append (bytes more : List UInt8) :
    ready (bytes ++ more) =
      ((ready bytes).1 ++ (ready ((ready bytes).2 ++ more)).1,
        (ready ((ready bytes).2 ++ more)).2) := by
  induction hlength : bytes.length using Nat.strong_induction_on generalizing bytes with
  | _ n ih =>
      cases bytes with
      | nil => rfl
      | cons lead rest =>
          cases hwaits : waits lead rest with
          | true => simp [ready_cons lead rest, hwaits]
          | false =>
              have hlater : waits lead (rest ++ more) = false := not_waits_append hwaits more
              have hle := length_decodeNext_le lead rest
              rw [List.length_cons] at hlength
              have hrest := ih (decodeNext lead rest).2.length (by omega) _ rfl
              rw [List.cons_append, ready_cons lead (rest ++ more), ready_cons lead rest, hwaits,
                hlater, decodeNext_of_not_waits hwaits]
              simp only [Bool.false_eq_true, if_false, hrest, List.cons_append]

/-- Encoded text is decoded at once. -/
theorem ready_encode (cs : List Char) : ready (encode cs) = (cs, []) := by
  induction cs with
  | nil => rfl
  | cons c cs ih =>
      obtain ⟨lead, tail, hc, -, hnext⟩ := decodeNext_encode c (encode cs)
      rw [encode_cons, hc, List.cons_append, ready_cons, hnext, ih,
        not_waits_append (not_waits_encode hc)]
      rfl

/-- The beginning of a character waits for the rest of it. -/
theorem waits_of_part {c : Char} {lead : UInt8} {conts tail : List UInt8}
    (h : String.utf8EncodeChar c = lead :: (conts ++ tail)) (htail : tail ≠ []) :
    waits lead conts = true := by
  by_contra hnot
  obtain ⟨lead', tail', hc, -, hnext⟩ := decodeNext_encode c []
  obtain ⟨rfl, rfl⟩ := List.cons.inj (h.symm.trans hc)
  rw [List.append_nil, decodeNext_of_not_waits (Bool.eq_false_iff.mpr hnot)] at hnext
  exact htail (List.append_eq_nil_iff.mp (Prod.mk.inj hnext).2).2

section Reader

universe v

variable {σ : Type v} (onChar : σ → Char → σ)

/-- A piece comes. The characters that are certain are handled. -/
def feedChars (s : σ × List UInt8) (piece : List UInt8) : σ × List UInt8 :=
  ((ready (s.2 ++ piece)).1.foldl onChar s.1, (ready (s.2 ++ piece)).2)

/-- What is kept back is kept back again. -/
theorem ready_kept (bytes : List UInt8) : ready (ready bytes).2 = ([], (ready bytes).2) := by
  have hagain := ready_append bytes []
  rw [List.append_nil, List.append_nil] at hagain
  have hfirst := congrArg Prod.fst hagain
  exact Prod.ext (List.self_eq_append_right.mp hfirst) (congrArg Prod.snd hagain).symm

/-- A reader of characters does with pieces what it does with the whole. -/
theorem foldl_feedChars (pieces : List (List UInt8)) : ∀ {s : σ} {kept : List UInt8},
    ready kept = ([], kept) → pieces.foldl (feedChars onChar) (s, kept) =
      ((ready (kept ++ pieces.flatten)).1.foldl onChar s, (ready (kept ++ pieces.flatten)).2) := by
  induction pieces with
  | nil =>
      intro s kept hkept
      simp [hkept]
  | cons piece pieces ih =>
      intro s kept _
      rw [List.foldl_cons, feedChars, ih (ready_kept _), List.flatten_cons,
        ← List.append_assoc kept, ready_append (_ ++ _), List.foldl_append]

end Reader

/-- The certain part of encoded text is the beginning of it, and what is kept back is
part of the next character. -/
theorem ready_of_encode {cs : List Char} {came later : List UInt8} (h : came ++ later = encode cs) :
    ∃ pre post, cs = pre ++ post ∧ ready came = (pre, (ready came).2) ∧
      came = encode pre ++ (ready came).2 ∧ ∀ b ∈ (ready came).2, 0x80 ≤ b.toNat := by
  obtain ⟨pre, post, rfl, ⟨rfl, -⟩ | ⟨c, post', part, tail, -, hchar, hpart, htail, rfl, -⟩⟩ :=
    cut_encode h
  · refine ⟨pre, post, rfl, ?_⟩
    rw [ready_encode]
    simp
  · obtain ⟨lead, conts, rfl⟩ := List.exists_cons_of_ne_nil hpart
    have hkept : ready (encode pre ++ lead :: conts) = (pre, lead :: conts) := by
      rw [ready_append, ready_encode, List.nil_append, ready_cons, waits_of_part hchar htail]
      simp
    refine ⟨pre, post, rfl, ?_⟩
    rw [hkept]
    refine ⟨rfl, rfl, fun b hb => ?_⟩
    have hbeyond := toNat_of_parts hchar hpart htail
    obtain ⟨hascii, -⟩ | ⟨-, hb'⟩ := toNat_of_mem_encode (hchar ▸ List.mem_append_left tail hb)
    · exact absurd hascii (Nat.not_lt.mpr hbeyond)
    · exact hb'

/-- An ASCII character is as often in encoded text as it is in the text. -/
theorem count_encode {c : Char} (hc : c.toNat < 0x80) (cs : List Char) :
    (encode cs).count (UInt8.ofNat c.toNat) = cs.count c := by
  have hbyte : (UInt8.ofNat c.toNat).toNat = c.toNat := toNat_byte (by omega)
  induction cs with
  | nil => rfl
  | cons d cs ih =>
      rw [encode_cons, List.count_append, ih, List.count_cons, Nat.add_comm]
      congr 1
      by_cases hd : d = c
      · subst hd
        have hone := encode_one hc
        rw [d.ofNat_toNat] at hone
        simp [hone]
      · have hnot : UInt8.ofNat c.toNat ∉ String.utf8EncodeChar d := by
          intro hmem
          obtain ⟨-, hsame⟩ | ⟨-, hbeyond⟩ := toNat_of_mem_encode hmem
          · refine hd ?_
            rw [← d.ofNat_toNat, ← c.ofNat_toNat, ← hsame, hbyte]
          · omega
        rw [List.count_eq_zero_of_not_mem hnot, if_neg (by simpa using hd)]

end Utf8Lossy

/-
# Decoding chunk by chunk

Encoded text is cut into chunks anywhere, and each chunk is decoded on its own.
A chunk of whole characters is decoded to them. A character that a cut goes
through is lost: at least two of the chunks have a part of it, and each of them
gives one replacement character or more.
-/

import Commmon.Lib.Utf8Lossy

set_option autoImplicit false

namespace Utf8Lossy

/-- The bytes of a text. -/
def encode (cs : List Char) : List UInt8 := cs.flatMap String.utf8EncodeChar

/-- Bytes that no character reaches into or out of. -/
def Whole (bytes : List UInt8) : Prop := ∃ cs, bytes = encode cs

/-- What is left of a text when some characters beyond ASCII have been cut. -/
inductive Garbled : List Char → List Char → Prop
  | nil : Garbled [] []
  | keep {cs ds : List Char} (c : Char) (h : Garbled cs ds) : Garbled (c :: cs) (c :: ds)
  | cut {cs ds : List Char} (c : Char) (n : ℕ) (hc : 0x80 ≤ c.toNat) (hn : 2 ≤ n)
      (h : Garbled cs ds) : Garbled (c :: cs) (List.replicate n replacement ++ ds)

@[simp] theorem encode_nil : encode [] = [] := rfl

@[simp]
theorem encode_cons (c : Char) (cs : List Char) :
    encode (c :: cs) = String.utf8EncodeChar c ++ encode cs := rfl

@[simp]
theorem encode_append (cs ds : List Char) : encode (cs ++ ds) = encode cs ++ encode ds :=
  List.flatMap_append

theorem chars_encode (cs : List Char) : chars (encode cs) = cs := by
  simpa [encode, chars, decodeChars] using chars_encode_append cs []

namespace Garbled

theorem refl (cs : List Char) : Garbled cs cs := by
  induction cs with
  | nil => exact .nil
  | cons c cs ih => exact .keep c ih

private theorem prepend {cs ds : List Char} (h : Garbled cs ds) (pre : List Char) :
    Garbled (pre ++ cs) (pre ++ ds) := by
  induction pre with
  | nil => exact h
  | cons c pre ih => exact .keep c ih

/-- A text without replacement characters has not been cut. -/
theorem eq_of_clean {cs ds : List Char} (h : Garbled cs ds) (hds : replacement ∉ ds) :
    cs = ds := by
  induction h with
  | nil => rfl
  | keep c h ih => rw [ih fun hmem => hds (List.mem_cons_of_mem _ hmem)]
  | cut c n hc hn h ih =>
      refine absurd (List.mem_append_left _ (List.mem_replicate.mpr ⟨?_, rfl⟩)) hds
      omega

theorem length_le {cs ds : List Char} (h : Garbled cs ds) : cs.length ≤ ds.length := by
  induction h with
  | nil => exact le_rfl
  | keep c h ih => simpa using ih
  | cut c n hc hn h ih =>
      rw [List.length_cons, List.length_append, List.length_replicate]
      omega

/-- Nothing is cut from the front part alone. -/
theorem append_inv {cs₁ cs₂ ds : List Char} (h : Garbled (cs₁ ++ cs₂) ds) :
    ∃ ds₁ ds₂, ds = ds₁ ++ ds₂ ∧ Garbled cs₁ ds₁ ∧ Garbled cs₂ ds₂ := by
  induction cs₁ generalizing ds with
  | nil => exact ⟨[], ds, rfl, .nil, h⟩
  | cons c cs₁ ih =>
      cases h with
      | keep c h =>
          obtain ⟨ds₁, ds₂, rfl, h₁, h₂⟩ := ih h
          exact ⟨c :: ds₁, ds₂, rfl, .keep c h₁, h₂⟩
      | cut c n hc hn h =>
          obtain ⟨ds₁, ds₂, rfl, h₁, h₂⟩ := ih h
          exact ⟨_, ds₂, (List.append_assoc _ _ _).symm, .cut c n hc hn h₁, h₂⟩

/-- ASCII text is never garbled. -/
theorem eq_of_ascii {cs ds : List Char} (h : Garbled cs ds) (hcs : ∀ c ∈ cs, c.toNat < 0x80) :
    ds = cs := by
  induction h with
  | nil => rfl
  | keep c h ih => rw [ih fun d hd => hcs d (List.mem_cons_of_mem c hd)]
  | cut c n hc hn h ih => exact absurd (hcs c List.mem_cons_self) (Nat.not_lt.mpr hc)

/-- One ASCII character stands. -/
theorem cons_ascii {c : Char} {cs ds : List Char} (h : Garbled (c :: cs) ds)
    (hc : c.toNat < 0x80) : ∃ ds', ds = c :: ds' ∧ Garbled cs ds' := by
  cases h with
  | keep c h => exact ⟨_, rfl, h⟩
  | cut c n hcut hn h => exact absurd hc (Nat.not_lt.mpr hcut)

end Garbled

private theorem encode_isCont {c : Char} {lead : UInt8} {tail : List UInt8}
    (h : String.utf8EncodeChar c = lead :: tail) : ∀ b ∈ tail, isCont b = true := by
  intro b hb
  unfold String.utf8EncodeChar at h
  dsimp only at h
  split_ifs at h <;> obtain ⟨-, rfl⟩ := List.cons.inj h
  · simp at hb
  · simp only [List.mem_singleton] at hb
    exact hb ▸ isCont_ofNat (Nat.mod_lt _ (by decide))
  · simp only [List.mem_cons, List.not_mem_nil, or_false] at hb
    rcases hb with rfl | rfl <;> exact isCont_ofNat (Nat.mod_lt _ (by decide))
  · simp only [List.mem_cons, List.not_mem_nil, or_false] at hb
    rcases hb with rfl | rfl | rfl <;> exact isCont_ofNat (Nat.mod_lt _ (by decide))

/-- An ASCII character is its byte; no byte of another one is ASCII. -/
theorem toNat_of_mem_encode {c : Char} {b : UInt8} (hb : b ∈ String.utf8EncodeChar c) :
    (c.toNat < 0x80 ∧ b.toNat = c.toNat) ∨ (0x80 ≤ c.toNat ∧ 0x80 ≤ b.toNat) := by
  have hval : c.val.toNat = c.toNat := rfl
  unfold String.utf8EncodeChar at hb
  dsimp only at hb
  rw [hval] at hb
  split_ifs at hb with hascii
  · rw [List.mem_singleton.mp hb]
    exact Or.inl ⟨by omega, toNat_byte (by omega)⟩
  all_goals
    refine Or.inr ⟨by omega, ?_⟩
    simp only [List.mem_cons, List.not_mem_nil, or_false] at hb
    rcases hb with rfl | rfl | rfl | rfl
  all_goals
    rw [toNat_byte (by omega)]
    omega

/-- Continuation bytes by themselves are replaced one by one. -/
theorem chars_conts {conts : List UInt8} (hconts : ∀ b ∈ conts, isCont b = true)
    (rest : List UInt8) :
    chars (conts ++ rest) = List.replicate conts.length replacement ++ chars rest := by
  induction conts with
  | nil => rfl
  | cons b conts ih =>
      obtain ⟨hb, hconts⟩ := List.forall_mem_cons.mp hconts
      have hbounds := isCont_iff.mp hb
      have hnext : decodeNext b = fun rest => (replacement, rest) :=
        decodeNext_invalid hbounds.1 (by omega) (by omega) (by omega)
      rw [List.cons_append, chars_cons, hnext, ih hconts]
      rfl

/-- The beginning of a character is replaced, by one character or more. -/
theorem chars_part {c : Char} {part tail : List UInt8}
    (hencode : String.utf8EncodeChar c = part ++ tail) (hpart : part ≠ []) (htail : tail ≠ []) :
    ∃ n, chars part = List.replicate (n + 1) replacement := by
  obtain ⟨lead, conts, rfl⟩ := List.exists_cons_of_ne_nil hpart
  have hconts : ∀ b ∈ conts, isCont b = true := fun b hb =>
    encode_isCont hencode b (List.mem_append_left _ hb)
  rcases hnext : decodeNext lead conts with ⟨c', rest⟩
  have hfirst : c' = replacement := by
    by_contra hne
    -- What is decoded from the part would be decoded from the whole, and end earlier.
    have hstood := encode_of_decodeNext hnext hne
    obtain ⟨l₁, t₁, hc, -, hwhole⟩ := decodeNext_encode c []
    obtain ⟨l₂, t₂, hc', -, hearly⟩ := decodeNext_encode c' (rest ++ tail)
    obtain ⟨rfl, rfl⟩ := List.cons.inj (hencode.symm.trans hc)
    rw [hc'] at hstood
    obtain ⟨rfl, rfl⟩ := List.cons.inj hstood
    simp only [List.append_eq, List.append_nil, List.append_assoc] at hwhole
    rw [hearly] at hwhole
    exact htail (List.append_eq_nil_iff.mp (Prod.mk.inj hwhole).2).2
  have hsuffix := decodeNext_suffix lead conts
  rw [hnext] at hsuffix
  have hrest := chars_conts (fun b hb => hconts b (hsuffix.subset hb)) []
  rw [List.append_nil] at hrest
  refine ⟨rest.length, ?_⟩
  rw [chars_cons, hnext, hfirst, hrest, List.replicate_succ]
  exact congrArg _ (List.append_nil _)

/-- A cut falls between two characters or goes through one. -/
theorem cut_encode {cs : List Char} : ∀ {bytes rest : List UInt8}, bytes ++ rest = encode cs →
    ∃ pre post, cs = pre ++ post ∧
      (bytes = encode pre ∧ rest = encode post ∨
        ∃ c post' part tail, post = c :: post' ∧ String.utf8EncodeChar c = part ++ tail ∧
          part ≠ [] ∧ tail ≠ [] ∧ bytes = encode pre ++ part ∧
            rest = tail ++ encode post') := by
  induction cs with
  | nil =>
      intro bytes rest h
      obtain ⟨rfl, rfl⟩ := List.append_eq_nil_iff.mp h
      exact ⟨[], [], rfl, Or.inl ⟨rfl, rfl⟩⟩
  | cons c cs ih =>
      intro bytes rest h
      obtain ⟨tail, hchar, hrest⟩ | ⟨more, hbytes, hmore⟩ := List.append_eq_append_iff.mp h
      · -- the cut is at the first character
        rcases eq_or_ne bytes [] with rfl | hne
        · exact ⟨[], c :: cs, rfl, Or.inl ⟨rfl, h⟩⟩
        rcases eq_or_ne tail [] with rfl | htail
        · refine ⟨[c], cs, rfl, Or.inl ⟨?_, hrest⟩⟩
          rw [encode_cons, hchar, List.append_nil, encode_nil, List.append_nil]
        · exact ⟨[], c :: cs, rfl, Or.inr ⟨c, cs, bytes, tail, rfl, hchar, hne, htail, rfl, hrest⟩⟩
      · obtain ⟨pre, post, rfl, hcut⟩ := ih hmore.symm
        refine ⟨c :: pre, post, rfl, ?_⟩
        obtain ⟨rfl, rfl⟩ | ⟨d, post', part, tail, hpost, hchar, hpart, htail, rfl, rfl⟩ := hcut
        · exact Or.inl ⟨hbytes, rfl⟩
        · refine Or.inr ⟨d, post', part, tail, hpost, hchar, hpart, htail, ?_, rfl⟩
          rw [hbytes, encode_cons, List.append_assoc]

/-- Encoded text stands in encoded text as it does in the text. No occurrence
begins or ends within a character. -/
theorem exists_of_encode_infix {cs pat : List Char} (hpat : pat ≠ []) {before after : List UInt8}
    (h : before ++ (encode pat ++ after) = encode cs) :
    ∃ xs ys, cs = xs ++ (pat ++ ys) ∧ before = encode xs ∧ after = encode ys := by
  obtain ⟨xs, post, rfl, ⟨hbefore, hpost⟩ |
    ⟨c, post', part, tail, -, hchar, hpart, htail, -, hrest⟩⟩ := cut_encode h
  · have hchars := chars_encode_append pat after
    rw [← encode, hpost, chars_encode] at hchars
    refine ⟨xs, chars after, by rw [hchars], hbefore, ?_⟩
    rw [hchars, encode_append] at hpost
    exact List.append_cancel_left hpost
  · -- the occurrence would begin with a continuation byte
    obtain ⟨lead, conts, rfl⟩ := List.exists_cons_of_ne_nil hpart
    obtain ⟨b, bs, rfl⟩ := List.exists_cons_of_ne_nil htail
    have hcont := encode_isCont hchar b (List.mem_append_right _ List.mem_cons_self)
    have hstart := starts_encode pat hpat after b (by rw [← encode, hrest]; rfl)
    exact absurd hcont (Bool.eq_false_iff.mp hstart)

private theorem length_utf8EncodeChar_ascii {c : Char} (hc : c.toNat < 0x80) :
    (String.utf8EncodeChar c).length = 1 := by
  rw [String.length_utf8EncodeChar, Char.utf8Size_eq_one_iff, UInt32.le_iff_toNat_le]
  exact Nat.le_of_lt_succ hc

/-- Only a character beyond ASCII has two parts. -/
theorem toNat_of_parts {c : Char} {part tail : List UInt8}
    (hencode : String.utf8EncodeChar c = part ++ tail) (hpart : part ≠ []) (htail : tail ≠ []) :
    0x80 ≤ c.toNat := by
  by_contra hascii
  have hlength := length_utf8EncodeChar_ascii (Nat.not_le.mp hascii)
  rw [hencode, List.length_append] at hlength
  have hp := List.length_pos_of_ne_nil hpart
  have ht := List.length_pos_of_ne_nil htail
  omega

/-- Chunks whose first one begins within a character: `tail` is what is left of
it. If no character of the text is lost, then every cut falls between two. -/
theorem garbled_after (chunks : List (List UInt8)) : ∀ {tail : List UInt8} {cs : List Char},
    (∀ b ∈ tail, isCont b = true) → chunks.flatten = tail ++ encode cs →
      ∃ ds, chunks.flatMap chars = List.replicate tail.length replacement ++ ds ∧
        Garbled cs ds ∧
        (tail = [] → ds.length = cs.length → ∀ chunk ∈ chunks, Whole chunk) := by
  induction chunks with
  | nil =>
      intro tail cs _ h
      obtain ⟨rfl, hcs⟩ := List.append_eq_nil_iff.mp h.symm
      have hnil : cs = [] := by rw [← chars_encode cs, hcs]; rfl
      exact ⟨[], rfl, hnil ▸ .nil, by simp⟩
  | cons chunk chunks ih =>
      intro tail cs htail h
      rw [List.flatten_cons] at h
      obtain ⟨left, rfl, hrest⟩ | ⟨bytes, rfl, hbytes⟩ := List.append_eq_append_iff.mp h
      · -- the chunk ends within the same character
        obtain ⟨hchunk, hleft⟩ := List.forall_mem_append.mp htail
        obtain ⟨ds, hds, hgarbled, hwhole⟩ := ih hleft hrest
        refine ⟨ds, ?_, hgarbled, ?_⟩
        · have hchars := chars_conts hchunk []
          rw [List.append_nil] at hchars
          rw [List.flatMap_cons, hds, hchars, List.length_append,
            ← List.replicate_append_replicate, List.append_assoc, List.append_assoc]
          rfl
        · rintro hnil hlength
          obtain ⟨rfl, rfl⟩ := List.append_eq_nil_iff.mp hnil
          exact List.forall_mem_cons.mpr ⟨⟨[], rfl⟩, hwhole rfl hlength⟩
      · obtain ⟨pre, post, rfl, ⟨rfl, hrest⟩ |
          ⟨c, post', part, tail', rfl, hchar, hpart, htail', rfl, hrest⟩⟩ :=
          cut_encode hbytes.symm
        · -- the chunk ends between two characters
          obtain ⟨ds, hds, hgarbled, hwhole⟩ := @ih [] post (by simp) hrest
          refine ⟨pre ++ ds, ?_, hgarbled.prepend pre, ?_⟩
          · rw [List.flatMap_cons, hds, chars_conts htail, chars_encode, List.append_assoc]
            rfl
          · rintro rfl hlength
            rw [List.length_append, List.length_append, Nat.add_left_cancel_iff] at hlength
            exact List.forall_mem_cons.mpr ⟨⟨pre, rfl⟩, hwhole rfl hlength⟩
        · -- the chunk ends within another character
          have hconts : ∀ b ∈ tail', isCont b = true := by
            obtain ⟨lead, conts, rfl⟩ := List.exists_cons_of_ne_nil hpart
            exact fun b hb => encode_isCont hchar b (List.mem_append_right _ hb)
          obtain ⟨ds, hds, hgarbled, -⟩ := ih hconts hrest
          obtain ⟨n, hn⟩ := chars_part hchar hpart htail'
          have hlost : 2 ≤ n + 1 + tail'.length := by
            have := List.length_pos_of_ne_nil htail'
            omega
          refine ⟨pre ++ (List.replicate (n + 1 + tail'.length) replacement ++ ds), ?_,
            (Garbled.cut c _ (toNat_of_parts hchar hpart htail') hlost hgarbled).prepend pre, ?_⟩
          · have hpre := chars_encode_append pre part
            rw [← encode] at hpre
            rw [List.flatMap_cons, hds, chars_conts htail, hpre, hn,
              ← List.replicate_append_replicate (n := n + 1) (m := tail'.length)]
            simp only [List.append_assoc]
          · rintro - hlength
            have hle := hgarbled.length_le
            simp only [List.length_append, List.length_replicate, List.length_cons] at hlength
            omega

/-- Decoding chunk by chunk. It gives the text, with the characters garbled
that a cut goes through. -/
theorem garbled_of_chunks {chunks : List (List UInt8)} {cs : List Char}
    (h : chunks.flatten = encode cs) : Garbled cs (chunks.flatMap chars) := by
  obtain ⟨ds, hds, hgarbled, -⟩ := @garbled_after chunks [] cs (by simp) h
  exact hds ▸ hgarbled

/-- The text is kept exactly when every chunk is whole. -/
theorem flatMap_chars_eq_iff {chunks : List (List UInt8)} {cs : List Char}
    (h : chunks.flatten = encode cs) :
    chunks.flatMap chars = cs ↔ ∀ chunk ∈ chunks, Whole chunk := by
  constructor
  · intro heq
    obtain ⟨ds, hds, -, hwhole⟩ := @garbled_after chunks [] cs (by simp) h
    rw [heq] at hds
    exact hwhole rfl (congrArg List.length hds.symm)
  · intro hwhole
    have hencode : encode (chunks.flatMap chars) = chunks.flatten := by
      clear h
      induction chunks with
      | nil => rfl
      | cons chunk chunks ih =>
          obtain ⟨⟨ds, rfl⟩, hchunks⟩ := List.forall_mem_cons.mp hwhole
          rw [List.flatMap_cons, encode_append, chars_encode, ih hchunks, List.flatten_cons]
    rw [← chars_encode (chunks.flatMap chars), hencode, h, chars_encode]

/-- The stream is cut behind these bytes. -/
def CutAt (chunks : List (List UInt8)) (bytes : List UInt8) : Prop :=
  ∃ pre, pre <+: chunks ∧ pre.flatten = bytes

theorem CutAt.prefix {chunks : List (List UInt8)} {bytes : List UInt8} (h : CutAt chunks bytes) :
    bytes <+: chunks.flatten := by
  obtain ⟨pre, ⟨post, rfl⟩, rfl⟩ := h
  rw [List.flatten_append]
  exact List.prefix_append _ _

theorem CutAt.cons {chunks : List (List UInt8)} {bytes : List UInt8} (h : CutAt chunks bytes)
    (chunk : List UInt8) : CutAt (chunk :: chunks) (chunk ++ bytes) := by
  obtain ⟨pre, hpre, rfl⟩ := h
  exact ⟨chunk :: pre, List.cons_prefix_cons.mpr ⟨rfl, hpre⟩, List.flatten_cons⟩

/-- The first cut is in front of everything, and the others are behind the first chunk. -/
theorem cutAt_cons {chunk : List UInt8} {chunks : List (List UInt8)} {bytes : List UInt8}
    (h : CutAt (chunk :: chunks) bytes) :
    bytes = [] ∨ ∃ more, bytes = chunk ++ more ∧ CutAt chunks more := by
  obtain ⟨pre, hpre, rfl⟩ := h
  cases pre with
  | nil => exact Or.inl rfl
  | cons first pre =>
      obtain ⟨rfl, hmore⟩ := List.cons_prefix_cons.mp hpre
      exact Or.inr ⟨pre.flatten, List.flatten_cons, pre, hmore, rfl⟩

theorem whole_nil : Whole [] := ⟨[], rfl⟩

/-- What follows whole characters is whole if all of it is. -/
theorem Whole.of_append {cs : List Char} {bytes : List UInt8} (h : Whole (encode cs ++ bytes)) :
    Whole bytes := by
  obtain ⟨ds, hds⟩ := h
  have hchars := chars_encode_append cs bytes
  rw [← encode, hds, chars_encode] at hchars
  rw [hchars, encode_append, List.append_cancel_left_eq] at hds
  exact ⟨chars bytes, hds⟩

/-- If no cut goes through a character, then the text is kept. -/
theorem flatMap_chars_of_cuts {chunks : List (List UInt8)} {cs : List Char}
    (h : chunks.flatten = encode cs) (hcuts : ∀ bytes, CutAt chunks bytes → Whole bytes) :
    chunks.flatMap chars = cs := by
  refine (flatMap_chars_eq_iff h).mpr ?_
  clear h
  induction chunks with
  | nil => simp
  | cons chunk chunks ih =>
      have hnil : CutAt chunks [] := ⟨[], List.nil_prefix, rfl⟩
      have hfirst := hcuts _ (hnil.cons chunk)
      rw [List.append_nil] at hfirst
      refine List.forall_mem_cons.mpr ⟨hfirst, ih fun bytes hbytes => ?_⟩
      obtain ⟨ds, rfl⟩ := hfirst
      exact (hcuts _ (hbytes.cons _)).of_append

private theorem starts_of_prefix {bytes more : List UInt8} (h : Starts (bytes ++ more)) :
    Starts bytes := by
  cases bytes with
  | nil => simp [Starts]
  | cons b bytes => exact h

/-- Chunks that are cut once more, where a character begins, decode to the same text. -/
theorem exists_recut {front rest : List UInt8} (hrest : Starts rest) :
    ∀ {chunks : List (List UInt8)}, chunks.flatten = front ++ rest →
      ∃ first second : List (List UInt8), first.flatten = front ∧ second.flatten = rest ∧
        chunks.flatMap chars = first.flatMap chars ++ second.flatMap chars ∧
        (∀ bytes, CutAt first bytes → bytes = front ∨ CutAt chunks bytes) ∧
        ∀ bytes, CutAt second bytes → bytes = [] ∨ CutAt chunks (front ++ bytes) := by
  intro chunks
  induction chunks generalizing front with
  | nil =>
      intro h
      obtain ⟨rfl, rfl⟩ := List.append_eq_nil_iff.mp h.symm
      exact ⟨[], [], rfl, rfl, rfl, fun bytes hbytes => Or.inr hbytes,
        fun bytes hbytes => Or.inr hbytes⟩
  | cons chunk chunks ih =>
      intro h
      rw [List.flatten_cons] at h
      obtain ⟨front', rfl, hlater⟩ | ⟨piece, rfl, rfl⟩ := List.append_eq_append_iff.mp h
      · -- the cut is behind the first chunk
        obtain ⟨first, second, rfl, hsecond, hchars, hcuts, hcuts'⟩ := ih hlater
        refine ⟨chunk :: first, second, List.flatten_cons, hsecond, ?_, fun bytes hbytes => ?_,
          fun bytes hbytes => ?_⟩
        · rw [List.flatMap_cons, List.flatMap_cons, hchars, List.append_assoc]
        · obtain rfl | ⟨more, rfl, hmore⟩ := cutAt_cons hbytes
          · exact Or.inr ⟨[], List.nil_prefix, rfl⟩
          · obtain rfl | hmore := hcuts more hmore
            · exact Or.inl rfl
            · exact Or.inr (hmore.cons chunk)
        · obtain rfl | hbytes := hcuts' bytes hbytes
          · exact Or.inl rfl
          · rw [List.append_assoc]
            exact Or.inr (hbytes.cons chunk)
      · -- the cut is within the first chunk
        refine ⟨[front], piece :: chunks, by simp, List.flatten_cons, ?_, fun bytes hbytes => ?_,
          fun bytes hbytes => ?_⟩
        · rw [List.flatMap_cons, List.flatMap_cons, chars_append ( starts_of_prefix hrest) le_rfl]
          simp
        · obtain rfl | ⟨more, rfl, pre, hpre, rfl⟩ := cutAt_cons hbytes
          · exact Or.inr ⟨[], List.nil_prefix, rfl⟩
          · obtain rfl := List.prefix_nil.mp hpre
            exact Or.inl (List.append_nil front)
        · obtain rfl | ⟨more, rfl, hmore⟩ := cutAt_cons hbytes
          · exact Or.inl rfl
          · have hcut := hmore.cons (front ++ piece)
            rw [List.append_assoc] at hcut
            exact Or.inr hcut

theorem starts_encode_all (cs : List Char) : Starts (encode cs) := by
  cases cs with
  | nil => simp [Starts]
  | cons c cs =>
      have hstarts := starts_encode (c :: cs) (by simp) []
      rwa [List.append_nil] at hstarts

/-- A part of the text is kept if no cut goes through one of its characters, whatever
becomes of the rest. -/
theorem exists_kept {chunks : List (List UInt8)} {front part after : List Char}
    (h : chunks.flatten = encode (front ++ (part ++ after)))
    (hcuts : ∀ bytes, bytes <+: encode part → CutAt chunks (encode front ++ bytes) →
      Whole bytes) :
    ∃ ds ds', chunks.flatMap chars = ds ++ (part ++ ds') ∧ Garbled front ds ∧
      Garbled after ds' := by
  rw [encode_append] at h
  obtain ⟨first, second, hfirst, hsecond, hchars, -, hcuts₂⟩ :=
    exists_recut (starts_encode_all _) h
  rw [encode_append] at hsecond
  obtain ⟨middle, last, hmiddle, hlast, hchars', hcuts₃, -⟩ :=
    exists_recut (starts_encode_all _) hsecond
  have hpart : middle.flatMap chars = part := by
    refine flatMap_chars_of_cuts hmiddle fun bytes hbytes => ?_
    obtain rfl | hbytes' := hcuts₃ bytes hbytes
    · exact ⟨part, rfl⟩
    · obtain rfl | hcut := hcuts₂ bytes hbytes'
      · exact whole_nil
      · exact hcuts bytes (hmiddle ▸ hbytes.prefix) hcut
  refine ⟨first.flatMap chars, last.flatMap chars, ?_, garbled_of_chunks hfirst,
    garbled_of_chunks hlast⟩
  rw [hchars, hchars', hpart]

end Utf8Lossy

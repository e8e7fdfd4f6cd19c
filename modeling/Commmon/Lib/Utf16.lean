/-
# UTF-16

Some languages keep their strings as sequences of code units. A character beyond the
first plane takes two of them, a high surrogate and a low one. A sequence need not be
text: where a pair has been cut in two, a surrogate stands alone.
-/

import Mathlib.Data.List.Basic
import Mathlib.Data.List.Chain

set_option autoImplicit false

namespace Utf16

def isHigh (u : UInt16) : Bool := 0xD800 ≤ u.toNat && u.toNat < 0xDC00

def isLow (u : UInt16) : Bool := 0xDC00 ≤ u.toNat && u.toNat < 0xE000

def isSurrogate (u : UInt16) : Bool := isHigh u || isLow u

/-- The code units of a character. -/
def units (c : Char) : List UInt16 :=
  if c.toNat < 0x10000 then [UInt16.ofNat c.toNat]
  else
    [UInt16.ofNat (0xD800 + (c.toNat - 0x10000) / 0x400),
      UInt16.ofNat (0xDC00 + (c.toNat - 0x10000) % 0x400)]

def encode (cs : List Char) : List UInt16 := cs.flatMap units

/-- The character of a pair. -/
def pair (high low : UInt16) : Char :=
  Char.ofNat (0x10000 + (high.toNat - 0xD800) * 0x400 + (low.toNat - 0xDC00))

theorem toNat_ofNat {n : ℕ} (h : n < 0xD800 ∨ 0xE000 ≤ n ∧ n < 0x110000) :
    (Char.ofNat n).toNat = n := by
  have hvalid : n.isValidChar := by
    unfold Nat.isValidChar
    omega
  rw [Char.ofNat, dif_pos hvalid]
  rfl

theorem isSurrogate_eq_false {u : UInt16} :
    isSurrogate u = false ↔ u.toNat < 0xD800 ∨ 0xE000 ≤ u.toNat := by
  simp only [isSurrogate, isHigh, isLow, Bool.or_eq_false_iff, Bool.and_eq_false_iff,
    decide_eq_false_iff_not]
  omega

private theorem isHigh_ofNat {n : ℕ} (hn : 0xD800 ≤ n ∧ n < 0xDC00) :
    isHigh (UInt16.ofNat n) = true := by
  have hmod : n % 2 ^ 16 = n := Nat.mod_eq_of_lt (by omega)
  simp only [isHigh, UInt16.toNat_ofNat', hmod, Bool.and_eq_true, decide_eq_true_eq]
  exact hn

private theorem isLow_ofNat {n : ℕ} (hn : 0xDC00 ≤ n ∧ n < 0xE000) :
    isLow (UInt16.ofNat n) = true := by
  have hmod : n % 2 ^ 16 = n := Nat.mod_eq_of_lt (by omega)
  simp only [isLow, UInt16.toNat_ofNat', hmod, Bool.and_eq_true, decide_eq_true_eq]
  exact hn

theorem isHigh_of_isLow {u : UInt16} (h : isLow u = true) : isHigh u = false := by
  simp only [isHigh, isLow, Bool.and_eq_true, Bool.and_eq_false_iff, decide_eq_true_eq,
    decide_eq_false_iff_not] at h ⊢
  omega

/-- A character is one unit that is no surrogate, or a pair. -/
theorem units_cases (c : Char) :
    (∃ u, units c = [u] ∧ isSurrogate u = false ∧ Char.ofNat u.toNat = c) ∨
      ∃ high low, units c = [high, low] ∧ isHigh high = true ∧ isLow low = true ∧
        pair high low = c := by
  have hplane : c.toNat < 0xD800 ∨ 0xE000 ≤ c.toNat ∧ c.toNat < 0x110000 := by
    have hvalid := c.valid
    simp only [UInt32.isValidChar, Nat.isValidChar] at hvalid
    have hval : c.val.toNat = c.toNat := rfl
    omega
  by_cases hfirst : c.toNat < 0x10000
  · have hmod : c.toNat % 2 ^ 16 = c.toNat := Nat.mod_eq_of_lt hfirst
    refine Or.inl ⟨UInt16.ofNat c.toNat, if_pos hfirst, ?_, ?_⟩
    · rw [isSurrogate_eq_false, UInt16.toNat_ofNat', hmod]
      omega
    · rw [UInt16.toNat_ofNat', hmod, c.ofNat_toNat]
  · have hhigh : (0xD800 + (c.toNat - 0x10000) / 0x400) % 2 ^ 16 =
        0xD800 + (c.toNat - 0x10000) / 0x400 := Nat.mod_eq_of_lt (by omega)
    have hlow : (0xDC00 + (c.toNat - 0x10000) % 0x400) % 2 ^ 16 =
        0xDC00 + (c.toNat - 0x10000) % 0x400 := Nat.mod_eq_of_lt (by omega)
    have hsum : 0x10000 + (0xD800 + (c.toNat - 0x10000) / 0x400 - 0xD800) * 0x400 +
        (0xDC00 + (c.toNat - 0x10000) % 0x400 - 0xDC00) = c.toNat := by omega
    refine Or.inr ⟨_, _, if_neg hfirst, isHigh_ofNat (by omega), isLow_ofNat (by omega), ?_⟩
    rw [pair, UInt16.toNat_ofNat', UInt16.toNat_ofNat', hhigh, hlow, hsum, c.ofNat_toNat]

/-- What a sequence is read as. -/
inductive Point
  | char (c : Char)
  | lone (u : UInt16)
  deriving DecidableEq

def single (u : UInt16) : Point :=
  if isSurrogate u then .lone u else .char (Char.ofNat u.toNat)

def points : List UInt16 → List Point
  | [] => []
  | [u] => [single u]
  | u :: v :: rest =>
      if isHigh u && isLow v then .char (pair u v) :: points rest
      else single u :: points (v :: rest)

/-- Nothing stands alone. -/
def IsText (us : List UInt16) : Prop := ∀ p ∈ points us, ∃ c, p = .char c

private theorem single_of_char {u : UInt16} (hu : isSurrogate u = false) :
    single u = .char (Char.ofNat u.toNat) := by
  simp [single, hu]

private theorem isSurrogate_of_single {u : UInt16} {c : Char} (h : single u = .char c) :
    isSurrogate u = false := by
  unfold single at h
  split_ifs at h with hu
  exact eq_false_of_ne_true hu

/-- A unit that begins no pair is read on its own. -/
theorem points_cons {u : UInt16} {us : List UInt16}
    (h : isHigh u = false ∨ ∀ v ∈ us.head?, isLow v = false) :
    points (u :: us) = single u :: points us := by
  cases us with
  | nil => rfl
  | cons v us =>
      have hpair : (isHigh u && isLow v) = false := by
        obtain h | h := h
        · rw [h, Bool.false_and]
        · rw [h v rfl, Bool.and_false]
      rw [points, hpair]
      rfl

theorem points_pair {u v : UInt16} (hu : isHigh u = true) (hv : isLow v = true)
    (us : List UInt16) : points (u :: v :: us) = .char (pair u v) :: points us := by
  rw [points, hu, hv]
  rfl

private theorem points_units_append (c : Char) (us : List UInt16) :
    points (units c ++ us) = .char c :: points us := by
  obtain ⟨u, hunits, hplain, hc⟩ | ⟨high, low, hunits, hhigh, hlow, hc⟩ := units_cases c
  · rw [isSurrogate, Bool.or_eq_false_iff] at hplain
    rw [hunits, List.singleton_append, points_cons (.inl hplain.1),
      single_of_char (Bool.or_eq_false_iff.mpr hplain), hc]
  · rw [hunits, List.cons_append, List.singleton_append, points_pair hhigh hlow, hc]

/-- Text is read as its characters, whatever follows. -/
theorem points_encode_append (cs : List Char) (us : List UInt16) :
    points (encode cs ++ us) = cs.map .char ++ points us := by
  induction cs with
  | nil => rfl
  | cons c cs ih =>
      rw [encode, List.flatMap_cons, List.append_assoc, points_units_append, ← encode, ih]
      rfl

theorem points_encode (cs : List Char) : points (encode cs) = cs.map .char := by
  have h := points_encode_append cs []
  rwa [List.append_nil, points, List.append_nil] at h

/-- A pair that does not end between two sequences ends in one of them. -/
theorem points_append {us vs : List UInt16} (h : ∀ v ∈ vs.head?, isLow v = false) :
    points (us ++ vs) = points us ++ points vs := by
  induction us using points.induct with
  | case1 => rfl
  | case2 u => exact points_cons (.inr h)
  | case3 u v us hpair ih =>
      rw [Bool.and_eq_true] at hpair
      rw [List.cons_append, List.cons_append, points_pair hpair.1 hpair.2,
        points_pair hpair.1 hpair.2, ih, List.cons_append]
  | case4 u v us hpair ih =>
      have hsingle : isHigh u = false ∨ isLow v = false := by
        rwa [Bool.not_eq_true, Bool.and_eq_false_iff] at hpair
      have hhead : ∀ rest, isHigh u = false ∨ ∀ w ∈ (v :: rest).head?, isLow w = false := by
        simpa using hsingle
      rw [List.cons_append, List.cons_append, points_cons (hhead _), points_cons (hhead _),
        ← List.cons_append, ih, List.cons_append]

theorem isText_encode (cs : List Char) : IsText (encode cs) := by
  intro p hp
  rw [points_encode, List.mem_map] at hp
  obtain ⟨c, -, rfl⟩ := hp
  exact ⟨c, rfl⟩

theorem units_pair {u v : UInt16} (hu : isHigh u = true) (hv : isLow v = true) :
    units (pair u v) = [u, v] := by
  simp only [isHigh, isLow, Bool.and_eq_true, decide_eq_true_eq] at hu hv
  have hnat : (pair u v).toNat = 0x10000 + (u.toNat - 0xD800) * 0x400 + (v.toNat - 0xDC00) :=
    toNat_ofNat (by omega)
  have hhigh : 0xD800 + ((pair u v).toNat - 0x10000) / 0x400 = u.toNat := by omega
  have hlow : 0xDC00 + ((pair u v).toNat - 0x10000) % 0x400 = v.toNat := by omega
  rw [units, if_neg (by omega), hhigh, hlow, UInt16.ofNat_toNat, UInt16.ofNat_toNat]

theorem units_of_plain {u : UInt16} (hu : isSurrogate u = false) :
    units (Char.ofNat u.toNat) = [u] := by
  have hlt : u.toNat < 0x10000 := u.toNat_lt
  rw [isSurrogate_eq_false] at hu
  have hnat : (Char.ofNat u.toNat).toNat = u.toNat := toNat_ofNat (by omega)
  rw [units, hnat, if_pos hlt, UInt16.ofNat_toNat]

/-- What is text is the encoding of its characters. -/
theorem exists_encode {us : List UInt16} (h : IsText us) : ∃ cs, us = encode cs := by
  induction us using points.induct with
  | case1 => exact ⟨[], rfl⟩
  | case2 u =>
      obtain ⟨c, hc⟩ := h (single u) (List.mem_singleton.mpr rfl)
      have hplain : isSurrogate u = false := isSurrogate_of_single hc
      exact ⟨[Char.ofNat u.toNat], by rw [encode, List.flatMap_singleton, units_of_plain hplain]⟩
  | case3 u v us hpair ih =>
      rw [Bool.and_eq_true] at hpair
      rw [IsText, points_pair hpair.1 hpair.2, List.forall_mem_cons] at h
      obtain ⟨cs, rfl⟩ := ih h.2
      refine ⟨pair u v :: cs, ?_⟩
      exact congrArg (· ++ encode cs) (units_pair hpair.1 hpair.2).symm
  | case4 u v us hpair ih =>
      have hsingle : isHigh u = false ∨ ∀ w ∈ (v :: us).head?, isLow w = false := by
        rw [Bool.not_eq_true, Bool.and_eq_false_iff] at hpair
        simpa using hpair
      rw [IsText, points_cons hsingle, List.forall_mem_cons] at h
      obtain ⟨c, hc⟩ := h.1
      have hplain : isSurrogate u = false := isSurrogate_of_single hc
      obtain ⟨cs, hcs⟩ := ih h.2
      refine ⟨Char.ofNat u.toNat :: cs, ?_⟩
      rw [encode, List.flatMap_cons, units_of_plain hplain, hcs]
      rfl

/-- The characters of points of which none stands alone. -/
def charsOf : List Point → Option (List Char)
  | [] => some []
  | .char c :: ps => (charsOf ps).map (c :: ·)
  | .lone _ :: _ => none

/-- The characters of a sequence, if it is text. -/
def text? (us : List UInt16) : Option (List Char) := charsOf (points us)

private theorem charsOf_eq_some {ps : List Point} {cs : List Char} :
    charsOf ps = some cs ↔ ps = cs.map .char := by
  induction ps generalizing cs with
  | nil => cases cs <;> simp [charsOf]
  | cons p ps ih =>
      cases p with
      | char c =>
          rw [charsOf, Option.map_eq_some_iff]
          cases cs with
          | nil => simp
          | cons d cs => simp [ih, and_comm]
      | lone u => cases cs <;> simp [charsOf]

theorem text?_eq_some {us : List UInt16} {cs : List Char} :
    text? us = some cs ↔ us = encode cs := by
  rw [text?, charsOf_eq_some]
  constructor
  · intro h
    have htext : IsText us := by
      intro p hp
      rw [h, List.mem_map] at hp
      obtain ⟨c, -, rfl⟩ := hp
      exact ⟨c, rfl⟩
    obtain ⟨cs', rfl⟩ := exists_encode htext
    rw [points_encode] at h
    rw [List.map_injective_iff.mpr (fun _ _ => Point.char.inj) h]
  · rintro rfl
    exact points_encode cs

/-- Behind text, only what follows matters. -/
theorem isText_append_right {us vs : List UInt16} (hus : IsText us) :
    IsText (us ++ vs) ↔ IsText vs := by
  obtain ⟨cs, rfl⟩ := exists_encode hus
  simp [IsText, points_encode_append, or_imp, forall_and]

theorem isText_append {us vs : List UInt16} (h : ∀ v ∈ vs.head?, isLow v = false) :
    IsText (us ++ vs) ↔ IsText us ∧ IsText vs := by
  rw [IsText, points_append h, List.forall_mem_append]
  exact Iff.rfl

theorem IsText.append {us vs : List UInt16} (hus : IsText us) (hvs : IsText vs) :
    IsText (us ++ vs) :=
  (isText_append_right hus).mpr hvs

theorem isText_nil : IsText [] := fun _ hp => absurd hp List.not_mem_nil

theorem isText_of_plain {us : List UInt16} (h : ∀ u ∈ us, isSurrogate u = false) : IsText us := by
  induction us with
  | nil => exact isText_nil
  | cons u us ih =>
      obtain ⟨hu, hus⟩ := List.forall_mem_cons.mp h
      have hpoint : IsText [u] :=
        List.forall_mem_singleton.mpr ⟨_, single_of_char hu⟩
      exact hpoint.append (ih hus)

/-- A unit that is no surrogate divides a text. -/
theorem isText_append_cons {us vs : List UInt16} {u : UInt16} (hu : isSurrogate u = false) :
    IsText (us ++ u :: vs) ↔ IsText us ∧ IsText vs := by
  have hpoint : IsText [u] := List.forall_mem_singleton.mpr ⟨_, single_of_char hu⟩
  have hlow : ∀ v ∈ (u :: vs).head?, isLow v = false := by
    simpa using (Bool.or_eq_false_iff.mp hu).2
  rw [isText_append hlow, ← List.singleton_append, isText_append_right hpoint]

/-- Text is taken apart at separators that are no surrogates. -/
theorem IsText.split_induction {p : UInt16 → Bool} (hp : ∀ u, p u = true → isSurrogate u = false)
    {motive : List UInt16 → Prop}
    (letters : ∀ us, IsText us → (∀ u ∈ us, p u = false) → motive us)
    (sep : ∀ front u back, p u = true → motive front → motive back → motive (front ++ u :: back))
    {us : List UInt16} (h : IsText us) : motive us := by
  induction hlength : us.length using Nat.strong_induction_on generalizing us with
  | _ n ih =>
      by_cases hsep : ∃ u ∈ us, p u = true
      · obtain ⟨u, hu, hsepu⟩ := hsep
        obtain ⟨front, back, rfl⟩ := List.append_of_mem hu
        rw [isText_append_cons (hp u hsepu)] at h
        rw [List.length_append, List.length_cons] at hlength
        exact sep front u back hsepu (ih front.length (by omega) h.1 rfl)
          (ih back.length (by omega) h.2 rfl)
      · refine letters us h fun u hu => ?_
        exact eq_false_of_ne_true fun hsepu => hsep ⟨u, hu, hsepu⟩

/-- Where text may be cut: not behind a high surrogate. -/
theorem isText_take {us : List UInt16} (h : IsText us) (n : ℕ) :
    IsText (us.take n) ↔ ∀ u ∈ (us.take n).getLast?, isHigh u = false := by
  obtain ⟨cs, rfl⟩ := exists_encode h
  clear h
  induction cs generalizing n with
  | nil => simp [encode, isText_nil]
  | cons c cs ih =>
      cases n with
      | zero => simp [isText_nil]
      | succ n =>
        rw [encode, List.flatMap_cons, ← encode]
        obtain ⟨u, hunits, hplain, -⟩ | ⟨high, low, hunits, hhigh, hlow, -⟩ := units_cases c
        · have hu : isHigh u = false := (Bool.or_eq_false_iff.mp hplain).1
          have hfront : IsText [u] := List.forall_mem_singleton.mpr ⟨_, single_of_char hplain⟩
          rw [hunits, List.singleton_append, List.take_succ_cons, ← List.singleton_append,
            isText_append_right hfront, ih, List.singleton_append, List.getLast?_cons]
          cases (encode cs |>.take n).getLast? <;> simp [hu]
        · cases n with
          | zero =>
              have hlone : points [high] = [.lone high] := by
                rw [points, single, isSurrogate, hhigh]
                rfl
              simp [hunits, IsText, hlone, hhigh]
          | succ n =>
              have hfront : IsText [high, low] := by
                rw [IsText, points_pair hhigh hlow]
                exact List.forall_mem_singleton.mpr ⟨_, rfl⟩
              have hl := isHigh_of_isLow hlow
              have hcut : ([high, low] ++ encode cs).take (n + 1 + 1) =
                  [high, low] ++ (encode cs).take n := rfl
              rw [hunits, hcut, isText_append_right hfront, ih, List.getLast?_append]
              cases (encode cs |>.take n).getLast? <;> simp [hl]

/-- Two surrogates that make a pair. -/
def Point.Paired : Point → Point → Prop
  | .lone u, .lone v => isHigh u = true ∧ isLow v = true
  | _, _ => False

private theorem single_eq_lone {u v : UInt16} (h : single u = .lone v) :
    u = v ∧ isSurrogate u = true := by
  unfold single at h
  split_ifs at h with hu
  exact ⟨Point.lone.inj h, hu⟩

/-- Only surrogates stand alone. -/
theorem isSurrogate_of_mem_points {us : List UInt16} {u : UInt16} (h : .lone u ∈ points us) :
    isSurrogate u = true := by
  have hsingle : ∀ v, Point.lone u = single v → isSurrogate u = true := by
    intro v hv
    obtain ⟨rfl, hsurrogate⟩ := single_eq_lone hv.symm
    exact hsurrogate
  induction us using points.induct with
  | case1 => exact absurd h List.not_mem_nil
  | case2 v => exact hsingle v (List.mem_singleton.mp h)
  | case3 v w us hpair ih =>
      rw [Bool.and_eq_true] at hpair
      rw [points_pair hpair.1 hpair.2, List.mem_cons] at h
      obtain h | h := h
      · cases h
      · exact ih h
  | case4 v w us hpair ih =>
      rw [Bool.not_eq_true, Bool.and_eq_false_iff] at hpair
      rw [points_cons (by simpa using hpair), List.mem_cons] at h
      obtain h | h := h
      · exact hsingle v h
      · exact ih h

/-- Where two surrogates stand alone side by side, they make no pair. -/
theorem isChain_points (us : List UInt16) :
    (points us).IsChain fun p q => ¬ p.Paired q := by
  have hchar : ∀ (c : Char) (ps : List Point), (ps.IsChain fun p q => ¬ p.Paired q) →
      (Point.char c :: ps).IsChain fun p q => ¬ p.Paired q := by
    intro c ps hps
    cases ps with
    | nil => exact List.isChain_singleton _
    | cons p ps => exact List.isChain_cons_cons.mpr ⟨id, hps⟩
  induction us using points.induct with
  | case1 => exact List.isChain_nil
  | case2 u => exact List.isChain_singleton _
  | case3 u v us hpair ih =>
      rw [Bool.and_eq_true] at hpair
      rw [points_pair hpair.1 hpair.2]
      exact hchar _ _ ih
  | case4 u v us hpair ih =>
      have hsingle : isHigh u = false ∨ isLow v = false := by
        rwa [Bool.not_eq_true, Bool.and_eq_false_iff] at hpair
      rw [points_cons (by simpa using hsingle)]
      obtain ⟨q, qs, hq, hnext⟩ : ∃ q qs, points (v :: us) = q :: qs ∧
          ∀ w, q = .lone w → w = v := by
        cases us with
        | nil => exact ⟨single v, [], rfl, fun w hw => (single_eq_lone hw).1.symm⟩
        | cons w us =>
            by_cases hvw : (isHigh v && isLow w) = true
            · rw [Bool.and_eq_true] at hvw
              exact ⟨_, _, points_pair hvw.1 hvw.2 us, fun _ h => by cases h⟩
            · refine ⟨single v, _, if_neg hvw, fun w hw => (single_eq_lone hw).1.symm⟩
      rw [hq] at ih ⊢
      refine List.isChain_cons_cons.mpr ⟨fun hpaired => ?_, ih⟩
      cases hu : single u with
      | char c => rw [hu] at hpaired; exact hpaired
      | lone u' =>
          obtain ⟨rfl, -⟩ := single_eq_lone hu
          cases q with
          | char c => rw [hu] at hpaired; exact hpaired
          | lone w =>
              obtain rfl := hnext w rfl
              rw [hu] at hpaired
              obtain h | h := hsingle
              · exact absurd (h ▸ hpaired.1) (by decide)
              · exact absurd (h ▸ hpaired.2) (by decide)

end Utf16

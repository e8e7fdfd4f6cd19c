/-
# Words between separators

The words of a list are its longest nonempty stretches without a separator. Joining
words with one separator and taking the words again gives them back. The other way
round a list is the join of its words exactly if it is already spaced: no separator
at its ends, no two side by side, and none but the one that is joined with.
-/

import Mathlib.Data.List.Chain
import Mathlib.Data.List.DropRight

set_option autoImplicit false

universe u

namespace Words

variable {α : Type u} {p : α → Bool}

def words (p : α → Bool) (xs : List α) : List (List α) :=
  (xs.splitOnP p).filter fun w => !w.isEmpty

/-- A word has a letter, and no separator. -/
def IsWord (p : α → Bool) (w : List α) : Prop := w ≠ [] ∧ ∀ c ∈ w, p c = false

/-- A list that starts with a letter, or with nothing at all. -/
def StartsInWord (p : α → Bool) (xs : List α) : Prop := ∀ c ∈ xs.head?, p c = false

/-- Separators stand alone between words, and all of them are `sep`. -/
structure Spaced (p : α → Bool) (sep : α) (xs : List α) : Prop where
  only : ∀ c ∈ xs, p c = true → c = sep
  apart : xs.IsChain fun a b => ¬ (p a = true ∧ p b = true)
  front : StartsInWord p xs
  back : ∀ c ∈ xs.getLast?, p c = false

@[simp]
theorem words_nil : words p [] = [] := rfl

/-- A separator in front makes no difference. -/
theorem words_cons_sep {c : α} (hc : p c = true) (xs : List α) :
    words p (c :: xs) = words p xs := by
  simp [words, List.splitOnP_cons_eq_if_modifyHead, hc]

/-- A letter before a separator or the end is a word of its own. -/
theorem words_cons_last {c : α} (hc : p c = false) {xs : List α}
    (hxs : ∀ d ∈ xs.head?, p d = true) : words p (c :: xs) = [c] :: words p xs := by
  cases xs with
  | nil => simp [words, List.splitOnP_cons_eq_if_modifyHead, hc]
  | cons d ys =>
      have hd : p d = true := hxs d rfl
      simp [words, List.splitOnP_cons_eq_if_modifyHead, hc, hd]

/-- A letter before a letter belongs to the same word. -/
theorem words_cons_cons {c d : α} (hc : p c = false) (hd : p d = false) (xs : List α) :
    ∃ w ws, words p (d :: xs) = w :: ws ∧ words p (c :: d :: xs) = (c :: w) :: ws := by
  obtain ⟨w, ws, hsplit⟩ := List.exists_cons_of_ne_nil (List.splitOnP_ne_nil p xs)
  refine ⟨d :: w, ws.filter fun w => !w.isEmpty, ?_, ?_⟩
  · simp [words, List.splitOnP_cons_eq_if_modifyHead, hd, hsplit]
  · simp [words, List.splitOnP_cons_eq_if_modifyHead, hc, hd, hsplit]

theorem isWord_of_mem_words : ∀ {xs w : List α}, w ∈ words p xs → IsWord p w
  | [], w, h => absurd h (by simp)
  | [c], w, h => by
      cases hc : p c with
      | true => simp [words_cons_sep hc] at h
      | false =>
          rw [words_cons_last hc (by simp)] at h
          obtain rfl : w = [c] := by simpa using h
          exact ⟨by simp, by simpa using hc⟩
  | c :: d :: xs, w, h => by
      cases hc : p c with
      | true =>
          rw [words_cons_sep hc] at h
          exact isWord_of_mem_words h
      | false =>
          cases hd : p d with
          | true =>
              rw [words_cons_last hc (by simpa using hd), List.mem_cons] at h
              obtain rfl | h := h
              · exact ⟨by simp, by simpa using hc⟩
              · exact isWord_of_mem_words h
          | false =>
              obtain ⟨w', ws, hdx, hcdx⟩ := words_cons_cons hc hd xs
              rw [hcdx, List.mem_cons] at h
              have hrest : ∀ v ∈ w' :: ws, IsWord p v := fun v hv =>
                isWord_of_mem_words (hdx ▸ hv)
              obtain rfl | h := h
              · have hw' := hrest w' List.mem_cons_self
                exact ⟨by simp, List.forall_mem_cons.mpr ⟨hc, hw'.2⟩⟩
              · exact hrest w (List.mem_cons_of_mem _ h)

/-- What starts with a letter has a word. -/
theorem words_ne_nil {xs : List α} (hstarts : StartsInWord p xs) (hxs : xs ≠ []) :
    words p xs ≠ [] := by
  cases xs with
  | nil => exact absurd rfl hxs
  | cons c xs =>
      have hc : p c = false := hstarts c rfl
      obtain ⟨w, ws, hsplit⟩ := List.exists_cons_of_ne_nil (List.splitOnP_ne_nil p xs)
      simp [words, List.splitOnP_cons_eq_if_modifyHead, hc, hsplit]

/-- A separator ends one word and starts the next. -/
theorem words_append_sep (xs : List α) {sep : α} (hsep : p sep = true) (ys : List α) :
    words p (xs ++ sep :: ys) = words p xs ++ words p ys := by
  simp [words, List.splitOnP_append_cons xs ys hsep]

/-- A word is its only word. -/
theorem words_of_isWord {w : List α} (hw : IsWord p w) : words p w = [w] := by
  simp [words, List.splitOnP_eq_singleton hw.2, hw.1]

/-- Every letter is in some word. -/
theorem exists_mem_words : ∀ {xs : List α} {c : α}, c ∈ xs → p c = false →
    ∃ w ∈ words p xs, c ∈ w
  | [], c, h, _ => absurd h (by simp)
  | [d], c, h, hc => by
      obtain rfl := List.mem_singleton.mp h
      have hword : IsWord p [c] := ⟨by simp, by simpa using hc⟩
      exact ⟨[c], by simp [words_of_isWord hword], List.mem_singleton_self c⟩
  | d :: e :: xs, c, h, hc => by
      cases hd : p d with
      | true =>
          obtain rfl | h := List.mem_cons.mp h
          · simp [hd] at hc
          · rw [words_cons_sep hd]
            exact exists_mem_words h hc
      | false =>
          cases he : p e with
          | true =>
              rw [words_cons_last hd (by simpa using he)]
              obtain rfl | h := List.mem_cons.mp h
              · exact ⟨[c], List.mem_cons_self, List.mem_singleton_self c⟩
              · obtain ⟨w, hw, hcw⟩ := exists_mem_words h hc
                exact ⟨w, List.mem_cons_of_mem _ hw, hcw⟩
          | false =>
              obtain ⟨w, ws, hrest, hall⟩ := words_cons_cons hd he xs
              rw [hall]
              obtain rfl | h := List.mem_cons.mp h
              · exact ⟨c :: w, List.mem_cons_self, List.mem_cons_self⟩
              · obtain ⟨v, hv, hcv⟩ := exists_mem_words h hc
                rw [hrest, List.mem_cons] at hv
                obtain rfl | hv := hv
                · exact ⟨d :: v, List.mem_cons_self, List.mem_cons_of_mem d hcv⟩
                · exact ⟨v, List.mem_cons_of_mem _ hv, hcv⟩

/-- Words that are joined with a separator can be told apart again. -/
theorem words_intercalate {sep : α} (hsep : p sep = true) {ws : List (List α)}
    (hws : ∀ w ∈ ws, IsWord p w) : words p ([sep].intercalate ws) = ws := by
  induction ws with
  | nil => rfl
  | cons w ws ih =>
      obtain ⟨hw, hrest⟩ := List.forall_mem_cons.mp hws
      cases ws with
      | nil => rw [List.intercalate_singleton, words_of_isWord hw]
      | cons w' ws =>
          rw [List.intercalate_cons_cons, List.append_assoc, List.singleton_append,
            words_append_sep w hsep, words_of_isWord hw, ih hrest, List.singleton_append]

/-- A letter in front of the first word goes in front of the join. -/
theorem intercalate_cons_word (s : List α) (c : α) (w : List α) (ws : List (List α)) :
    s.intercalate ((c :: w) :: ws) = c :: s.intercalate (w :: ws) := by
  cases ws with
  | nil => simp
  | cons w' ws => simp [List.intercalate_cons_cons]

/-- What is spaced but for a separator in front is the join of its words without that
separator. -/
theorem intercalate_words {sep : α} {xs : List α} (hsep : p sep = true)
    (honly : ∀ c ∈ xs, p c = true → c = sep)
    (hapart : xs.IsChain fun a b => ¬ (p a = true ∧ p b = true))
    (hback : ∀ c ∈ xs.getLast?, p c = false) :
    (StartsInWord p xs → [sep].intercalate (words p xs) = xs) ∧
      ∀ ys, xs = sep :: ys → [sep].intercalate (words p xs) = ys := by
  induction xs with
  | nil => exact ⟨fun _ => rfl, by simp⟩
  | cons c xs ih =>
      have hrest := ih (fun d hd => honly d (List.mem_cons_of_mem c hd)) hapart.tail
      cases xs with
      | nil =>
          have hc : p c = false := hback c rfl
          refine ⟨fun _ => ?_, fun ys heq => ?_⟩
          · rw [words_of_isWord ⟨by simp, by simpa using hc⟩, List.intercalate_singleton]
          · obtain ⟨rfl, -⟩ := List.cons.inj heq
            simp [hc] at hsep
      | cons d xs =>
          obtain ⟨hstarts, hdrops⟩ := hrest fun e he => hback e (by simpa using he)
          have hnext : ¬ (p c = true ∧ p d = true) := (List.isChain_cons_cons.mp hapart).1
          cases hc : p c with
          | true =>
              have hd : p d = false := by simpa [hc] using hnext
              have htail : [sep].intercalate (words p (d :: xs)) = d :: xs :=
                hstarts (by simpa [StartsInWord] using hd)
              refine ⟨fun h => absurd (h c rfl) (by simp [hc]), fun ys heq => ?_⟩
              rw [words_cons_sep hc, htail]
              exact (List.cons.inj heq).2
          | false =>
              refine ⟨fun _ => ?_, fun ys heq => ?_⟩
              · cases hd : p d with
                | true =>
                    obtain rfl : d = sep := honly d (by simp) hd
                    have hjoin := hdrops xs rfl
                    have hne : words p (d :: xs) ≠ [] := by
                      intro hnil
                      rw [hnil, List.intercalate_nil] at hjoin
                      have hlast : p d = false := hback d (by simp [← hjoin])
                      simp [hd] at hlast
                    rw [words_cons_last hc (by simpa using hd),
                      List.intercalate_cons_of_ne_nil hne, hjoin]
                    rfl
                | false =>
                    obtain ⟨w, ws, hdx, hcdx⟩ := words_cons_cons hc hd xs
                    have htail : [sep].intercalate (words p (d :: xs)) = d :: xs :=
                      hstarts (by simpa [StartsInWord] using hd)
                    rw [hcdx, intercalate_cons_word, ← hdx, htail]
              · obtain ⟨rfl, -⟩ := List.cons.inj heq
                simp [hc] at hsep

theorem spaced_nil {sep : α} : Spaced p sep [] :=
  ⟨by simp, .nil, by simp [StartsInWord], by simp⟩

theorem IsWord.spaced {w : List α} (hw : IsWord p w) (sep : α) : Spaced p sep w where
  only c hc hsep := by simp [hw.2 c hc] at hsep
  apart := List.isChain_iff_forall_rel_of_append_cons_cons.mpr fun a b l₁ l₂ hsplit h => by
    simp [hw.2 a (by simp [hsplit])] at h
  front c hc := hw.2 c (List.mem_of_mem_head? hc)
  back c hc := hw.2 c (List.mem_of_mem_getLast? hc)

/-- A word and a separator in front of what is spaced. -/
theorem Spaced.cons_word {sep : α} {w xs : List α} (h : Spaced p sep xs) (hw : IsWord p w)
    (hxs : xs ≠ []) : Spaced p sep (w ++ sep :: xs) where
  only c hc hsep := by
    rw [List.mem_append, List.mem_cons] at hc
    obtain hc | rfl | hc := hc
    · exact (hw.spaced sep).only c hc hsep
    · rfl
    · exact h.only c hc hsep
  apart := by
    refine List.isChain_append.mpr ⟨(hw.spaced sep).apart, ?_, fun a ha b _ hab => ?_⟩
    · exact List.isChain_cons.mpr ⟨fun b hb hab => by simp [h.front b hb] at hab, h.apart⟩
    · simp [(hw.spaced sep).back a ha] at hab
  front c hc := by
    rw [List.head?_append_of_ne_nil _ hw.1] at hc
    exact (hw.spaced sep).front c hc
  back c hc := by
    rw [List.getLast?_append_of_ne_nil _ (List.cons_ne_nil _ _),
      List.getLast?_cons_of_ne_nil hxs] at hc
    exact h.back c hc

/-- Words that are joined are spaced. -/
theorem spaced_intercalate {sep : α} {ws : List (List α)} (hws : ∀ w ∈ ws, IsWord p w) :
    Spaced p sep ([sep].intercalate ws) := by
  induction ws with
  | nil => exact spaced_nil
  | cons w ws ih =>
      obtain ⟨hw, hrest⟩ := List.forall_mem_cons.mp hws
      cases ws with
      | nil =>
          rw [List.intercalate_singleton]
          exact hw.spaced sep
      | cons w' ws =>
          have hne : [sep].intercalate (w' :: ws) ≠ [] := by
            obtain ⟨c, cs, rfl⟩ := List.exists_cons_of_ne_nil (hrest w' List.mem_cons_self).1
            rw [intercalate_cons_word]
            exact List.cons_ne_nil _ _
          rw [List.intercalate_cons_cons, List.append_assoc, List.singleton_append]
          exact (ih hrest).cons_word hw hne

/-- What words can be put back together. -/
theorem intercalate_words_eq_iff {sep : α} (hsep : p sep = true) {xs : List α} :
    [sep].intercalate (words p xs) = xs ↔ Spaced p sep xs := by
  constructor
  · intro h
    exact h ▸ spaced_intercalate fun w hw => isWord_of_mem_words hw
  · intro h
    exact (intercalate_words hsep h.only h.apart h.back).1 h.front

/-- Nothing but separators has no words. -/
theorem words_eq_nil {xs : List α} (hxs : ∀ c ∈ xs, p c = true) : words p xs = [] := by
  induction xs with
  | nil => rfl
  | cons c xs ih =>
      obtain ⟨hc, hrest⟩ := List.forall_mem_cons.mp hxs
      rw [words_cons_sep hc, ih hrest]

theorem words_append_seps (xs : List α) {seps : List α} (hseps : ∀ c ∈ seps, p c = true) :
    words p (xs ++ seps) = words p xs := by
  cases seps with
  | nil => rw [List.append_nil]
  | cons c seps =>
      obtain ⟨hc, hrest⟩ := List.forall_mem_cons.mp hseps
      rw [words_append_sep xs hc, words_eq_nil hrest, List.append_nil]

/-- Separators can be left out at the front. -/
theorem words_dropWhile {q : α → Bool} (hq : ∀ c, q c = true → p c = true) (xs : List α) :
    words p (xs.dropWhile q) = words p xs := by
  induction xs with
  | nil => rfl
  | cons c xs ih =>
      cases hc : q c with
      | true => rw [List.dropWhile_cons_of_pos hc, ih, words_cons_sep (hq c hc)]
      | false => rw [List.dropWhile_cons_of_neg (by simp [hc])]

/-- And at the back. -/
theorem words_rdropWhile {q : α → Bool} (hq : ∀ c, q c = true → p c = true) (xs : List α) :
    words p (xs.rdropWhile q) = words p xs := by
  induction xs using List.reverseRecOn with
  | nil => rfl
  | append_singleton xs c ih =>
      cases hc : q c with
      | true =>
          rw [List.rdropWhile_concat_pos _ _ _ hc, ih,
            words_append_seps xs (by simpa using hq c hc)]
      | false => rw [List.rdropWhile_concat_neg _ _ _ (by simp [hc])]

/-- Two lists that go on alike behind a letter. -/
theorem words_cons_congr {c : α} (hc : p c = false) {xs ys : List α}
    (hwords : words p xs = words p ys)
    (hhead : (∀ d ∈ xs.head?, p d = true) ↔ ∀ d ∈ ys.head?, p d = true) :
    words p (c :: xs) = words p (c :: ys) := by
  have hletter : ∀ zs : List α, (¬ ∀ d ∈ zs.head?, p d = true) →
      ∃ d ds, zs = d :: ds ∧ p d = false := by
    intro zs h
    cases zs with
    | nil => exact absurd (by simp) h
    | cons d ds => exact ⟨d, ds, rfl, by simpa using h⟩
  by_cases hxs : ∀ d ∈ xs.head?, p d = true
  · rw [words_cons_last hc hxs, words_cons_last hc (hhead.mp hxs), hwords]
  · obtain ⟨d, ds, rfl, hd⟩ := hletter xs hxs
    obtain ⟨e, es, rfl, he⟩ := hletter ys fun h => hxs (hhead.mpr h)
    obtain ⟨w, ws, hdx, hcdx⟩ := words_cons_cons hc hd ds
    obtain ⟨v, vs, hey, hcey⟩ := words_cons_cons hc he es
    have hsame : w :: ws = v :: vs := hdx.symm.trans (hwords.trans hey)
    obtain ⟨rfl, rfl⟩ := List.cons.inj hsame
    rw [hcdx, hcey]

/-- Separators may be changed into others. -/
theorem words_map {f : α → α} (hf : ∀ c, p (f c) = p c) (hletter : ∀ c, p c = false → f c = c)
    (xs : List α) : words p (xs.map f) = words p xs := by
  induction xs with
  | nil => rfl
  | cons c xs ih =>
      cases hc : p c with
      | true => rw [List.map_cons, words_cons_sep ((hf c).trans hc), ih, words_cons_sep hc]
      | false =>
          rw [List.map_cons, hletter c hc]
          apply words_cons_congr hc ih
          cases xs with
          | nil => rfl
          | cons d xs => simp [hf]

/-- Each run of `q` becomes one `sep`. The flag says that a run has been met. -/
def squeeze (q : α → Bool) (sep : α) : Bool → List α → List α
  | _, [] => []
  | met, c :: cs =>
      if q c then (if met then [] else [sep]) ++ squeeze q sep true cs
      else c :: squeeze q sep false cs

variable {q : α → Bool} {sep : α}

/-- What is squeezed is made of `sep` and of what is not in `q`. -/
theorem mem_squeeze {met : Bool} {xs : List α} {c : α} (h : c ∈ squeeze q sep met xs) :
    c = sep ∨ c ∈ xs ∧ q c = false := by
  fun_induction squeeze q sep met xs with
  | case1 met => exact absurd h (by simp)
  | case2 met d ds hd ih =>
      rw [List.mem_append] at h
      obtain h | h := h
      · split_ifs at h
        · exact absurd h (by simp)
        · exact Or.inl (List.mem_singleton.mp h)
      · exact (ih h).imp_right fun ⟨hmem, hq⟩ => ⟨List.mem_cons_of_mem d hmem, hq⟩
  | case3 met d ds hd ih =>
      obtain rfl | h := List.mem_cons.mp h
      · exact Or.inr ⟨List.mem_cons_self, by simpa using hd⟩
      · exact (ih h).imp_right fun ⟨hmem, hq⟩ => ⟨List.mem_cons_of_mem d hmem, hq⟩

/-- After a run has been met, none of `q` comes first. -/
theorem head?_squeeze_met (xs : List α) : ∀ c ∈ (squeeze q sep true xs).head?, q c = false := by
  induction xs with
  | nil => simp [squeeze]
  | cons d ds ih =>
      cases hd : q d with
      | true => simpa [squeeze, hd] using ih
      | false => simp [squeeze, hd]

/-- No two of `q` are side by side after squeezing. -/
theorem isChain_squeeze (met : Bool) (xs : List α) :
    (squeeze q sep met xs).IsChain fun a b => ¬ (q a = true ∧ q b = true) := by
  fun_induction squeeze q sep met xs with
  | case1 met => exact .nil
  | case2 met d ds hd ih =>
      cases met with
      | true => exact ih
      | false => exact List.isChain_cons.mpr ⟨fun c hc h => by
          simp [head?_squeeze_met ds c hc] at h, ih⟩
  | case3 met d ds hd ih => exact List.isChain_cons.mpr ⟨fun c hc h => hd h.1, ih⟩

theorem words_squeeze (hq : ∀ c, q c = true → p c = true) (hsep : p sep = true) (met : Bool)
    (xs : List α) : words p (squeeze q sep met xs) = words p xs := by
  fun_induction squeeze q sep met xs with
  | case1 met => rfl
  | case2 met d ds hd ih =>
      rw [words_cons_sep (hq d hd), ← ih]
      cases met with
      | true => rfl
      | false => exact words_cons_sep hsep _
  | case3 met d ds hd ih =>
      cases hp : p d with
      | true => rw [words_cons_sep hp, words_cons_sep hp, ih]
      | false =>
          apply words_cons_congr hp ih
          cases ds with
          | nil => rfl
          | cons e es =>
              cases he : q e with
              | true => simp [squeeze, he, hq e he, hsep]
              | false => simp [squeeze, he]

/-- A number of the first words, short of all, is so long when it is joined. -/
def BreaksAt (sep : α) (ws : List (List α)) (n : ℕ) : Prop :=
  ∃ k, k < ws.length ∧ 0 < k ∧ ([sep].intercalate (ws.take k)).length = n

instance (sep : α) (ws : List (List α)) (n : ℕ) : Decidable (BreaksAt sep ws n) :=
  inferInstanceAs (Decidable (∃ k, k < ws.length ∧ _))

/-- With a word in front, the breaks of a join are the end of that word and the breaks
behind it. -/
theorem breaksAt_cons {w w' : List α} {ws : List (List α)} {n : ℕ} :
    BreaksAt sep (w :: w' :: ws) n ↔
      n = w.length ∨ ∃ k, n = w.length + 1 + k ∧ BreaksAt sep (w' :: ws) k := by
  constructor
  · rintro ⟨k, hlt, hpos, hlength⟩
    obtain ⟨k, rfl⟩ := Nat.exists_eq_succ_of_ne_zero (Nat.pos_iff_ne_zero.mp hpos)
    rw [List.take_succ_cons] at hlength
    cases k with
    | zero => exact Or.inl (by simpa using hlength.symm)
    | succ k =>
        rw [List.take_succ_cons, List.intercalate_cons_cons] at hlength
        refine Or.inr ⟨_, ?_, k + 1, by simpa using hlt, Nat.succ_pos k, rfl⟩
        simp only [List.length_append, List.length_singleton] at hlength
        exact hlength.symm
  · rintro (rfl | ⟨n, rfl, k, hlt, hpos, hlength⟩)
    · exact ⟨1, by simp, Nat.one_pos, by simp⟩
    · obtain ⟨k, rfl⟩ := Nat.exists_eq_succ_of_ne_zero (Nat.pos_iff_ne_zero.mp hpos)
      refine ⟨k + 2, by simpa using hlt, Nat.succ_pos _, ?_⟩
      rw [List.take_succ_cons] at hlength
      rw [List.take_succ_cons, List.take_succ_cons, List.intercalate_cons_cons]
      simp only [List.length_append, List.length_singleton, hlength]

/-- The separators of a join stand where the first words end. -/
theorem getElem?_intercalate (hsep : p sep = true) {ws : List (List α)}
    (hws : ∀ w ∈ ws, IsWord p w) (n : ℕ) :
    ([sep].intercalate ws)[n]? = some sep ↔ BreaksAt sep ws n := by
  induction ws generalizing n with
  | nil => exact iff_of_false (by simp) fun ⟨k, hlt, _⟩ => absurd hlt (Nat.not_lt_zero k)
  | cons w ws ih =>
      obtain ⟨hw, hrest⟩ := List.forall_mem_cons.mp hws
      have hletter : w[n]? ≠ some sep := fun h => by
        simp [hw.2 sep (List.mem_of_getElem? h)] at hsep
      cases ws with
      | nil =>
          rw [List.intercalate_singleton]
          refine iff_of_false hletter fun ⟨k, hlt, hpos, _⟩ => ?_
          rw [List.length_singleton] at hlt
          omega
      | cons w' ws =>
          rw [List.intercalate_cons_cons, List.append_assoc, breaksAt_cons]
          obtain hlt | rfl | hgt := Nat.lt_trichotomy n w.length
          · rw [List.getElem?_append_left hlt]
            refine iff_of_false hletter ?_
            rintro (h | ⟨k, h, -⟩) <;> omega
          · exact iff_of_true (by simp) (Or.inl rfl)
          · obtain ⟨k, rfl⟩ := Nat.exists_eq_add_of_lt hgt
            have hindex : (w ++ ([sep] ++ [sep].intercalate (w' :: ws)))[w.length + k + 1]? =
                ([sep].intercalate (w' :: ws))[k]? := by
              rw [List.getElem?_append_right (by omega)]
              have hsub : w.length + k + 1 - w.length = k + 1 := by omega
              rw [hsub, List.singleton_append, List.getElem?_cons_succ]
            rw [hindex, ih hrest k]
            constructor
            · exact fun h => Or.inr ⟨k, by omega, h⟩
            · rintro (h | ⟨j, hj, h⟩)
              · omega
              · obtain rfl : k = j := by omega
                exact h

/-- What is spaced stays so when it is cut, unless the cut is right behind a
separator. -/
theorem spaced_take_iff (hsep : p sep = true) {xs : List α} (h : Spaced p sep xs) (n : ℕ) :
    Spaced p sep (xs.take (n + 1)) ↔ xs[n]? ≠ some sep := by
  have hlast : ∀ c, xs[n]? = some c → (xs.take (n + 1)).getLast? = some c := by
    intro c hc
    rw [List.getLast?_take, if_neg (Nat.succ_ne_zero n), Nat.add_sub_cancel, hc, Option.some_or]
  constructor
  · intro hcut hend
    have hback := hcut.back sep (hlast sep hend)
    simp [hsep] at hback
  · intro hend
    refine ⟨fun c hc => h.only c (List.mem_of_mem_take hc), h.apart.take _, ?_, fun c hc => ?_⟩
    · intro c hc
      rw [List.head?_take, if_neg (Nat.succ_ne_zero n)] at hc
      exact h.front c hc
    · by_cases hlt : n < xs.length
      · have hget : xs[n]? = some xs[n] := List.getElem?_eq_getElem hlt
        obtain rfl : xs[n] = c := Option.some.inj ((hlast _ hget).symm.trans hc)
        cases hp : p xs[n] with
        | false => rfl
        | true => exact absurd (h.only _ (List.getElem_mem hlt) hp ▸ hget) hend
      · rw [List.take_of_length_le (by omega)] at hc
        exact h.back c hc

end Words

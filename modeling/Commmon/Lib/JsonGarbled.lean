/-
# Garbled JSON

The text of a value has characters beyond ASCII only within its strings. Text
that has been garbled there is therefore the text of a value still, and it is
read without an error, as a different value.
-/

import Commmon.Lib.Json
import Commmon.Lib.Utf8Chunks

set_option autoImplicit false

namespace Json

open Utf8Lossy (Garbled replacement)

/-- A text of ASCII characters. -/
def Ascii (cs : List Char) : Prop := ∀ c ∈ cs, c.toNat < 0x80

theorem escape_of_beyond {c : Char} (hc : 0x80 ≤ c.toNat) : escape c = [c] := by
  apply escape_of_plain
  · rintro rfl
    exact absurd hc (by decide)
  · rintro rfl
    exact absurd hc (by decide)
  · omega

theorem ascii_escape {c : Char} (hc : c.toNat < 0x80) : Ascii (escape c) := by
  intro d hd
  unfold escape at hd
  split at hd
  · rename_i e hlookup
    have hall : ∀ p ∈ shortEscapes, p.2.toNat < 0x80 := by decide
    obtain ⟨l, r, hsplit, -⟩ := List.lookup_eq_some_iff.mp hlookup
    have he := hall (c, e) (by rw [hsplit]; simp)
    rcases List.mem_cons.mp hd with rfl | hd
    · decide
    · exact List.mem_singleton.mp hd ▸ he
  · split_ifs at hd with hcontrol
    · have hdigit : ∀ n < 16, n.digitChar.toNat < 0x80 := by decide
      have hhigh := hdigit (c.toNat / 16) (by omega)
      have hlow := hdigit (c.toNat % 16) (by omega)
      simp only [List.mem_cons, List.not_mem_nil, or_false] at hd
      rcases hd with rfl | rfl | rfl | rfl | rfl | rfl
      all_goals first | assumption | decide
    · exact List.mem_singleton.mp hd ▸ hc

theorem ascii_text (n : NumLit) : Ascii n.text := by
  intro c hc
  have h := n.chars c hc
  rw [isNumChar, Bool.or_eq_true, decide_eq_true_eq] at h
  obtain h | h := h
  · have hnine : '9'.toNat = 57 := rfl
    have hle := (Char.isDigit_iff_toNat.mp h).2
    omega
  · have hall : ∀ d ∈ ['-', '+', '.', 'e', 'E'], d.toNat < 0x80 := by simp
    exact hall c h

private theorem garbled_escape {c : Char} {ds : List Char} (h : Garbled (escape c) ds) :
    ∃ cs : List Char, ds = cs.flatMap escape := by
  by_cases hc : c.toNat < 0x80
  · exact ⟨[c], by rw [h.eq_of_ascii (ascii_escape hc)]; simp⟩
  · rw [escape_of_beyond (Nat.not_lt.mp hc)] at h
    cases h with
    | keep c h =>
        cases h
        exact ⟨[c], by simp [escape_of_beyond (Nat.not_lt.mp hc)]⟩
    | cut c n hcut hn h =>
        cases h
        have hescape : escape replacement = [replacement] := by decide
        refine ⟨List.replicate n replacement, ?_⟩
        rw [List.append_nil]
        clear hn
        induction n with
        | zero => rfl
        | succ n ih => rw [List.replicate_succ, List.flatMap_cons, ← ih, hescape]; rfl

private theorem garbled_escapes {cs ds : List Char} (h : Garbled (cs.flatMap escape) ds) :
    ∃ cs' : List Char, ds = cs'.flatMap escape := by
  induction cs generalizing ds with
  | nil =>
      cases h
      exact ⟨[], rfl⟩
  | cons c cs ih =>
      obtain ⟨ds₁, ds₂, rfl, h₁, h₂⟩ := h.append_inv
      obtain ⟨cs₁, rfl⟩ := garbled_escape h₁
      obtain ⟨cs₂, rfl⟩ := ih h₂
      exact ⟨cs₁ ++ cs₂, List.flatMap_append.symm⟩

/-- One ASCII character at the end stands. -/
theorem garbled_concat {cs ds : List Char} {c : Char} (hc : c.toNat < 0x80)
    (h : Garbled (cs ++ [c]) ds) : ∃ ds', ds = ds' ++ [c] ∧ Garbled cs ds' := by
  obtain ⟨ds₁, ds₂, rfl, h₁, h₂⟩ := h.append_inv
  have hlast : ds₂ = [c] := h₂.eq_of_ascii (by simpa using hc)
  exact ⟨ds₁, hlast ▸ rfl, h₁⟩

private theorem garbled_printString {s : String} {ds : List Char} (h : Garbled (printString s) ds) :
    ∃ s' : String, ds = printString s' := by
  obtain ⟨ds, rfl, hrest⟩ := h.cons_ascii (by decide)
  obtain ⟨ds, rfl, hmiddle⟩ := garbled_concat (c := '"') (by decide) hrest
  obtain ⟨cs, rfl⟩ := garbled_escapes hmiddle
  exact ⟨String.ofList cs, by rw [printString, String.toList_ofList]⟩

/-- The text between the brackets of a value. -/
theorem garbled_between {o c : Char} (ho : o.toNat < 0x80) (hc : c.toNat < 0x80)
    {cs ds : List Char} (h : Garbled (o :: (cs ++ [c])) ds) :
    ∃ ds', ds = o :: (ds' ++ [c]) ∧ Garbled cs ds' := by
  obtain ⟨ds, rfl, hrest⟩ := h.cons_ascii ho
  obtain ⟨ds, rfl, hmiddle⟩ := garbled_concat hc hrest
  exact ⟨ds, rfl, hmiddle⟩

mutual

private theorem garbled_print : ∀ (v : Json) {ds : List Char}, Garbled (print v) ds →
    ∃ v', ds = print v'
  | null, _, h => ⟨null, h.eq_of_ascii (by simp [print])⟩
  | bool true, _, h => ⟨bool true, h.eq_of_ascii (by simp [print])⟩
  | bool false, _, h => ⟨bool false, h.eq_of_ascii (by simp [print])⟩
  | num n, _, h => ⟨num n, h.eq_of_ascii (ascii_text n)⟩
  | str s, _, h => by
      obtain ⟨s', rfl⟩ := garbled_printString h
      exact ⟨str s', rfl⟩
  | arr vs, _, h => by
      obtain ⟨ds, rfl, hmiddle⟩ := garbled_between (by decide) (by decide) h
      obtain ⟨vs', rfl, -⟩ := garbled_printElements vs hmiddle
      exact ⟨arr vs', rfl⟩
  | obj fs, _, h => by
      obtain ⟨ds, rfl, hmiddle⟩ := garbled_between (by decide) (by decide) h
      obtain ⟨fs', rfl, -⟩ := garbled_printFields fs hmiddle
      exact ⟨obj fs', rfl⟩

private theorem garbled_printElements : ∀ (vs : List Json) {ds : List Char},
    Garbled (printElements vs) ds → ∃ vs', ds = printElements vs' ∧ vs'.length = vs.length
  | [], _, h => ⟨[], h.eq_of_ascii (by simp [printElements]), rfl⟩
  | [v], _, h => by
      obtain ⟨v', rfl⟩ := garbled_print v h
      exact ⟨[v'], rfl, rfl⟩
  | v :: w :: vs, _, h => by
      obtain ⟨ds₁, ds₂, rfl, h₁, h₂⟩ := h.append_inv
      obtain ⟨ds₂, rfl, hrest⟩ := h₂.cons_ascii (by decide)
      obtain ⟨v', rfl⟩ := garbled_print v h₁
      obtain ⟨ws', rfl, hlength⟩ := garbled_printElements (w :: vs) hrest
      obtain ⟨w', vs', rfl⟩ := List.exists_cons_of_length_eq_add_one hlength
      exact ⟨v' :: w' :: vs', rfl, congrArg Nat.succ hlength⟩

private theorem garbled_printFields : ∀ (fs : List (String × Json)) {ds : List Char},
    Garbled (printFields fs) ds → ∃ fs', ds = printFields fs' ∧ fs'.length = fs.length
  | [], _, h => ⟨[], h.eq_of_ascii (by simp [printFields]), rfl⟩
  | [(k, v)], _, h => by
      obtain ⟨ds₁, ds₂, rfl, h₁, h₂⟩ := h.append_inv
      obtain ⟨ds₂, rfl, hvalue⟩ := h₂.cons_ascii (by decide)
      obtain ⟨k', rfl⟩ := garbled_printString h₁
      obtain ⟨v', rfl⟩ := garbled_print v hvalue
      exact ⟨[(k', v')], rfl, rfl⟩
  | (k, v) :: f :: fs, _, h => by
      obtain ⟨ds₁, ds₂, rfl, h₁, h₂⟩ := h.append_inv
      obtain ⟨ds₂, rfl, hafter⟩ := h₂.cons_ascii (by decide)
      obtain ⟨ds₂, ds₃, rfl, hvalue, h₃⟩ := hafter.append_inv
      obtain ⟨ds₃, rfl, hrest⟩ := h₃.cons_ascii (by decide)
      obtain ⟨k', rfl⟩ := garbled_printString h₁
      obtain ⟨v', rfl⟩ := garbled_print v hvalue
      obtain ⟨gs', rfl, hlength⟩ := garbled_printFields (f :: fs) hrest
      obtain ⟨g', fs', rfl⟩ := List.exists_cons_of_length_eq_add_one hlength
      exact ⟨(k', v') :: g' :: fs', rfl, congrArg Nat.succ hlength⟩

end

/-- A garbled object is the text of an object. -/
theorem garbled_print_obj {fields : List (String × Json)} {ds : List Char}
    (h : Garbled (print (obj fields)) ds) : ∃ fields', ds = print (obj fields') := by
  obtain ⟨ds, rfl, hmiddle⟩ := garbled_between (by decide) (by decide) h
  obtain ⟨fields', rfl, -⟩ := garbled_printFields fields hmiddle
  exact ⟨fields', rfl⟩

end Json

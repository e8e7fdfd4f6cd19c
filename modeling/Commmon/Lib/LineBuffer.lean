/-
# Lines out of chunks

A sender writes whole lines, each followed by a terminator. A receiver gets the
text in chunks that are cut anywhere, keeps what has no terminator yet, and takes
the lines out as they are completed. Whatever the cuts are, the lines come out as
they were sent, and what is kept is the beginning of the next one.
-/

import Mathlib.Data.List.Basic
import Mathlib.Data.List.TakeWhile

set_option autoImplicit false

universe u

namespace LineBuffer

variable {α : Type u} [DecidableEq α] (nl : α)

/-- The text of lines. -/
def frame (lines : List (List α)) : List α := lines.flatMap fun line => line ++ [nl]

/-- The first line of a buffer and what follows it, if it is complete. -/
def takeLine (buffer : List α) : Option (List α × List α) :=
  match buffer.dropWhile (· ≠ nl) with
  | [] => none
  | _ :: rest => some (buffer.takeWhile (· ≠ nl), rest)

/-- The complete lines of a buffer, and what is left of it. -/
def split : List α → List (List α) × List α
  | [] => ([], [])
  | c :: cs =>
      if c = nl then ([] :: (split cs).1, (split cs).2)
      else
        match (split cs).1 with
        | [] => ([], c :: (split cs).2)
        | line :: lines => ((c :: line) :: lines, (split cs).2)

variable {nl}

theorem takeLine_line {line : List α} (h : nl ∉ line) (rest : List α) :
    takeLine nl (line ++ nl :: rest) = some (line, rest) := by
  have hne : ∀ c ∈ line, decide (c ≠ nl) = true := by
    intro c hc
    rw [decide_eq_true_eq]
    rintro rfl
    exact h hc
  rw [takeLine, List.dropWhile_append_of_pos hne, List.takeWhile_append_of_pos hne]
  simp

theorem takeLine_eq_some {buffer line rest : List α} (h : takeLine nl buffer = some (line, rest)) :
    buffer = line ++ nl :: rest ∧ nl ∉ line := by
  unfold takeLine at h
  split at h
  · simp at h
  · rename_i c cs hdrop
    obtain ⟨rfl, rfl⟩ := Prod.mk.inj (Option.some.inj h)
    have hc : c = nl := by
      have hhead := List.head?_dropWhile_not (fun d => decide (d ≠ nl)) buffer
      rw [hdrop, List.head?_cons] at hhead
      simpa using hhead
    refine ⟨?_, fun hmem => ?_⟩
    · have hwhole := List.takeWhile_append_dropWhile (p := fun d => decide (d ≠ nl)) (l := buffer)
      rw [hdrop, hc] at hwhole
      exact hwhole.symm
    · have := List.mem_takeWhile_imp hmem
      simp at this

theorem split_free {cs : List α} (h : nl ∉ cs) : split nl cs = ([], cs) := by
  induction cs with
  | nil => rfl
  | cons c cs ih =>
      obtain ⟨hc, hcs⟩ : nl ≠ c ∧ nl ∉ cs := by simpa using h
      simp [split, ih hcs, Ne.symm hc]

theorem split_line {line : List α} (h : nl ∉ line) (rest : List α) :
    split nl (line ++ nl :: rest) = (line :: (split nl rest).1, (split nl rest).2) := by
  induction line with
  | nil => simp [split]
  | cons c line ih =>
      obtain ⟨hc, hline⟩ : nl ≠ c ∧ nl ∉ line := by simpa using h
      simp [split, ih hline, Ne.symm hc]

/-- Taking line after line, as long as there is one. -/
theorem split_eq_takeLine (buffer : List α) :
    split nl buffer = match takeLine nl buffer with
      | none => ([], buffer)
      | some (line, rest) => (line :: (split nl rest).1, (split nl rest).2) := by
  cases h : takeLine nl buffer with
  | none =>
      apply split_free
      intro hmem
      unfold takeLine at h
      split at h
      · rename_i hdrop
        have hall := List.dropWhile_eq_nil_iff.mp hdrop nl hmem
        simp at hall
      · simp at h
  | some r =>
      obtain ⟨rfl, hline⟩ := takeLine_eq_some h
      exact split_line hline r.2

/-- What is left over of a first part is the beginning of the next line. -/
theorem split_append (cs ds : List α) :
    split nl (cs ++ ds) =
      ((split nl cs).1 ++ (split nl ((split nl cs).2 ++ ds)).1,
        (split nl ((split nl cs).2 ++ ds)).2) := by
  induction cs with
  | nil => rfl
  | cons c cs ih =>
      by_cases hc : c = nl
      · simp [split, hc, ih]
      · rcases hlines : (split nl cs).1 with - | ⟨line, lines⟩
        · simp [split, hc, ih, hlines]
        · simp [split, hc, ih, hlines]

/-- Nothing that is left over has a terminator. -/
theorem not_mem_split (cs : List α) : nl ∉ (split nl cs).2 := by
  induction cs with
  | nil => simp [split]
  | cons c cs ih =>
      unfold split
      split_ifs with hc
      · exact ih
      · split
        · simpa using ⟨Ne.symm hc, ih⟩
        · exact ih

/-- The lines and what is left over are the buffer. -/
theorem frame_split (cs : List α) : frame nl (split nl cs).1 ++ (split nl cs).2 = cs := by
  induction cs with
  | nil => rfl
  | cons c cs ih =>
      unfold split
      split_ifs with hc
      · subst hc
        simpa [frame] using ih
      · split
        · rename_i hlines
          rw [hlines] at ih
          simpa [frame] using ih
        · rename_i line lines hlines
          rw [hlines] at ih
          simpa [frame] using ih

/-- No line has a terminator in it. -/
theorem not_mem_of_mem_split : ∀ {cs line : List α}, line ∈ (split nl cs).1 → nl ∉ line
  | [], line, h => absurd h List.not_mem_nil
  | c :: cs, line, h => by
      unfold split at h
      split_ifs at h with hc
      · obtain rfl | h := List.mem_cons.mp h
        · exact List.not_mem_nil
        · exact not_mem_of_mem_split h
      · split at h
        · exact absurd h List.not_mem_nil
        · rename_i first lines hlines
          obtain rfl | h := List.mem_cons.mp h
          · have hfirst : nl ∉ first :=
              not_mem_of_mem_split (by rw [hlines]; exact List.mem_cons_self)
            simpa using ⟨Ne.symm hc, hfirst⟩
          · exact not_mem_of_mem_split (by rw [hlines]; exact List.mem_cons_of_mem _ h)

/-- Framed lines come out as they are. -/
theorem split_frame {lines : List (List α)} (hfree : ∀ line ∈ lines, nl ∉ line) :
    split nl (frame nl lines) = (lines, []) := by
  induction lines with
  | nil => rfl
  | cons line lines ih =>
      obtain ⟨hline, hlines⟩ := List.forall_mem_cons.mp hfree
      have hframe : frame nl (line :: lines) = line ++ nl :: frame nl lines := by
        simp [frame]
      rw [hframe, split_line hline, ih hlines]

/-- Any cut of framed lines. What has come contains the first of them, and
what is left over, with what is still to come, the others. -/
theorem split_of_frame {lines : List (List α)} (hfree : ∀ line ∈ lines, nl ∉ line) :
    ∀ {came rest : List α}, came ++ rest = frame nl lines →
      ∃ n ≤ lines.length, (split nl came).1 = lines.take n ∧
        (split nl came).2 ++ rest = frame nl (lines.drop n) := by
  induction lines with
  | nil =>
      intro came rest h
      obtain ⟨rfl, rfl⟩ := List.append_eq_nil_iff.mp h
      exact ⟨0, le_rfl, rfl, rfl⟩
  | cons line lines ih =>
      intro came rest h
      obtain ⟨hline, hlines⟩ := List.forall_mem_cons.mp hfree
      have hframe : came ++ rest = line ++ (nl :: frame nl lines) := by
        simpa [frame] using h
      obtain ⟨more, hcame, hrest⟩ | ⟨part, hpart, -⟩ := List.append_eq_append_iff.mp hframe
      · -- the cut is before the end of the first line
        have hfree : nl ∉ came := fun hmem => hline (hcame ▸ List.mem_append_left _ hmem)
        exact ⟨0, Nat.zero_le _, by rw [split_free hfree]; rfl, by rw [split_free hfree]; exact h⟩
      · cases part with
        | nil =>
            rw [List.append_nil] at hpart
            subst hpart
            have hnone := split_free hline
            exact ⟨0, Nat.zero_le _, by rw [hnone]; rfl, by rw [hnone]; exact h⟩
        | cons c part =>
            subst hpart
            rw [List.append_assoc] at hframe
            obtain ⟨rfl, htail⟩ := List.cons.inj (List.append_cancel_left hframe)
            obtain ⟨n, hn, htake, hdrop⟩ := ih hlines htail
            refine ⟨n + 1, Nat.succ_le_succ hn, ?_, ?_⟩
            · rw [split_line hline, htake]
              rfl
            · rw [split_line hline]
              exact hdrop

/-- The lines that have come are the first of them. -/
theorem split_eq_take {lines : List (List α)} (hfree : ∀ line ∈ lines, nl ∉ line)
    {came rest : List α} (h : came ++ rest = frame nl lines) :
    (split nl came).1 = lines.take (split nl came).1.length := by
  obtain ⟨n, hn, hlines, -⟩ := split_of_frame hfree h
  rw [hlines, List.length_take_of_le hn]

/-- There are as many lines as terminators. -/
theorem length_split (cs : List α) : (split nl cs).1.length = cs.count nl := by
  induction cs with
  | nil => rfl
  | cons c cs ih =>
      unfold split
      split_ifs with hc
      · subst hc
        simpa using ih
      · rw [List.count_cons_of_ne hc, ← ih]
        split
        · rename_i hlines
          rw [hlines]
        · rename_i line lines hlines
          rw [hlines, List.length_cons, List.length_cons]

section Reader

universe v

variable {σ : Type v} (onLine : σ → List α → σ)

/-- A piece comes. The lines that it completes are handled, and the rest is kept. -/
def feed (nl : α) (s : σ × List α) (piece : List α) : σ × List α :=
  ((split nl (s.2 ++ piece)).1.foldl onLine s.1, (split nl (s.2 ++ piece)).2)

/-- A reader of lines does with pieces what it does with the whole. -/
theorem foldl_feed (pieces : List (List α)) : ∀ {s : σ} {buffer : List α}, nl ∉ buffer →
    pieces.foldl (feed onLine nl) (s, buffer) =
      ((split nl (buffer ++ pieces.flatten)).1.foldl onLine s,
        (split nl (buffer ++ pieces.flatten)).2) := by
  induction pieces with
  | nil =>
      intro s buffer hbuffer
      simp [split_free hbuffer]
  | cons piece pieces ih =>
      intro s buffer _
      rw [List.foldl_cons, feed, ih (not_mem_split _), List.flatten_cons,
        ← List.append_assoc buffer, split_append (_ ++ _), List.foldl_append]

end Reader

end LineBuffer

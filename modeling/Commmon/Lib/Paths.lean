/-
# Paths and their names

The names of a path stand between separators. Separators side by side, and a name
that is a single dot, add nothing. A path is a direct child of a directory if it has
one proper name more. What two dots mean is left to the system: they are a name that
no direct child ends with.

`join` puts a relative path behind a directory. `joinNormal` puts paths behind an
absolute one and resolves the dots.
-/

import Commmon.Lib.Words

set_option autoImplicit false

universe u

namespace Paths

open Words (words IsWord)

/-- How a system writes its paths. -/
structure PathStyle (α : Type u) where
  isSep : α → Bool
  sep : α
  dot : α
  isSep_sep : isSep sep = true
  isSep_dot : isSep dot = false

namespace PathStyle

variable {α : Type u} (σ : PathStyle α)

/-- The path starts at the root. -/
def Rooted (path : List α) : Prop := ∃ c ∈ path.head?, σ.isSep c = true

/-- What something in a directory can be called. -/
structure IsName (w : List α) : Prop where
  word : IsWord σ.isSep w
  ne_dot : w ≠ [σ.dot]
  ne_dots : w ≠ [σ.dot, σ.dot]

/-- A relative path behind a directory, with a separator if there is none yet. -/
def join (dir path : List α) : List α :=
  if ∀ c ∈ dir.getLast?, σ.isSep c = true then dir ++ path else dir ++ σ.sep :: path

/-- Without separators, and more than dots. -/
structure Lettered (w : List α) : Prop where
  allowed : ∀ c ∈ w, σ.isSep c = false
  letter : ∃ c ∈ w, c ≠ σ.dot

section Letters

variable {σ}

theorem Lettered.append {w rest : List α} (hw : σ.Lettered w)
    (hrest : ∀ c ∈ rest, σ.isSep c = false) : σ.Lettered (w ++ rest) := by
  obtain ⟨c, hc, hdot⟩ := hw.letter
  refine ⟨fun d hd => ?_, c, List.mem_append_left rest hc, hdot⟩
  exact (List.mem_append.mp hd).elim (hw.allowed d) (hrest d)

theorem Lettered.isName {w : List α} (hw : σ.Lettered w) : σ.IsName w := by
  obtain ⟨c, hc, hdot⟩ := hw.letter
  refine ⟨⟨List.ne_nil_of_mem hc, hw.allowed⟩, ?_, ?_⟩
  · rintro rfl
    exact hdot (List.mem_singleton.mp hc)
  · rintro rfl
    exact hdot (by simpa using hc)

theorem Lettered.not_rooted {w : List α} (hw : σ.Lettered w) (rest : List α) :
    ¬ σ.Rooted (w ++ rest) := by
  obtain ⟨c, hc, -⟩ := hw.letter
  rintro ⟨d, hd, hsep⟩
  rw [List.head?_append_of_ne_nil _ (List.ne_nil_of_mem hc)] at hd
  simp [hw.allowed d (List.mem_of_mem_head? hd)] at hsep

theorem rooted_join {dir path : List α} (hpath : ¬ σ.Rooted path) :
    σ.Rooted (σ.join dir path) ↔ σ.Rooted dir := by
  cases dir with
  | nil => simpa [join, Rooted] using hpath
  | cons c dir =>
      unfold join
      split_ifs <;> simp [Rooted]

end Letters

variable [DecidableEq α]

def names (path : List α) : List (List α) :=
  (words σ.isSep path).filter fun w => w ≠ [σ.dot]

structure DirectChild (path dir : List α) : Prop where
  rooted : σ.Rooted path ↔ σ.Rooted dir
  names : ∃ name, σ.IsName name ∧ σ.names path = σ.names dir ++ [name]

/-- Two dots go up a directory, and stay where they are at the root. -/
def pushName (dirs : List (List α)) (name : List α) : List (List α) :=
  if name = [σ.dot, σ.dot] then dirs.dropLast else dirs ++ [name]

def resolve (names : List (List α)) : List (List α) := names.foldl σ.pushName []

/-- Paths behind `root`, which is the absolute part in front. -/
def joinNormal (root : List α) (paths : List (List α)) : List α :=
  root ++ [σ.sep].intercalate (σ.resolve (σ.names ([σ.sep].intercalate paths)))

variable {σ}

theorem isWord_of_mem_names {path w : List α} (h : w ∈ σ.names path) :
    IsWord σ.isSep w ∧ w ≠ [σ.dot] := by
  rw [names, List.mem_filter] at h
  exact ⟨Words.isWord_of_mem_words h.1, by simpa using h.2⟩

private theorem names_of_isWord {w : List α} (hw : IsWord σ.isSep w) (hdot : w ≠ [σ.dot]) :
    σ.names w = [w] := by
  simp [names, Words.words_of_isWord hw, hdot]

theorem names_append_sep (xs : List α) {s : α} (hs : σ.isSep s = true) (ys : List α) :
    σ.names (xs ++ s :: ys) = σ.names xs ++ σ.names ys := by
  rw [names, Words.words_append_sep xs hs, List.filter_append]
  rfl

/-- Nothing is lost or added when a path is put behind one that ends in a separator. -/
theorem names_append {xs : List α} (hxs : ∀ c ∈ xs.getLast?, σ.isSep c = true) (ys : List α) :
    σ.names (xs ++ ys) = σ.names xs ++ σ.names ys := by
  obtain rfl | ⟨xs, s, rfl⟩ := List.eq_nil_or_concat xs
  · rfl
  · have hs : σ.isSep s = true := hxs s (by simp)
    rw [List.concat_eq_append, List.append_assoc, names_append_sep xs hs, List.singleton_append,
      names_append_sep xs hs]
    simp [names]

theorem names_join (dir path : List α) :
    σ.names (σ.join dir path) = σ.names dir ++ σ.names path := by
  unfold join
  split_ifs with h
  · exact names_append h path
  · exact names_append_sep dir σ.isSep_sep path

theorem names_intercalate (paths : List (List α)) :
    σ.names ([σ.sep].intercalate paths) = paths.flatMap σ.names := by
  induction paths with
  | nil => rfl
  | cons path paths ih =>
      cases paths with
      | nil => simp
      | cons path' paths =>
          rw [List.intercalate_cons_cons, List.append_assoc, List.singleton_append,
            names_append_sep path σ.isSep_sep, ih]
          rfl

/-- A letter that is no separator is in some name, unless it is a dot. -/
theorem names_ne_nil {path : List α} {c : α} (hc : c ∈ path) (hsep : σ.isSep c = false)
    (hdot : c ≠ σ.dot) : σ.names path ≠ [] := by
  obtain ⟨w, hw, hcw⟩ := Words.exists_mem_words hc hsep
  apply List.ne_nil_of_mem (a := w)
  rw [names, List.mem_filter]
  refine ⟨hw, ?_⟩
  simp only [decide_eq_true_eq]
  rintro rfl
  exact hdot (List.mem_singleton.mp hcw)

theorem Lettered.names_eq {w : List α} (hw : σ.Lettered w) : σ.names w = [w] :=
  names_of_isWord hw.isName.word hw.isName.ne_dot

/-- When a name in three parts makes a direct child, of which only the one in the
middle may have separators. -/
theorem directChild_join_iff {dir front middle back : List α} (hfront : σ.Lettered front)
    (hback : σ.Lettered back) :
    σ.DirectChild (σ.join dir (front ++ middle ++ back)) dir ↔
      ∀ c ∈ middle, σ.isSep c = false := by
  constructor
  · rintro ⟨-, name, -, hnames⟩ c hc
    rw [names_join, List.append_cancel_left_eq] at hnames
    by_contra hsep
    obtain ⟨l, r, rfl⟩ := List.append_of_mem hc
    obtain ⟨a, ha, hadot⟩ := hfront.letter
    obtain ⟨b, hb, hbdot⟩ := hback.letter
    have hleft : σ.names (front ++ l) ≠ [] :=
      names_ne_nil (List.mem_append_left l ha) (hfront.allowed a ha) hadot
    have hright : σ.names (r ++ back) ≠ [] :=
      names_ne_nil (List.mem_append_right r hb) (hback.allowed b hb) hbdot
    have hsplit : front ++ (l ++ c :: r) ++ back = (front ++ l) ++ c :: (r ++ back) := by simp
    rw [hsplit, names_append_sep _ (by simpa using hsep)] at hnames
    have hlength := congrArg List.length hnames
    rw [List.length_append, List.length_singleton] at hlength
    have := List.length_pos_of_ne_nil hleft
    have := List.length_pos_of_ne_nil hright
    omega
  · intro hmiddle
    have hname : σ.Lettered (front ++ middle ++ back) :=
      (hfront.append hmiddle).append hback.allowed
    refine ⟨rooted_join ?_, _, hname.isName, by rw [names_join, hname.names_eq]⟩
    rw [List.append_assoc]
    exact hfront.not_rooted _

/-- Going up only takes names away. -/
theorem mem_of_mem_resolve {names : List (List α)} {w : List α} (h : w ∈ σ.resolve names) :
    w ∈ names := by
  induction names using List.reverseRecOn with
  | nil => exact h
  | append_singleton names name ih =>
      rw [resolve, List.foldl_append] at h
      change w ∈ σ.pushName (σ.resolve names) name at h
      unfold pushName at h
      split_ifs at h
      · exact List.mem_append_left _ (ih (List.dropLast_subset _ h))
      · exact (List.mem_append.mp h).elim (fun h => List.mem_append_left _ (ih h))
          (List.mem_append_right _)

theorem resolve_append_singleton (names : List (List α)) {name : List α}
    (hname : name ≠ [σ.dot, σ.dot]) : σ.resolve (names ++ [name]) = σ.resolve names ++ [name] := by
  rw [resolve, List.foldl_append]
  exact if_neg hname

/-- Names that are joined are the names again. -/
theorem names_intercalate_of_names {ws : List (List α)}
    (hws : ∀ w ∈ ws, IsWord σ.isSep w ∧ w ≠ [σ.dot]) : σ.names ([σ.sep].intercalate ws) = ws := by
  rw [names, Words.words_intercalate σ.isSep_sep fun w hw => (hws w hw).1, List.filter_eq_self]
  intro w hw
  simpa using (hws w hw).2

/-- A resolved path has the names that are left. -/
theorem names_joinNormal {root : List α} (hroot : ∀ c ∈ root.getLast?, σ.isSep c = true)
    (paths : List (List α)) :
    σ.names (σ.joinNormal root paths) = σ.names root ++ σ.resolve (paths.flatMap σ.names) := by
  have hleft : ∀ w ∈ σ.resolve (paths.flatMap σ.names), IsWord σ.isSep w ∧ w ≠ [σ.dot] := by
    intro w hw
    obtain ⟨path, -, hpath⟩ := List.mem_flatMap.mp (mem_of_mem_resolve hw)
    exact isWord_of_mem_names hpath
  rw [joinNormal, names_append hroot, names_intercalate paths, names_intercalate_of_names hleft]

/-- One more name makes a direct child. -/
theorem directChild_joinNormal {root name : List α} (hroot : ∃ c ∈ root.getLast?, σ.isSep c = true)
    (hname : σ.IsName name) (paths : List (List α)) :
    σ.DirectChild (σ.joinNormal root (paths ++ [name])) (σ.joinNormal root paths) := by
  obtain ⟨c, hc, hsep⟩ := hroot
  have hlast : ∀ d ∈ root.getLast?, σ.isSep d = true := fun d hd =>
    Option.mem_unique hc hd ▸ hsep
  have hne : root ≠ [] := List.ne_nil_of_mem (List.mem_of_mem_getLast? hc)
  refine ⟨?_, name, hname, ?_⟩
  · simp only [Rooted, joinNormal, List.head?_append_of_ne_nil _ hne]
  · rw [names_joinNormal hlast, names_joinNormal hlast, List.flatMap_append,
      List.flatMap_singleton, names_of_isWord hname.word hname.ne_dot,
      resolve_append_singleton _ hname.ne_dots, List.append_assoc]

end PathStyle

end Paths

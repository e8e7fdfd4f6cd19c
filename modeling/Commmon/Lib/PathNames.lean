/-
# Names with extensions

The last name of a path stands behind its last separator, and its extension is what
begins with the last dot of it. A name that only begins with a dot has none. Separators
at the end of a path are passed over when its extension is looked for.

A text can be put before the extension. Counted from the end of the path, this is the
right place unless separators follow.
-/

import Commmon.Lib.Paths

set_option autoImplicit false

universe u

namespace Paths

namespace PathStyle

variable {α : Type u} (σ : PathStyle α)

/-- A path up to its last separator. -/
def dirPart (path : List α) : List α := path.rdropWhile fun c => !σ.isSep c

/-- What follows the last separator. -/
def lastPart (path : List α) : List α := path.rtakeWhile fun c => !σ.isSep c

/-- The path ends in a separator. -/
def EndsInSep (path : List α) : Prop := ∃ c ∈ path.getLast?, σ.isSep c = true

section Parts

variable {σ}

/-- Where the part that is dropped begins. -/
theorem rdropWhile_parts {q : α → Bool} {front back : List α}
    (hfront : ∀ c ∈ front.getLast?, q c = false) (hback : ∀ c ∈ back, q c = true) :
    (front ++ back).rdropWhile q = front := by
  induction back using List.reverseRecOn with
  | nil =>
      rw [List.append_nil, List.rdropWhile_eq_self_iff]
      intro hne
      simpa using hfront _ (List.getLast?_eq_some_getLast hne)
  | append_singleton back c ih =>
      rw [← List.append_assoc, List.rdropWhile_concat_pos _ _ _ (hback c (by simp))]
      exact ih fun d hd => hback d (List.mem_append_left _ hd)

private theorem rtakeWhile_parts {q : α → Bool} {front back : List α}
    (hfront : ∀ c ∈ front.getLast?, q c = false) (hback : ∀ c ∈ back, q c = true) :
    (front ++ back).rtakeWhile q = back := by
  have h : (front ++ back).rdropWhile q ++ (front ++ back).rtakeWhile q = front ++ back :=
    List.rdropWhile_append_rtakeWhile
  rwa [rdropWhile_parts hfront hback, List.append_cancel_left_eq] at h

theorem dirPart_append_lastPart (path : List α) : σ.dirPart path ++ σ.lastPart path = path :=
  List.rdropWhile_append_rtakeWhile

private theorem not_isSep_lastPart (path : List α) : ∀ c ∈ σ.lastPart path, σ.isSep c = false := by
  intro c hc
  simpa using List.mem_rtakeWhile_imp hc

theorem isSep_dirPart (path : List α) : ∀ c ∈ (σ.dirPart path).getLast?, σ.isSep c = true := by
  intro c hc
  obtain ⟨hne, rfl⟩ := List.mem_getLast?_eq_getLast hc
  have hlast := List.rdropWhile_last_not (fun c => !σ.isSep c) path hne
  rwa [Bool.not_eq_true', Bool.not_eq_false] at hlast

theorem dirPart_append {dir name : List α} (hdir : ∀ c ∈ dir.getLast?, σ.isSep c = true)
    (hname : ∀ c ∈ name, σ.isSep c = false) : σ.dirPart (dir ++ name) = dir :=
  rdropWhile_parts (fun c hc => by simp [hdir c hc]) fun c hc => by simp [hname c hc]

theorem lastPart_append {dir name : List α} (hdir : ∀ c ∈ dir.getLast?, σ.isSep c = true)
    (hname : ∀ c ∈ name, σ.isSep c = false) : σ.lastPart (dir ++ name) = name :=
  rtakeWhile_parts (fun c hc => by simp [hdir c hc]) fun c hc => by simp [hname c hc]

theorem lastPart_of_endsInSep {path : List α} (h : σ.EndsInSep path) : σ.lastPart path = [] := by
  obtain ⟨c, hc, hsep⟩ := h
  have hdir : ∀ d ∈ path.getLast?, σ.isSep d = true := fun d hd => Option.mem_unique hc hd ▸ hsep
  have hname : ∀ d ∈ ([] : List α), σ.isSep d = false := by simp
  have hlast := lastPart_append hdir hname
  rwa [List.append_nil] at hlast

end Parts

variable [DecidableEq α]

/-- The extension of a name: its last dot and what follows. -/
def nameExtension (name : List α) : List α :=
  if name = [σ.dot, σ.dot] ∨ (name.rdropWhile fun c => decide (c ≠ σ.dot)).length ≤ 1 then []
  else σ.dot :: name.rtakeWhile fun c => decide (c ≠ σ.dot)

/-- The extension of the last name. -/
def extname (path : List α) : List α :=
  σ.nameExtension (σ.lastPart (path.rdropWhile σ.isSep))

/-- The path without as many characters as the extension has, the text, the extension. -/
def beforeExtension (path text : List α) : List α :=
  path.take (path.length - (σ.extname path).length) ++ text ++ σ.extname path

/-- The text stands in the last name, right before its extension. -/
structure Inserted (path text result : List α) : Prop where
  dir : σ.dirPart result = σ.dirPart path
  name : ∃ stem, σ.lastPart path = stem ++ σ.extname path ∧
    σ.lastPart result = stem ++ text ++ σ.extname path

variable {σ}

private theorem nameExtension_of_parts {stem rest : List α} (hstem : stem ≠ [])
    (hrest : ∀ c ∈ rest, c ≠ σ.dot) (hdots : stem ++ σ.dot :: rest ≠ [σ.dot, σ.dot]) :
    σ.nameExtension (stem ++ σ.dot :: rest) = σ.dot :: rest := by
  have hfront : ∀ c ∈ (stem ++ [σ.dot]).getLast?, decide (c ≠ σ.dot) = false := by simp
  have hback : ∀ c ∈ rest, decide (c ≠ σ.dot) = true := fun c hc => decide_eq_true (hrest c hc)
  have hparts : stem ++ σ.dot :: rest = (stem ++ [σ.dot]) ++ rest := by simp
  have hlong : ¬ (stem ++ [σ.dot]).length ≤ 1 := by
    have := List.length_pos_of_ne_nil hstem
    rw [List.length_append, List.length_singleton]
    omega
  rw [nameExtension, hparts, rdropWhile_parts hfront hback, rtakeWhile_parts hfront hback,
    if_neg (not_or.mpr ⟨hparts ▸ hdots, hlong⟩)]

private theorem nameExtension_cases (name : List α) :
    σ.nameExtension name = [] ∨ ∃ stem rest, stem ≠ [] ∧ (∀ c ∈ rest, c ≠ σ.dot) ∧
      name = stem ++ σ.dot :: rest ∧ σ.nameExtension name = σ.dot :: rest := by
  by_cases h : name = [σ.dot, σ.dot] ∨
      (name.rdropWhile fun c => decide (c ≠ σ.dot)).length ≤ 1
  · exact Or.inl (if_pos h)
  · refine Or.inr ⟨(name.rdropWhile fun c => decide (c ≠ σ.dot)).dropLast,
      name.rtakeWhile fun c => decide (c ≠ σ.dot), ?_, ?_, ?_, if_neg h⟩
    · rw [not_or, not_le] at h
      refine List.ne_nil_of_length_pos ?_
      rw [List.length_dropLast]
      omega
    · intro c hc
      simpa using List.mem_rtakeWhile_imp hc
    · rw [not_or, not_le] at h
      have hne : (name.rdropWhile fun c => decide (c ≠ σ.dot)) ≠ [] :=
        List.ne_nil_of_length_pos (by omega)
      have hdot : (name.rdropWhile fun c => decide (c ≠ σ.dot)).getLast hne = σ.dot := by
        have hlast := List.rdropWhile_last_not (fun c => decide (c ≠ σ.dot)) name hne
        simpa using hlast
      have hstem := List.dropLast_append_getLast hne
      rw [hdot] at hstem
      calc
        name = (name.rdropWhile fun c => decide (c ≠ σ.dot)) ++
            name.rtakeWhile fun c => decide (c ≠ σ.dot) := List.rdropWhile_append_rtakeWhile.symm
        _ = ((name.rdropWhile fun c => decide (c ≠ σ.dot)).dropLast ++ [σ.dot]) ++
            name.rtakeWhile fun c => decide (c ≠ σ.dot) := by rw [hstem]
        _ = _ := by simp

private theorem nameExtension_suffix (name : List α) : σ.nameExtension name <:+ name := by
  obtain hnil | ⟨stem, rest, -, -, hname, hext⟩ := nameExtension_cases (σ := σ) name
  · exact hnil ▸ List.nil_suffix
  · exact ⟨stem, by rw [hext, ← hname]⟩

/-- An extension begins with its dot. -/
theorem head?_extname (path : List α) : ∀ c ∈ (σ.extname path).head?, c = σ.dot := by
  intro c hc
  unfold extname at hc
  obtain hnil | ⟨-, rest, -, -, -, hext⟩ :=
    nameExtension_cases (σ := σ) (σ.lastPart (path.rdropWhile σ.isSep))
  · simp [hnil] at hc
  · rw [hext] at hc
    exact (Option.some.inj hc).symm

/-- Without separators at the end the extension is the last name's. -/
theorem extname_of_not_endsInSep {path : List α} (h : ¬ σ.EndsInSep path) :
    σ.extname path = σ.nameExtension (σ.lastPart path) := by
  have hself : path.rdropWhile σ.isSep = path := by
    rw [List.rdropWhile_eq_self_iff]
    intro hne hsep
    exact h ⟨_, List.getLast?_eq_some_getLast hne, hsep⟩
  rw [extname, hself]

/-- Where the text comes, unless separators follow an extension. -/
theorem beforeExtension_parts {path : List α} (h : ¬ (σ.EndsInSep path ∧ σ.extname path ≠ [])) :
    ∃ stem, σ.lastPart path = stem ++ σ.extname path ∧ ∀ text,
      σ.beforeExtension path text = σ.dirPart path ++ (stem ++ text ++ σ.extname path) := by
  have hstem : ∃ stem, σ.lastPart path = stem ++ σ.extname path := by
    by_cases hext : σ.extname path = []
    · exact ⟨σ.lastPart path, by rw [hext, List.append_nil]⟩
    · have hends : ¬ σ.EndsInSep path := fun hends => h ⟨hends, hext⟩
      rw [extname_of_not_endsInSep hends]
      obtain ⟨stem, hstem⟩ := nameExtension_suffix (σ := σ) (σ.lastPart path)
      exact ⟨stem, hstem.symm⟩
  obtain ⟨stem, hstem⟩ := hstem
  have hpath : path = (σ.dirPart path ++ stem) ++ σ.extname path := by
    rw [List.append_assoc, ← hstem, dirPart_append_lastPart]
  have htake : path.take (path.length - (σ.extname path).length) = σ.dirPart path ++ stem := by
    have hlength := congrArg List.length hpath
    rw [List.length_append] at hlength
    have hcount : path.length - (σ.extname path).length = (σ.dirPart path ++ stem).length := by
      omega
    rw [hcount]
    exact (congrArg (List.take _) hpath).trans List.take_left
  exact ⟨stem, hstem, fun text => by simp [beforeExtension, htake]⟩

/-- When the text gets into the last name. -/
theorem inserted_iff {path text : List α} (htext : ∀ c ∈ text, σ.isSep c = false) :
    σ.Inserted path text (σ.beforeExtension path text) ↔
      ¬ (σ.EndsInSep path ∧ σ.extname path ≠ []) := by
  constructor
  · rintro ⟨-, stem, hname, -⟩ ⟨hends, hext⟩
    rw [lastPart_of_endsInSep hends] at hname
    exact hext (List.append_eq_nil_iff.mp hname.symm).2
  · intro h
    obtain ⟨stem, hstem, hresult⟩ := beforeExtension_parts h
    have hletters : ∀ c ∈ stem ++ text ++ σ.extname path, σ.isSep c = false := by
      have hlast := not_isSep_lastPart (σ := σ) path
      rw [hstem, List.forall_mem_append] at hlast
      rw [List.forall_mem_append, List.forall_mem_append]
      exact ⟨⟨hlast.1, htext⟩, hlast.2⟩
    refine ⟨?_, stem, hstem, ?_⟩
    · rw [hresult, dirPart_append (isSep_dirPart path) hletters]
    · rw [hresult, lastPart_append (isSep_dirPart path) hletters]

/-- The extension is kept. -/
theorem Inserted.extname_eq {path text result : List α} (h : σ.Inserted path text result)
    (hext : σ.extname path ≠ []) (htext : text ≠ []) : σ.extname result = σ.extname path := by
  obtain ⟨-, stem, hpath, hresult⟩ := h
  have hends : ¬ σ.EndsInSep path := by
    intro hends
    rw [lastPart_of_endsInSep hends] at hpath
    exact hext (List.append_eq_nil_iff.mp hpath.symm).2
  have hends' : ¬ σ.EndsInSep result := by
    intro hends'
    rw [lastPart_of_endsInSep hends'] at hresult
    exact hext (List.append_eq_nil_iff.mp hresult.symm).2
  rw [extname_of_not_endsInSep hends', hresult]
  obtain hnil | ⟨stem', rest, hstem', hrest, hname, hself⟩ :=
    nameExtension_cases (σ := σ) (σ.lastPart path)
  · exact absurd (extname_of_not_endsInSep hends ▸ hnil) hext
  · rw [extname_of_not_endsInSep hends, hself] at hpath ⊢
    obtain rfl : stem = stem' := List.append_cancel_right (hpath.symm.trans hname)
    refine nameExtension_of_parts (List.append_ne_nil_of_left_ne_nil hstem' _) hrest fun hdots => ?_
    have hlength := congrArg List.length hdots
    have := List.length_pos_of_ne_nil hstem'
    have := List.length_pos_of_ne_nil htext
    simp only [List.length_append, List.length_cons, List.length_nil] at hlength
    omega

/-- Another text makes another path. -/
theorem beforeExtension_inj {path text text' : List α} :
    σ.beforeExtension path text = σ.beforeExtension path text' ↔ text = text' := by
  simp [beforeExtension]

/-- A resolved path ends in a separator only where no name is left. -/
theorem joinNormal_of_endsInSep {root : List α} {paths : List (List α)}
    (h : σ.EndsInSep (σ.joinNormal root paths)) : σ.joinNormal root paths = root := by
  unfold joinNormal at h ⊢
  generalize hnames : σ.resolve (σ.names ([σ.sep].intercalate paths)) = names at h ⊢
  obtain rfl | ⟨front, name, rfl⟩ := List.eq_nil_or_concat names
  · exact List.append_nil _
  · have hword : Words.IsWord σ.isSep name := by
      have hmem : name ∈ σ.resolve (σ.names ([σ.sep].intercalate paths)) := by simp [hnames]
      exact (isWord_of_mem_names (mem_of_mem_resolve hmem)).1
    have hlast : ∀ front : List (List α), ∃ before,
        [σ.sep].intercalate (front ++ [name]) = before ++ name := by
      intro front
      induction front with
      | nil => exact ⟨[], by simp⟩
      | cons w front ih =>
          obtain ⟨before, hbefore⟩ := ih
          obtain ⟨v, rest, hv⟩ : ∃ v rest, front ++ [name] = v :: rest :=
            List.exists_cons_of_ne_nil (by simp)
          refine ⟨w ++ [σ.sep] ++ before, ?_⟩
          rw [List.cons_append, hv, List.intercalate_cons_cons, ← hv, hbefore]
          simp
    obtain ⟨before, hbefore⟩ := hlast front
    obtain ⟨c, hc, hsep⟩ := h
    rw [List.concat_eq_append, hbefore, ← List.append_assoc,
      List.getLast?_append_of_ne_nil _ hword.1] at hc
    exact absurd (hword.2 c (List.mem_of_mem_getLast? hc)) (by simp [hsep])

end PathStyle

end Paths

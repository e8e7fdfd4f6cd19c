/-
# Two detectors of a keyword

A log task looks for its stop keyword in the text of one entry at a time. A
filter keeps a tail of what it has scanned and finds a keyword in the stream. The
two agree on a stream exactly when the entry that first completes the keyword has
it whole, and no earlier entry shows it only because bytes were replaced.
-/

import Commmon.FilterRun
import Commmon.LogRecord

set_option autoImplicit false

namespace Commmon

open PatternSearch Utf8Lossy

theorem asBytes_eq (s : String) : asBytes s = s.toList.flatMap String.utf8EncodeChar := by
  have h : s.toUTF8 = s.toList.utf8Encode := String.utf8Encode_toList.symm
  rw [asBytes, h, List.utf8Encode, List.data_toByteArray]

/-- The entry has the keyword's bytes. -/
def Holds (keyword : String) (entry : RxEntry) : Prop := asBytes keyword <:+: entry.data

instance (keyword : String) : DecidablePred (Holds keyword) :=
  fun entry => inferInstanceAs (Decidable (asBytes keyword <:+: entry.data))

/-- The entry shows the keyword in its text without having its bytes. -/
def Forged (keyword : String) (entry : RxEntry) : Prop :=
  Logs.contains (decode entry.data) keyword = true ∧ ¬ Holds keyword entry

private theorem contains_iff {keyword : String} {entry : RxEntry} :
    Logs.contains (decode entry.data) keyword = true ↔
      Holds keyword entry ∨ Forged keyword entry := by
  constructor
  · intro h
    exact (em (Holds keyword entry)).imp_right fun hnot => ⟨h, hnot⟩
  · rintro (h | h)
    · rw [Holds, asBytes_eq] at h
      rw [Logs.contains, decide_eq_true_eq, toList_decode]
      exact infix_chars h
    · exact h.1

/-- The entry after which `log_task` breaks out of its loop. -/
def logStop (keyword : String) (entries : List RxEntry) : Option ℕ :=
  entries.findIdx? fun entry => Logs.contains (decode entry.data) keyword

/-- The entry at which a filter for the keyword that was added at the same time
reports its first hit. -/
def firstHit (rx : Receiver) (keyword : String) (entries : List RxEntry) : Option ℕ :=
  (List.range entries.length).find? fun i =>
    ((filterSystem rx [keyword]).run ((entries.take (i + 1)).map .chunk)).any fun r =>
      !(offsetsAt 0 r.log).isEmpty

/-- With the entry at `i`, the bytes received contain the keyword. -/
def Completed (keyword : String) (entries : List RxEntry) (i : ℕ) : Prop :=
  asBytes keyword <:+: (entries.take (i + 1)).flatMap (·.data)

instance (keyword : String) (entries : List RxEntry) :
    DecidablePred (Completed keyword entries) :=
  fun _ => inferInstanceAs (Decidable (asBytes keyword <:+: _))

/-- The first entry after which the bytes received contain the keyword. -/
def firstCompletion (keyword : String) (entries : List RxEntry) : Option ℕ :=
  (List.range entries.length).find? fun i => Completed keyword entries i

private theorem firstHit_eq (rx : Receiver) {keyword : String} (hne : keyword ≠ "")
    (entries : List RxEntry) : firstHit rx keyword entries = firstCompletion keyword entries := by
  unfold firstHit firstCompletion
  congr 1
  funext i
  obtain ⟨r, hrun⟩ := exists_runFrom rx [keyword] ((entries.take (i + 1)).map .chunk)
    (filterSystem rx [keyword]).init
  have hoffsets := offsetsAt_of_run hrun (i := 0) rfl hne
  have hrun' : (filterSystem rx [keyword]).run ((entries.take (i + 1)).map .chunk) = some r := hrun
  rw [hrun', Option.any_some, hoffsets, Bool.eq_iff_iff, decide_eq_true_eq, Completed,
    ← occurrences_ne_nil_iff (asBytes_ne_nil hne)]
  simp

/-- Two searches agree when they agree as far as the second has not found
anything. -/
theorem find?_range_eq_iff {n : ℕ} {p q : ℕ → Bool} :
    (List.range n).find? p = (List.range n).find? q ↔
      ∀ i < n, (∀ j < i, q j = false) → p i = q i := by
  constructor
  · intro heq i hi hbefore
    cases hq : q i with
    | true =>
        have hfind : (List.range n).find? q = some i :=
          List.find?_range_eq_some.mpr ⟨hq, List.mem_range.mpr hi, by simpa using hbefore⟩
        exact (List.find?_range_eq_some.mp (heq.trans hfind)).1
    | false =>
        by_contra hp
        rw [Bool.not_eq_false] at hp
        cases hfind : (List.range n).find? p with
        | none => exact absurd hp (by simpa using List.find?_range_eq_none.mp hfind i hi)
        | some j =>
            have hj := (List.find?_range_eq_some.mp (heq.symm.trans hfind)).1
            rcases Nat.lt_trichotomy j i with hlt | rfl | hgt
            · simp [hbefore j hlt] at hj
            · simp [hq] at hj
            · have hpi := (List.find?_range_eq_some.mp hfind).2.2 i hgt
              simp [hp] at hpi
  · intro h
    cases hfind : (List.range n).find? q with
    | none =>
        have hq := List.find?_range_eq_none.mp hfind
        refine List.find?_range_eq_none.mpr fun i hi => ?_
        rw [h i hi fun j hj => by simpa using hq j (Nat.lt_trans hj hi)]
        exact hq i hi
    | some i =>
        obtain ⟨hq, hmem, hbefore⟩ := List.find?_range_eq_some.mp hfind
        have hi := List.mem_range.mp hmem
        have hfalse : ∀ j < i, q j = false := by simpa using hbefore
        refine List.find?_range_eq_some.mpr ⟨by rw [h i hi hfalse, hq], hmem, fun j hj => ?_⟩
        rw [h j (Nat.lt_trans hj hi) fun k hk => hfalse k (Nat.lt_trans hk hj), hfalse j hj]
        rfl

private theorem findIdx?_eq_find?_range {α : Type} (p : α → Bool) (xs : List α) :
    xs.findIdx? p = (List.range xs.length).find? fun i => xs[i]?.any p := by
  cases hfind : xs.findIdx? p with
  | none =>
      rw [List.findIdx?_eq_none_iff] at hfind
      refine (List.find?_range_eq_none.mpr fun i hi => ?_).symm
      simp [List.getElem?_eq_getElem hi, hfind _ (List.getElem_mem hi)]
  | some i =>
      obtain ⟨hi, hp, hbefore⟩ := List.findIdx?_eq_some_iff_getElem.mp hfind
      refine (List.find?_range_eq_some.mpr ⟨?_, List.mem_range.mpr hi, fun j hj => ?_⟩).symm
      · simp [List.getElem?_eq_getElem hi, hp]
      · have hlt : j < xs.length := Nat.lt_trans hj hi
        simpa [List.getElem?_eq_getElem hlt] using hbefore j hj

private theorem Holds.completed {keyword : String} {entries : List RxEntry} {i : ℕ}
    {entry : RxEntry}
    (h : Holds keyword entry) (hi : entries[i]? = some entry) : Completed keyword entries i := by
  refine List.IsInfix.trans h ⟨(entries.take i).flatMap (·.data), [], ?_⟩
  rw [List.take_add_one, hi, List.flatMap_append]
  simp

/-- The search through the entries and the search through the stream, entry by
entry. -/
theorem logStop_eq_firstCompletion_iff (keyword : String) (entries : List RxEntry) :
    logStop keyword entries = firstCompletion keyword entries ↔
    ∀ i entry, entries[i]? = some entry → (∀ j < i, ¬ Completed keyword entries j) →
      (Completed keyword entries i → Holds keyword entry ∨ Forged keyword entry) ∧
      (Forged keyword entry → Completed keyword entries i) := by
  rw [logStop, findIdx?_eq_find?_range, firstCompletion, find?_range_eq_iff]
  simp only [decide_eq_false_iff_not]
  have hentry : ∀ i entry, entries[i]? = some entry →
      ((entries[i]?.any fun entry => Logs.contains (decode entry.data) keyword) =
        decide (Completed keyword entries i) ↔
      (Completed keyword entries i → Holds keyword entry ∨ Forged keyword entry) ∧
        (Forged keyword entry → Completed keyword entries i)) := by
    intro i entry hi
    rw [hi, Option.any_some, Bool.eq_iff_iff, decide_eq_true_eq, contains_iff]
    have hholds := fun h : Holds keyword entry => h.completed hi
    exact ⟨fun h => ⟨h.mpr, fun hf => h.mp (Or.inr hf)⟩,
      fun h => ⟨fun hor => hor.elim hholds h.2, h.1⟩⟩
  constructor
  · intro h i entry hi hbefore
    exact (hentry i entry hi).mp (h i (List.getElem?_eq_some_iff.mp hi).1 hbefore)
  · intro h i hi hbefore
    have hget := List.getElem?_eq_getElem hi
    exact (hentry i _ hget).mpr (h i _ hget hbefore)

/-- A log task that looks for the keyword. `start_log` has taken the receiver, and on the run
since then the task neither lags nor fails to write its file, no entry has stopped it and its
keyword has stayed. It has received `entries`, and is about to check the last of them. -/
structure KeywordWatch (keyword : String) (entries : List RxEntry) where
  before : List LogEvent
  starter : CallId
  env : Logs.LogEnv
  port : String
  rx : Receiver
  args : Value
  subscribed : LogWorld
  started : LogWorld
  during : List LogEvent
  checking : LogWorld
  entry : RxEntry
  run_before : logging.run before = some subscribed
  register : subscribed.calls starter = some (.register port rx args)
  free : subscribed.logs.table.lookup port = none
  start : subscribed.step (.advance starter env) = some started
  run_during : logging.runFrom started during = some checking
  undamaged : logging.Along (fun s e _ => LogWorld.Undamaged subscribed.logs.freshLog s e ∧
    s.logs.stopKeyword subscribed.logs.freshLog = some keyword) started during
  watched : checking.logs.stopKeyword subscribed.logs.freshLog = some keyword
  writing : (checking.logs.tasks subscribed.logs.freshLog).pc = .writing entry
  received : checking.taken subscribed.logs.freshLog rx.chan rx.next = entries

namespace KeywordWatch

variable {keyword : String} {entries : List RxEntry} (x : KeywordWatch keyword entries)

/-- The task finds the keyword in the entry, and breaks out of its loop. -/
def Stops : Prop :=
  x.checking.logs.matched x.subscribed.logs.freshLog x.entry = some keyword

/-- The task stops at the entry that `logStop` names. -/
theorem stops_iff : x.Stops ↔ logStop keyword entries = some (entries.length - 1) := by
  have halong : logging.Along (fun s e _ =>
      LogWorld.Undamaged x.subscribed.logs.freshLog s e ∧
        ∀ entry, s.logs.matched x.subscribed.logs.freshLog entry = none →
          Logs.contains (decode entry.data) keyword = false) x.started x.during := by
    refine logging.along_mono (fun s e t h => ⟨h.1, fun entry hnone => ?_⟩) x.undamaged
    simpa [Logs.matched, h.2] using hnone
  have hstarted : LogWorld.Recorded x.subscribed.logs.freshLog x.rx.chan x.rx.next
      (fun entry => Logs.contains (decode entry.data) keyword = false) x.started :=
    LogWorld.recorded_started x.run_before x.register x.free x.start
  obtain ⟨checked, htaken, -, hchecked⟩ := (hstarted.runFrom x.run_during halong).1.written
  have hstops : x.Stops ↔ Logs.contains (decode x.entry.data) keyword = true := by
    rw [Stops, Logs.matched, x.watched]
    simp [Option.filter]
  rw [x.received, LogTask.pending, x.writing] at htaken
  rw [hstops]
  generalize x.entry = entry at htaken ⊢
  rw [htaken, logStop, List.findIdx?_append, List.findIdx?_eq_none_iff.mpr hchecked]
  simp [List.findIdx?_cons]

end KeywordWatch

/-- When the two detectors agree. A log task stops at the entry that the search through the
entries finds. That is the first entry after which the bytes received contain the keyword,
which is where the filter reports its first hit, exactly when the entry that completes the
keyword shows it itself and no earlier entry forges it. -/
theorem logStop_eq_iff (rx : Receiver) (keyword : String) (hne : keyword ≠ "")
    (entries : List RxEntry) :
    (∀ x : KeywordWatch keyword entries,
      x.Stops ↔ logStop keyword entries = some (entries.length - 1)) ∧
    ((logStop keyword entries = firstCompletion keyword entries ∧
      logStop keyword entries = firstHit rx keyword entries) ↔
    ∀ i entry, entries[i]? = some entry → (∀ j < i, ¬ Completed keyword entries j) →
      (Completed keyword entries i → Holds keyword entry ∨ Forged keyword entry) ∧
      (Forged keyword entry → Completed keyword entries i)) := by
  refine ⟨KeywordWatch.stops_iff, ?_⟩
  rw [firstHit_eq rx hne, and_self, logStop_eq_firstCompletion_iff]

/-- A port is opened, and `start_log` has subscribed to it. -/
def keywordGiven : List LogEvent :=
  logCall 0 (.openPort (logArgs "P" [])) 1 ++
    logCall 1 (.startLog (logArgs "P" [("stopKeyword", .string "AB")])) 1

/-- Each entry has a half of the keyword. -/
def keywordCut : List LogEvent :=
  [.createFile 0 true, .deliver 0 ⟨"t", [65]⟩, .recv 0, .write 0 true, .deliver 0 ⟨"t", [66]⟩,
    .recv 0]

private theorem keywordCut_undamaged {w : LogWorld}
    (hrun : logging.run (keywordGiven ++ [.advance 1 logEnv]) = some w) :
    logging.Along (fun s e _ => LogWorld.Undamaged 0 s e ∧ s.logs.stopKeyword 0 = some "AB") w
      keywordCut := by
  have hall : ((logging.run (keywordGiven ++ [.advance 1 logEnv])).all fun w =>
      decide (logging.Along (fun s e _ => LogWorld.Undamaged 0 s e ∧
        s.logs.stopKeyword 0 = some "AB") w keywordCut)) = true := by decide +kernel
  rw [hrun] at hall
  exact of_decide_eq_true hall

/-- A log task can be about to check the second half of a keyword. -/
theorem exists_cutWatch : Nonempty (KeywordWatch "AB" [⟨"t", [65]⟩, ⟨"t", [66]⟩]) :=
  ⟨{
    before := keywordGiven
    starter := 1
    env := logEnv
    port := "P"
    rx := ⟨0, 0⟩
    args := logArgs "P" [("stopKeyword", .string "AB")]
    subscribed := _
    started := _
    during := keywordCut
    checking := _
    entry := ⟨"t", [66]⟩
    run_before := rfl
    register := rfl
    free := rfl
    start := rfl
    run_during := rfl
    undamaged := keywordCut_undamaged rfl
    watched := rfl
    writing := rfl
    received := rfl }⟩

/-- A keyword that comes whole in its entry is found by both, and one that is cut
by the filter only. -/
theorem logStop_eq_iff_cut :
    (logStop "AB" [⟨"t", [65]⟩, ⟨"t", [66, 65, 66]⟩] =
        firstCompletion "AB" [⟨"t", [65]⟩, ⟨"t", [66, 65, 66]⟩] ∧
      logStop "AB" [⟨"t", [65]⟩, ⟨"t", [66, 65, 66]⟩] =
        firstHit ⟨0, 0⟩ "AB" [⟨"t", [65]⟩, ⟨"t", [66, 65, 66]⟩]) ∧
    (∃ x : KeywordWatch "AB" [⟨"t", [65]⟩, ⟨"t", [66]⟩], ¬ x.Stops) ∧
    ¬ (logStop "AB" [⟨"t", [65]⟩, ⟨"t", [66]⟩] =
        firstCompletion "AB" [⟨"t", [65]⟩, ⟨"t", [66]⟩] ∧
      logStop "AB" [⟨"t", [65]⟩, ⟨"t", [66]⟩] =
        firstHit ⟨0, 0⟩ "AB" [⟨"t", [65]⟩, ⟨"t", [66]⟩]) := by
  refine ⟨?_, ?_, fun h => ?_⟩
  · apply (logStop_eq_iff ⟨0, 0⟩ "AB" (by decide) _).2.mpr
    intro i entry hi hbefore
    match i, hi with
    | 0, hi =>
        obtain rfl := Option.some.inj hi
        exact ⟨fun h => absurd h (by decide), fun h => absurd h.1 (by decide +kernel)⟩
    | 1, hi =>
        obtain rfl := Option.some.inj hi
        exact ⟨fun _ => Or.inl (by decide), fun _ => by decide⟩
  · obtain ⟨x⟩ := exists_cutWatch
    refine ⟨x, ?_⟩
    rw [(logStop_eq_iff ⟨0, 0⟩ "AB" (by decide) _).1 x]
    decide +kernel
  · have hall := (logStop_eq_iff ⟨0, 0⟩ "AB" (by decide) _).2.mp h 1 ⟨"t", [66]⟩ rfl (by decide)
    obtain hholds | hforged := hall.1 (by decide)
    · exact absurd hholds (by decide)
    · exact absurd hforged.1 (by decide +kernel)

/-- A keyword that two entries cut is never seen by the log task. -/
theorem logStop_not_always_eq :
    ¬ ∀ (rx : Receiver) (keyword : String) (entries : List RxEntry), keyword ≠ "" →
      logStop keyword entries = firstCompletion keyword entries ∧
      logStop keyword entries = firstHit rx keyword entries := by
  intro hagree
  have hcut : logStop "AB" [⟨"t", [65]⟩, ⟨"t", [66]⟩] = none ∧
      firstCompletion "AB" [⟨"t", [65]⟩, ⟨"t", [66]⟩] = some 1 := by
    decide +kernel
  have heq := (hagree ⟨0, 0⟩ "AB" [⟨"t", [65]⟩, ⟨"t", [66]⟩] (by decide)).1
  rw [hcut.1, hcut.2] at heq
  exact absurd heq (by decide)

end Commmon

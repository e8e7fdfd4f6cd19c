/-
# Runs of one filter

A filter lives from the command that adds it: it scans the entries it receives,
and `add_filter_rx` may replace its keywords by a longer list in between. The
run keeps a log of every reported match with its offset in the stream of bytes
received so far.

The invariant watches one position of the keyword list. A keyword that joined
when `s` bytes had been consumed, at which time carry began at offset `w`, is
owed `windowed w s`: every occurrence that carry could still show it and that
was not over yet. Carry is always a suffix of the stream, and it reaches back
either to `w` or far enough for the keyword; both facts survive any chunk and
any extension of the list, so the two offsets of a keyword never change.
-/

import Commmon.Filter
import Commmon.Lib.StepSystem

set_option autoImplicit false

namespace Commmon

open PatternSearch

/-- What happens to a filter: an entry is received, or the keyword list is
replaced. -/
inductive FilterEvent
  | chunk (entry : RxEntry)
  | setKeywords (keywords : List String)

/-- A reported match with the position of its keyword in the list and its offset
in the stream. -/
structure LocatedHit where
  idx : ℕ
  offset : ℕ
  hit : FilterHit

structure FilterRun where
  st : FilterState
  consumed : ℕ
  log : List LocatedHit

/-- Place the hits of one scan: carry and entry begin at offset `base`. -/
def locate (base : ℕ) (hits : List (List FilterHit)) : List LocatedHit :=
  hits.zipIdx.flatMap fun p => p.1.map fun h => ⟨p.2, base + h.abs, h⟩

/-- A filter as `filter_rx` adds it. -/
def FilterState.new (rx : Receiver) (keywords : List String) : FilterState := ⟨rx, keywords, []⟩

def FilterState.setKeywords (st : FilterState) (keywords : List String) : FilterState :=
  { st with keywords := keywords }

def FilterRun.step (r : FilterRun) : FilterEvent → Option FilterRun
  | .chunk entry =>
      (r.st.scan entry).map fun p =>
        { st := p.2
          consumed := r.consumed + entry.data.length
          log := r.log ++ locate (r.consumed - r.st.carry.length) p.1 }
  | .setKeywords keywords => some { r with st := r.st.setKeywords keywords }

/-- The runs of a filter that was added with these keywords. -/
def filterSystem (rx : Receiver) (keywords : List String) :
    StepSystem FilterRun FilterEvent where
  init := ⟨.new rx keywords, 0, []⟩
  step := FilterRun.step

/-- The offsets reported for the keyword at one position, in the order of the
notifications. -/
def offsetsAt (i : ℕ) (log : List LocatedHit) : List ℕ :=
  (log.filter (·.idx = i)).map (·.offset)

/-- The bytes that a list of events delivers. -/
def delivered : List FilterEvent → List UInt8
  | [] => []
  | .chunk entry :: es => entry.data ++ delivered es
  | .setKeywords _ :: es => delivered es

@[simp]
theorem delivered_append (es fs : List FilterEvent) :
    delivered (es ++ fs) = delivered es ++ delivered fs := by
  induction es with
  | nil => rfl
  | cons e es ih => cases e <;> simp [delivered, ih]

private theorem delivered_map_chunk (entries : List RxEntry) :
    delivered (entries.map .chunk) = entries.flatMap (·.data) := by
  induction entries with
  | nil => rfl
  | cons e entries ih => simp [delivered, ih]

@[simp]
theorem offsetsAt_append (i : ℕ) (log more : List LocatedHit) :
    offsetsAt i (log ++ more) = offsetsAt i log ++ offsetsAt i more := by
  simp [offsetsAt]

private theorem offsetsAt_map_self (i base : ℕ) (hits : List FilterHit) :
    offsetsAt i (hits.map fun h => ⟨i, base + h.abs, h⟩) = hits.map fun h => base + h.abs := by
  have hall : (hits.map fun h => (⟨i, base + h.abs, h⟩ : LocatedHit)).filter (·.idx = i) =
      hits.map fun h => ⟨i, base + h.abs, h⟩ := by
    rw [List.filter_eq_self]
    simp
  rw [offsetsAt, hall, List.map_map]
  rfl

private theorem offsetsAt_map_of_ne {i k : ℕ} (hne : k ≠ i) (base : ℕ) (hits : List FilterHit) :
    offsetsAt i (hits.map fun h => ⟨k, base + h.abs, h⟩) = [] := by
  simp [offsetsAt, hne]

/-- The hits of one scan for the keyword at a position are the ones it found. -/
theorem offsetsAt_locate (i base : ℕ) (hits : List (List FilterHit)) :
    offsetsAt i (locate base hits) = ((hits[i]?).getD []).map fun h => base + h.abs := by
  have hgen : ∀ k, offsetsAt i ((hits.zipIdx k).flatMap fun p =>
      p.1.map fun h => ⟨p.2, base + h.abs, h⟩) =
        if k ≤ i then ((hits[i - k]?).getD []).map fun h => base + h.abs else [] := by
    induction hits with
    | nil => simp [offsetsAt]
    | cons hs rest ih =>
        intro k
        rw [List.zipIdx_cons, List.flatMap_cons, offsetsAt_append, ih (k + 1)]
        rcases Nat.lt_trichotomy k i with hlt | rfl | hgt
        · have hsub : i - k = (i - (k + 1)) + 1 := by omega
          rw [offsetsAt_map_of_ne (Nat.ne_of_lt hlt), hsub]
          have hle : k + 1 ≤ i := hlt
          simp [hle, hlt.le]
        · rw [offsetsAt_map_self]
          simp
        · rw [offsetsAt_map_of_ne (Nat.ne_of_gt hgt)]
          have hle : ¬ k ≤ i := by omega
          have hle' : ¬ k + 1 ≤ i := by omega
          simp [hle, hle']
  simpa [locate] using hgen 0

/-- A placed hit comes from the hits at its position. -/
theorem mem_locate {base : ℕ} {hits : List (List FilterHit)} {h : LocatedHit}
    (hmem : h ∈ locate base hits) : ∃ hs, hits[h.idx]? = some hs ∧ h.hit ∈ hs := by
  simp only [locate, List.mem_flatMap, List.mem_map] at hmem
  obtain ⟨⟨hs, i⟩, hp, hit, hhit, rfl⟩ := hmem
  exact ⟨hs, List.mk_mem_zipIdx_iff_getElem?.mp hp, hhit⟩

/-- What a run looks like after one more entry. -/
def FilterRun.afterChunk (r : FilterRun) (entry : RxEntry) : FilterRun where
  st := { r.st with carry := r.st.nextCarry entry.data }
  consumed := r.consumed + entry.data.length
  log := r.log ++ locate (r.consumed - r.st.carry.length)
    (r.st.keywords.map fun kw => (hitOffsets kw r.st.carry entry.data).map
      (hitAt (r.st.carry ++ entry.data) entry.timestamp kw))

@[simp]
theorem FilterRun.step_chunk (r : FilterRun) (entry : RxEntry) :
    r.step (.chunk entry) = some (r.afterChunk entry) := by
  simp [FilterRun.step, FilterState.scan_eq, FilterRun.afterChunk]

@[simp]
theorem FilterRun.step_setKeywords (r : FilterRun) (keywords : List String) :
    r.step (.setKeywords keywords) =
      some { r with st := r.st.setKeywords keywords } := rfl

/-- A filter takes every event, so a run never gets stuck. -/
theorem exists_runFrom (rx : Receiver) (keywords : List String) (es : List FilterEvent) :
    ∀ r : FilterRun, ∃ r', (filterSystem rx keywords).runFrom r es = some r' := by
  induction es with
  | nil => exact fun r => ⟨r, rfl⟩
  | cons e es ih =>
      intro r
      have hstep : ∃ m, r.step e = some m := by cases e <;> simp
      obtain ⟨m, hm⟩ := hstep
      obtain ⟨r', hr'⟩ := ih m
      exact ⟨r', StepSystem.runFrom_cons_eq_some _ |>.mpr ⟨m, hm, hr'⟩⟩

/-- Carry is what the stream ends with, and every logged hit is for the keyword at
its position of the list. -/
structure StreamInv (text : List UInt8) (r : FilterRun) : Prop where
  consumed : r.consumed = text.length
  carry_le : r.st.carry.length ≤ text.length
  carry : r.st.carry = text.drop (text.length - r.st.carry.length)
  named : ∀ h ∈ r.log, r.st.keywords[h.idx]? = some h.hit.keyword

theorem StreamInv.idx_lt {text : List UInt8} {r : FilterRun} (h : StreamInv text r)
    {hit : LocatedHit} (hmem : hit ∈ r.log) : hit.idx < r.st.keywords.length :=
  (List.getElem?_eq_some_iff.mp (h.named hit hmem)).1

/-- A keyword stays at its position when the list is extended. -/
theorem getElem?_of_prefix {keywords longer : List String} (hext : keywords <+: longer) {i : ℕ}
    {kw : String} (hi : keywords[i]? = some kw) : longer[i]? = some kw := by
  have hlt := (List.getElem?_eq_some_iff.mp hi).1
  rw [← hi, List.getElem?_eq_getElem hlt]
  exact List.prefix_iff_getElem?.mp hext i hlt

/-- The offset in the stream at which carry begins. -/
def FilterRun.carryStart (r : FilterRun) : ℕ := r.consumed - r.st.carry.length

theorem streamInv_init (rx : Receiver) (keywords : List String) :
    StreamInv [] (filterSystem rx keywords).init := by
  constructor <;> simp [filterSystem, FilterState.new]

theorem StreamInv.afterChunk {text : List UInt8} {r : FilterRun} (h : StreamInv text r)
    (entry : RxEntry) : StreamInv (text ++ entry.data) (r.afterChunk entry) := by
  have hle := h.carry_le
  have hlen := r.st.length_nextCarry entry.data
  refine ⟨?_, ?_, ?_, ?_⟩
  · simp [FilterRun.afterChunk, h.consumed]
  · simp only [FilterRun.afterChunk, hlen, List.length_append]
    omega
  · have hhay : r.st.carry ++ entry.data =
        (text ++ entry.data).drop (text.length - r.st.carry.length) := by
      rw [List.drop_append_of_le_length (Nat.sub_le _ _), ← h.carry]
    show r.st.nextCarry entry.data = _
    rw [FilterRun.afterChunk]
    simp only [hlen]
    rw [FilterState.nextCarry, hhay, List.drop_drop]
    congr 1
    simp only [List.length_drop, List.length_append]
    omega
  · intro hit hhit
    simp only [FilterRun.afterChunk, List.mem_append] at hhit ⊢
    rcases hhit with hold | hnew
    · exact h.named hit hold
    · obtain ⟨hs, hat, hmem⟩ := mem_locate hnew
      rw [List.getElem?_map, Option.map_eq_some_iff] at hat
      obtain ⟨kw, hkw, rfl⟩ := hat
      obtain ⟨o, -, ho⟩ := List.mem_map.mp hmem
      rw [hkw, ← ho]
      rfl

theorem StreamInv.setKeywords {text : List UInt8} {r : FilterRun} (h : StreamInv text r)
    {keywords : List String} (hext : r.st.keywords <+: keywords) :
    StreamInv text { r with st := r.st.setKeywords keywords } where
  consumed := h.consumed
  carry_le := h.carry_le
  carry := h.carry
  named := fun hit hhit => getElem?_of_prefix hext (h.named hit hhit)

/-- The keyword at position `i` joined when `s` bytes had been consumed and
carry began at `w`, and has been reported exactly where it is owed. -/
structure WatchInv (i : ℕ) (kw : String) (w s : ℕ) (text : List UInt8) (r : FilterRun) :
    Prop where
  stream : StreamInv text r
  present : r.st.keywords[i]? = some kw
  joined : s ≤ text.length
  begins : w ≤ r.carryStart
  reaches : r.carryStart ≤ max w (text.length + 1 - (asBytes kw).length)
  reported : offsetsAt i r.log = windowed (asBytes kw) w s text

/-- A keyword that has just joined is owed nothing yet. -/
theorem WatchInv.of_new {text : List UInt8} {r : FilterRun} {i : ℕ} {kw : String}
    (hstream : StreamInv text r) (hpresent : r.st.keywords[i]? = some kw) (hkw : kw ≠ "")
    (hnew : ∀ h ∈ r.log, h.idx ≠ i) :
    WatchInv i kw r.carryStart text.length text r where
  stream := hstream
  present := hpresent
  joined := le_rfl
  begins := le_rfl
  reaches := le_max_left _ _
  reported := by
    rw [windowed_length_eq_nil (asBytes_ne_nil hkw), offsetsAt]
    simpa using hnew

/-- One entry. The keyword gets exactly the occurrences that the entry
completes. -/
theorem WatchInv.afterChunk {i : ℕ} {kw : String} {w s : ℕ} {text : List UInt8}
    {r : FilterRun} (hkw : kw ≠ "") (h : WatchInv i kw w s text r) (entry : RxEntry) :
    WatchInv i kw w s (text ++ entry.data) (r.afterChunk entry) := by
  have hne := asBytes_ne_nil hkw
  have hstream := h.stream
  have hcarry : r.st.carry = text.drop r.carryStart := by
    rw [FilterRun.carryStart, hstream.consumed]
    exact hstream.carry
  have hstart : r.carryStart + r.st.carry.length = text.length := by
    rw [FilterRun.carryStart, hstream.consumed]
    exact Nat.sub_add_cancel hstream.carry_le
  have hnext := r.st.length_nextCarry entry.data
  have hmax := r.st.length_le_maxCarry (List.mem_of_getElem? h.present)
  have hbegins := h.begins
  have hreaches := h.reaches
  have hstart' : (r.afterChunk entry).carryStart =
      text.length + entry.data.length -
        min r.st.maxCarry (r.st.carry.length + entry.data.length) := by
    simp only [FilterRun.carryStart, FilterRun.afterChunk, hnext, hstream.consumed]
  refine ⟨hstream.afterChunk entry, h.present, ?_, ?_, ?_, ?_⟩
  · rw [List.length_append]
    exact Nat.le_add_right_of_le h.joined
  · rw [hstart']
    omega
  · rw [hstart', List.length_append]
    omega
  · have hhits : offsetsAt i (r.afterChunk entry).log = offsetsAt i r.log ++
        (scanned (asBytes kw) r.st.carry entry.data).map (r.carryStart + ·) := by
      simp only [FilterRun.afterChunk, offsetsAt_append, offsetsAt_locate, List.getElem?_map,
        h.present, Option.map_some, Option.getD_some, List.map_map, hitOffsets, hne, if_false]
      rfl
    rw [hhits, h.reported, hcarry,
      windowed_append hne h.joined (by omega) hbegins hreaches]

theorem WatchInv.setKeywords {i : ℕ} {kw : String} {w s : ℕ} {text : List UInt8}
    {r : FilterRun} (h : WatchInv i kw w s text r) {keywords : List String}
    (hext : r.st.keywords <+: keywords) :
    WatchInv i kw w s text { r with st := r.st.setKeywords keywords } where
  stream := h.stream.setKeywords hext
  present := getElem?_of_prefix hext h.present
  joined := h.joined
  begins := h.begins
  reaches := h.reaches
  reported := h.reported

/-- Every new list extends the one before it, and holds no empty keyword. -/
def Extending : List String → List FilterEvent → Prop
  | _, [] => True
  | keywords, .chunk _ :: es => Extending keywords es
  | keywords, .setKeywords keywords' :: es =>
      keywords <+: keywords' ∧ (∀ kw ∈ keywords', kw ≠ "") ∧ Extending keywords' es

/-- The keyword list that a list of events leaves. -/
def keywordsAfter : List String → List FilterEvent → List String
  | keywords, [] => keywords
  | keywords, .chunk _ :: es => keywordsAfter keywords es
  | _, .setKeywords keywords' :: es => keywordsAfter keywords' es

private theorem extending_append {keywords : List String} {es fs : List FilterEvent} :
    Extending keywords (es ++ fs) ↔
      Extending keywords es ∧ Extending (keywordsAfter keywords es) fs := by
  induction es generalizing keywords with
  | nil => simp [Extending, keywordsAfter]
  | cons e es ih => cases e <;> simp [Extending, keywordsAfter, ih, and_assoc]

/-- A run that extends a list also extends every beginning of it. -/
theorem Extending.of_prefix {first keywords : List String} (hpre : first <+: keywords) :
    ∀ {es : List FilterEvent}, Extending keywords es → Extending first es := by
  intro es
  induction es with
  | nil => exact fun _ => trivial
  | cons e es ih =>
      intro h
      cases e with
      | chunk entry => exact ih h
      | setKeywords longer => exact ⟨hpre.trans h.1, h.2⟩

/-- The run rule. What a chunk and an extension of the list preserve holds along every
run that extends the list. -/
theorem runFrom_extending {P : List UInt8 → FilterRun → Prop} {rx : Receiver}
    {base : List String}
    (chunk : ∀ text r entry, P text r → P (text ++ entry.data) (r.afterChunk entry))
    (setKeywords : ∀ text r keywords, P text r → r.st.keywords <+: keywords →
      (∀ kw ∈ keywords, kw ≠ "") → P text { r with st := r.st.setKeywords keywords }) :
    ∀ {es : List FilterEvent} {text : List UInt8} {r r' : FilterRun},
      P text r → Extending r.st.keywords es → (filterSystem rx base).runFrom r es = some r' →
      P (text ++ delivered es) r' := by
  intro es
  induction es with
  | nil =>
      intro text r r' h _ hrun
      obtain rfl := Option.some.inj hrun
      simpa [delivered] using h
  | cons e es ih =>
      intro text r r' h hext hrun
      obtain ⟨m, hstep, hrest⟩ := (filterSystem rx base).runFrom_cons_eq_some.mp hrun
      cases e with
      | chunk entry =>
          obtain rfl : r.afterChunk entry = m := Option.some.inj ((r.step_chunk entry) ▸ hstep)
          have hnext := ih (chunk text r entry h) hext hrest
          simpa [delivered] using hnext
      | setKeywords keywords =>
          obtain rfl := Option.some.inj hstep
          exact ih (setKeywords text r keywords h hext.1 hext.2.1) hext.2.2 hrest

/-- A keyword keeps its two offsets. Whatever chunks and extensions follow. -/
theorem WatchInv.runFrom {rx : Receiver} {base : List String} {i : ℕ} {kw : String}
    {w s : ℕ} (hkw : kw ≠ "") {es : List FilterEvent} {text : List UInt8} {r r' : FilterRun}
    (h : WatchInv i kw w s text r) (hext : Extending r.st.keywords es)
    (hrun : (filterSystem rx base).runFrom r es = some r') :
    WatchInv i kw w s (text ++ delivered es) r' :=
  runFrom_extending (fun _ _ entry h => h.afterChunk hkw entry)
    (fun _ _ _ h hpre _ => h.setKeywords hpre) h hext hrun

/-- The list is the last one that has been set. -/
theorem keywords_of_runFrom {rx : Receiver} {base : List String} {es : List FilterEvent} :
    ∀ {r r' : FilterRun}, (filterSystem rx base).runFrom r es = some r' →
      r'.st.keywords = keywordsAfter r.st.keywords es := by
  induction es with
  | nil =>
      intro r r' hrun
      obtain rfl := Option.some.inj hrun
      rfl
  | cons e es ih =>
      intro r r' hrun
      obtain ⟨m, hstep, hrest⟩ := (filterSystem rx base).runFrom_cons_eq_some.mp hrun
      cases e with
      | chunk entry =>
          obtain rfl : r.afterChunk entry = m := Option.some.inj ((r.step_chunk entry) ▸ hstep)
          exact (ih hrest :)
      | setKeywords keywords =>
          obtain rfl := Option.some.inj hstep
          exact (ih hrest :)

/-- The stream facts hold along every run. -/
theorem StreamInv.runFrom {rx : Receiver} {base : List String} {es : List FilterEvent}
    {text : List UInt8} {r r' : FilterRun} (h : StreamInv text r)
    (hext : Extending r.st.keywords es) (hrun : (filterSystem rx base).runFrom r es = some r') :
    StreamInv (text ++ delivered es) r' :=
  runFrom_extending (fun _ _ entry h => h.afterChunk entry)
    (fun _ _ _ h hpre _ => h.setKeywords hpre) h hext hrun

/-- Every keyword of the list is watched. -/
def Watched (text : List UInt8) (r : FilterRun) : Prop :=
  ∀ i kw, r.st.keywords[i]? = some kw → kw ≠ "" ∧ ∃ w s, WatchInv i kw w s text r

/-- A position beyond the old list has no hit yet, so its keyword joins now. -/
theorem WatchInv.of_extension {text : List UInt8} {r : FilterRun} (hstream : StreamInv text r)
    {keywords : List String} (hext : r.st.keywords <+: keywords) {i : ℕ} {kw : String}
    (hge : r.st.keywords.length ≤ i) (hkw : keywords[i]? = some kw) (hne : kw ≠ "") :
    WatchInv i kw r.carryStart text.length text
      { r with st := r.st.setKeywords keywords } := by
  refine .of_new (hstream.setKeywords hext) hkw hne fun h hmem => ?_
  exact Nat.ne_of_lt (Nat.lt_of_lt_of_le (hstream.idx_lt hmem) hge)

theorem Watched.afterChunk {text : List UInt8} {r : FilterRun} (h : Watched text r)
    (entry : RxEntry) : Watched (text ++ entry.data) (r.afterChunk entry) := by
  intro i kw hi
  obtain ⟨hkw, w, s, hw⟩ := h i kw hi
  exact ⟨hkw, w, s, hw.afterChunk hkw entry⟩

theorem Watched.setKeywords {text : List UInt8} {r : FilterRun} (h : Watched text r)
    (hstream : StreamInv text r) {keywords : List String} (hpre : r.st.keywords <+: keywords)
    (hne : ∀ kw ∈ keywords, kw ≠ "") :
    Watched text { r with st := r.st.setKeywords keywords } := by
  intro i kw hi
  have hkw : kw ≠ "" := hne kw (List.mem_of_getElem? hi)
  by_cases hlt : i < r.st.keywords.length
  · have hold : r.st.keywords[i]? = some kw := by
      rw [← hi, List.getElem?_eq_getElem hlt]
      exact (List.prefix_iff_getElem?.mp hpre i hlt).symm
    obtain ⟨-, w, s, hw⟩ := h i kw hold
    exact ⟨hkw, w, s, hw.setKeywords hpre⟩
  · exact ⟨hkw, r.carryStart, text.length,
      .of_extension hstream hpre (Nat.le_of_not_lt hlt) hi hkw⟩

theorem Watched.runFrom {rx : Receiver} {base : List String} {es : List FilterEvent}
    {text : List UInt8} {r r' : FilterRun} (hstream : StreamInv text r) (h : Watched text r)
    (hext : Extending r.st.keywords es) (hrun : (filterSystem rx base).runFrom r es = some r') :
    Watched (text ++ delivered es) r' := by
  have hboth : StreamInv (text ++ delivered es) r' ∧ Watched (text ++ delivered es) r' :=
    runFrom_extending (P := fun text r => StreamInv text r ∧ Watched text r)
      (fun _ _ entry h => ⟨h.1.afterChunk entry, h.2.afterChunk entry⟩)
      (fun _ _ _ h hpre hne => ⟨h.1.setKeywords hpre, h.2.setKeywords h.1 hpre hne⟩)
      ⟨hstream, h⟩ hext hrun
  exact hboth.2

/-- From the start on, every keyword is owed everything. -/
theorem WatchInv.init (rx : Receiver) {keywords : List String} {i : ℕ} {kw : String}
    (hi : keywords[i]? = some kw) (hkw : kw ≠ "") :
    WatchInv i kw 0 0 [] (filterSystem rx keywords).init :=
  .of_new (streamInv_init rx keywords) hi hkw (by simp [filterSystem])

private theorem watched_init (rx : Receiver) {keywords : List String}
    (hne : ∀ kw ∈ keywords, kw ≠ "") : Watched [] (filterSystem rx keywords).init := by
  intro i kw hi
  have hkw := hne kw (List.mem_of_getElem? hi)
  exact ⟨hkw, 0, 0, .init rx hi hkw⟩

private theorem extending_map_chunk (keywords : List String) (entries : List RxEntry) :
    Extending keywords (entries.map .chunk) := by
  induction entries with
  | nil => trivial
  | cons e entries ih => exact ih

/-- What a run without keyword changes has reported for a keyword. -/
theorem offsetsAt_of_run {rx : Receiver} {keywords : List String} {entries : List RxEntry}
    {r : FilterRun} {i : ℕ} {kw : String}
    (hrun : (filterSystem rx keywords).run (entries.map .chunk) = some r)
    (hi : keywords[i]? = some kw) (hkw : kw ≠ "") :
    offsetsAt i r.log = occurrences (asBytes kw) (entries.flatMap (·.data)) := by
  have hwatch := (WatchInv.init rx hi hkw).runFrom hkw (extending_map_chunk _ entries) hrun
  rw [hwatch.reported, windowed_zero (asBytes_ne_nil hkw), List.nil_append,
    delivered_map_chunk]

/-- Streaming equals batch search. However the stream is cut into entries,
the offsets reported for the keyword at each position are all offsets of its
bytes in the stream, in increasing order, each one once. -/
theorem streaming_eq_batch (rx : Receiver) (keywords : List String)
    (hne : ∀ kw ∈ keywords, kw ≠ "") (entries : List RxEntry) :
    ∃ r, (filterSystem rx keywords).run (entries.map .chunk) = some r ∧
      ∀ i kw, keywords[i]? = some kw →
        offsetsAt i r.log = occurrences (asBytes kw) (entries.flatMap (·.data)) := by
  obtain ⟨r, hrun⟩ := exists_runFrom rx keywords (entries.map .chunk)
    (filterSystem rx keywords).init
  exact ⟨r, hrun, fun i kw hi => offsetsAt_of_run hrun hi (hne kw (List.mem_of_getElem? hi))⟩

/-- The keyword `AA` is found twice in `AAA`, cut into single bytes. -/
theorem streaming_eq_batch_overlapping :
    ∃ r, (filterSystem ⟨0, 0⟩ ["AA", "A"]).run
        ((List.replicate 3 (⟨"t", [65]⟩ : RxEntry)).map .chunk) = some r ∧
      offsetsAt 0 r.log = [0, 1] ∧ offsetsAt 1 r.log = [0, 1, 2] := by
  obtain ⟨r, hrun, hoffsets⟩ := streaming_eq_batch ⟨0, 0⟩ ["AA", "A"] (by decide)
    (List.replicate 3 ⟨"t", [65]⟩)
  exact ⟨r, hrun, (hoffsets 0 "AA" rfl).trans (by decide), (hoffsets 1 "A" rfl).trans (by decide)⟩

/-- Adding keywords disturbs nothing. A keyword that was already there is
reported as if the list had not been extended. A keyword that joins after `s`
bytes is reported once for every occurrence that starts at `s` or later, and
never for one that ends at or before `s`. -/
theorem setKeywords_undisturbed (rx : Receiver) (keywords : List String)
    (hne : ∀ kw ∈ keywords, kw ≠ "") (before after : List FilterEvent)
    (longer : List String)
    (hext : Extending keywords (before ++ .setKeywords longer :: after)) :
    ∃ r₁ r r', (filterSystem rx keywords).run before = some r₁ ∧
      (filterSystem rx keywords).run (before ++ .setKeywords longer :: after) = some r ∧
      (filterSystem rx keywords).run (before ++ after) = some r' ∧
      (∀ i, i < r₁.st.keywords.length → offsetsAt i r.log = offsetsAt i r'.log) ∧
      ∀ i kw, r₁.st.keywords.length ≤ i → longer[i]? = some kw → ∀ o,
        (OccursAt (asBytes kw) (delivered (before ++ after)) o → r₁.consumed ≤ o →
          (offsetsAt i r.log).count o = 1) ∧
        (o + (asBytes kw).length ≤ r₁.consumed → o ∉ offsetsAt i r.log) := by
  obtain ⟨hbefore, hmiddle⟩ := extending_append.mp hext
  obtain ⟨r₁, hrun₁⟩ := exists_runFrom rx keywords before (filterSystem rx keywords).init
  have hstream := (streamInv_init rx keywords).runFrom hbefore hrun₁
  have hkeywords : r₁.st.keywords = keywordsAfter keywords before := keywords_of_runFrom hrun₁
  have hwatched := (watched_init rx hne).runFrom (streamInv_init rx keywords) hbefore hrun₁
  rw [List.nil_append] at hstream hwatched
  have hpre : r₁.st.keywords <+: longer := hkeywords ▸ hmiddle.1
  obtain ⟨r, hrun⟩ := exists_runFrom rx keywords after
    { r₁ with st := r₁.st.setKeywords longer }
  obtain ⟨r', hrun'⟩ := exists_runFrom rx keywords after r₁
  refine ⟨r₁, r, r', hrun₁, ?_, ?_, fun i hi => ?_, fun i kw hi hkw o => ?_⟩
  · rw [StepSystem.run_append_eq_some]
    exact ⟨r₁, hrun₁, StepSystem.runFrom_cons_eq_some _ |>.mpr ⟨_, rfl, hrun⟩⟩
  · rw [StepSystem.run_append_eq_some]
    exact ⟨r₁, hrun₁, hrun'⟩
  · -- both runs watch the keyword with the offsets it joined with
    obtain ⟨kw, hkw⟩ : ∃ kw, r₁.st.keywords[i]? = some kw :=
      ⟨_, List.getElem?_eq_getElem hi⟩
    obtain ⟨hnonempty, w, s, hwatch⟩ := hwatched i kw hkw
    have hwith := (hwatch.setKeywords hpre).runFrom hnonempty hmiddle.2.2 hrun
    have hwithout := hwatch.runFrom hnonempty (Extending.of_prefix hpre hmiddle.2.2) hrun'
    rw [hwith.reported, hwithout.reported]
  · have hnonempty : kw ≠ "" := hmiddle.2.1 kw (List.mem_of_getElem? hkw)
    have hbytes := asBytes_ne_nil hnonempty
    have hpos : 0 < (asBytes kw).length := List.length_pos_iff.mpr hbytes
    have hwatch := (WatchInv.of_extension hstream hpre hi hkw hnonempty).runFrom hnonempty
      hmiddle.2.2 hrun
    have hstart : r₁.carryStart ≤ r₁.consumed := Nat.sub_le _ _
    rw [hwatch.reported, ← delivered_append, hstream.consumed]
    rw [hstream.consumed] at hstart
    constructor
    · intro hocc ho
      apply List.count_eq_one_of_mem
      · exact (pairwise_windowed _ _ _ _).imp Nat.ne_of_lt
      · exact (mem_windowed hbytes).mpr ⟨hocc, by omega, by omega⟩
    · intro hend hmem
      have hlt := ((mem_windowed hbytes).mp hmem).2.2
      omega

/-- `B` joins after one byte of `ABAB`: its first occurrence, at offset 1, is the
one that starts when it joins. -/
theorem setKeywords_undisturbed_joined :
    ∃ r₁ r r', (filterSystem ⟨0, 0⟩ ["AB"]).run [.chunk ⟨"t", [65]⟩] = some r₁ ∧
      (filterSystem ⟨0, 0⟩ ["AB"]).run ([.chunk ⟨"t", [65]⟩] ++
        .setKeywords ["AB", "B"] :: [.chunk ⟨"t", [66, 65, 66]⟩]) = some r ∧
      (filterSystem ⟨0, 0⟩ ["AB"]).run
        ([.chunk ⟨"t", [65]⟩] ++ [.chunk ⟨"t", [66, 65, 66]⟩]) = some r' ∧
      (∀ i, i < r₁.st.keywords.length → offsetsAt i r.log = offsetsAt i r'.log) ∧
      ∀ i kw, r₁.st.keywords.length ≤ i → ["AB", "B"][i]? = some kw → ∀ o,
        (OccursAt (asBytes kw) (delivered ([.chunk ⟨"t", [65]⟩] ++
          [.chunk ⟨"t", [66, 65, 66]⟩])) o → r₁.consumed ≤ o →
          (offsetsAt i r.log).count o = 1) ∧
        (o + (asBytes kw).length ≤ r₁.consumed → o ∉ offsetsAt i r.log) :=
  setKeywords_undisturbed ⟨0, 0⟩ ["AB"] (by decide) [.chunk ⟨"t", [65]⟩]
    [.chunk ⟨"t", [66, 65, 66]⟩] ["AB", "B"] ⟨⟨["B"], rfl⟩, by decide, trivial⟩

end Commmon

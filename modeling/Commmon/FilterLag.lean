/-
# A filter whose receiver falls behind

A port's channel holds 256 entries. When more than that arrive between two
polls, the receiver is told that it lagged and continues with the oldest entry
held, and the entries in between are lost. The filter keeps its carry over such
a gap, so the bytes before it and the bytes after it are scanned as if they were
neighbours.

A run keeps, with every byte the filter has received, its offset in the stream
that the port received, and with every keyword the two offsets it joined with.
Which hits are genuine is then decided without looking at the filter: they all
are if and only if no occurrence that is owed lies across a gap.
-/

import Commmon.FilterRun
import Commmon.Serial

set_option autoImplicit false

namespace Commmon

open PatternSearch Broadcast

/-- What happens between a port and one filter. -/
inductive LossyEvent
  | arrive (entry : RxEntry)
  | poll
  | setKeywords (keywords : List String)

structure LossyRun where
  chan : Channel RxEntry
  run : FilterRun
  /-- The bytes received by the filter, with their offsets in the port's stream. -/
  received : List (UInt8 × ℕ)
  /-- For each keyword, where carry began and what was consumed when it joined. -/
  joined : List (ℕ × ℕ)

/-- The stream that the port has received. -/
def streamOf (chan : Channel RxEntry) : List UInt8 := chan.sent.flatMap (·.data)

/-- The offset in the stream of the entry at a position. -/
def offsetOf (chan : Channel RxEntry) (pos : ℕ) : ℕ :=
  ((chan.sent.take pos).flatMap (·.data)).length

/-- Move the filter's receiver. -/
def FilterRun.seek (r : FilterRun) (next : ℕ) : FilterRun :=
  { r with st := { r.st with rx := { r.st.rx with next := next } } }

namespace LossyRun

/-- One poll of the filter loop: scan an entry, or note that entries were lost,
with carry as it is. -/
def poll (l : LossyRun) : Option LossyRun :=
  match l.chan.tryRecv l.run.st.rx.next with
  | (.ok pos entry, next) =>
      ((l.run.seek next).step (.chunk entry)).map fun run =>
        { l with
          run := run
          received := l.received ++ entry.data.zipIdx (offsetOf l.chan pos) }
  | (.lagged _, next) => some { l with run := l.run.seek next }
  | (.empty, _) => some l
  | (.closed, _) => some l

/-- New keywords come from `add_filter_rx`, which extends the list. -/
def step (l : LossyRun) : LossyEvent → Option LossyRun
  | .arrive entry =>
      if 0 < entry.data.length ∧ entry.data.length ≤ readBufferSize then
        some { l with chan := l.chan.send entry }
      else none
  | .poll => l.poll
  | .setKeywords keywords =>
      if l.run.st.keywords <+: keywords ∧ ∀ kw ∈ keywords, kw ≠ "" then
        some { l with
          run := { l.run with st := l.run.st.setKeywords keywords }
          joined := l.joined ++ List.replicate (keywords.length - l.run.st.keywords.length)
            (l.run.carryStart, l.run.consumed) }
      else none

/-- The text that the filter has received. -/
def text (l : LossyRun) : List UInt8 := l.received.map Prod.fst

/-- Where a received byte stands in the port's stream. -/
def source? (l : LossyRun) (g : ℕ) : Option ℕ := (l.received[g]?).map Prod.snd

/-- A hit is genuine if the bytes it was found in are neighbours in the stream
that the port received, and spell the keyword there. -/
def Genuine (l : LossyRun) (h : LocatedHit) : Prop :=
  ∃ a, ∀ j, j < (asBytes h.hit.keyword).length →
    l.source? (h.offset + j) = some (a + j) ∧
      (streamOf l.chan)[a + j]? = (asBytes h.hit.keyword)[j]?

/-- The bytes received at `g - 1` and `g` are not neighbours in the stream. -/
def LostBefore (l : LossyRun) (g : ℕ) : Prop :=
  ∃ a b, l.source? (g - 1) = some a ∧ l.source? g = some b ∧ b ≠ a + 1

/-- Between offset `o` and `n` bytes later, something was lost. -/
def AcrossGap (l : LossyRun) (o n : ℕ) : Prop := ∃ g, o < g ∧ g < o + n ∧ l.LostBefore g

/-- An occurrence that a keyword is owed lies across a gap. -/
def OwedAcrossGap (l : LossyRun) : Prop :=
  ∃ (i : ℕ) (kw : String) (w s o : ℕ),
    l.run.st.keywords[i]? = some kw ∧ l.joined[i]? = some (w, s) ∧
      OccursAt (asBytes kw) l.text o ∧ w ≤ o ∧ s < o + (asBytes kw).length ∧
      l.AcrossGap o (asBytes kw).length

end LossyRun

/-- The runs of a filter added when a port had received `prior`. -/
def lossySystem (k : ChannelId) (prior : List RxEntry) (keywords : List String) :
    StepSystem LossyRun LossyEvent where
  init :=
    { chan := ⟨broadcastCapacity, prior, 1⟩
      run := ⟨.new ⟨k, prior.length⟩ keywords, 0, []⟩
      received := []
      joined := keywords.map fun _ => (0, 0) }
  step := LossyRun.step

/-- Every keyword is watched with the offsets it joined with, and every received
byte stands in the stream where it is said to. -/
structure LossyInv (l : LossyRun) : Prop where
  stream : StreamInv l.text l.run
  joined_length : l.joined.length = l.run.st.keywords.length
  watched : ∀ i kw, l.run.st.keywords[i]? = some kw → kw ≠ "" ∧
    ∀ w s, l.joined[i]? = some (w, s) → WatchInv i kw w s l.text l.run
  located : ∀ b a, (b, a) ∈ l.received → (streamOf l.chan)[a]? = some b

private theorem StreamInv.seek {text : List UInt8} {r : FilterRun} (h : StreamInv text r)
    (next : ℕ) : StreamInv text (r.seek next) :=
  ⟨h.consumed, h.carry_le, h.carry, h.named⟩

private theorem WatchInv.seek {i : ℕ} {kw : String} {w s : ℕ} {text : List UInt8} {r : FilterRun}
    (h : WatchInv i kw w s text r) (next : ℕ) : WatchInv i kw w s text (r.seek next) :=
  ⟨h.stream.seek next, h.present, h.joined, h.begins, h.reaches, h.reported⟩

private theorem lossyInv_init (k : ChannelId) (prior : List RxEntry) {keywords : List String}
    (hne : ∀ kw ∈ keywords, kw ≠ "") : LossyInv (lossySystem k prior keywords).init where
  stream := streamInv_init _ keywords
  joined_length := by simp [lossySystem, FilterState.new]
  watched := by
    intro i kw hi
    have hkw := hne kw (List.mem_of_getElem? hi)
    refine ⟨hkw, fun w s hws => ?_⟩
    have hzero : (w, s) = (0, 0) := by
      simp only [lossySystem, List.getElem?_map, Option.map_eq_some_iff] at hws
      obtain ⟨-, -, h⟩ := hws
      exact h.symm
    obtain ⟨rfl, rfl⟩ := Prod.mk.inj hzero
    exact .init _ hi hkw
  located := by simp [lossySystem]

/-- The bytes of the entry at a position stand in the stream from its offset on. -/
theorem getElem?_streamOf {chan : Channel RxEntry} {pos j : ℕ} {entry : RxEntry} {b : UInt8}
    (hpos : chan.sent[pos]? = some entry) (hb : entry.data[j]? = some b) :
    (streamOf chan)[offsetOf chan pos + j]? = some b := by
  obtain ⟨hlt, rfl⟩ := List.getElem?_eq_some_iff.mp hpos
  have hsplit : chan.sent =
      chan.sent.take pos ++ chan.sent[pos] :: chan.sent.drop (pos + 1) := by
    rw [← List.drop_eq_getElem_cons hlt, List.take_append_drop]
  have hstream : streamOf chan = (chan.sent.take pos).flatMap (·.data) ++
      (chan.sent[pos].data ++ (chan.sent.drop (pos + 1)).flatMap (·.data)) := by
    rw [streamOf]
    conv_lhs => rw [hsplit]
    rw [List.flatMap_append, List.flatMap_cons]
  rw [hstream, offsetOf, List.getElem?_append_right (Nat.le_add_right _ _),
    Nat.add_sub_cancel_left, List.getElem?_append_left (List.getElem?_eq_some_iff.mp hb).1, hb]

private theorem getElem?_streamOf_send {chan : Channel RxEntry} {entry : RxEntry} {a : ℕ}
    {b : UInt8} (h : (streamOf chan)[a]? = some b) : (streamOf (chan.send entry))[a]? = some b := by
  have happend : streamOf (chan.send entry) = streamOf chan ++ entry.data := by
    simp [streamOf]
  rw [happend, List.getElem?_append_left (List.getElem?_eq_some_iff.mp h).1, h]

theorem LossyInv.arrive {l : LossyRun} (h : LossyInv l) (entry : RxEntry) :
    LossyInv { l with chan := l.chan.send entry } :=
  ⟨h.stream, h.joined_length, h.watched,
    fun b a hmem => getElem?_streamOf_send (h.located b a hmem)⟩

private theorem LossyInv.seek {l : LossyRun} (h : LossyInv l) (next : ℕ) :
    LossyInv { l with run := l.run.seek next } :=
  ⟨h.stream.seek next, h.joined_length,
    fun i kw hi => (h.watched i kw hi).imp_right fun hw w s hws => (hw w s hws).seek next,
    h.located⟩

theorem LossyInv.chunk {l : LossyRun} (h : LossyInv l) {pos : ℕ} {entry : RxEntry}
    (hpos : l.chan.sent[pos]? = some entry) :
    LossyInv { l with
      run := l.run.afterChunk entry
      received := l.received ++ entry.data.zipIdx (offsetOf l.chan pos) } := by
  have htext : (l.received ++ entry.data.zipIdx (offsetOf l.chan pos)).map Prod.fst =
      l.text ++ entry.data := by
    simp [LossyRun.text, List.zipIdx_map_fst]
  refine ⟨?_, h.joined_length, fun i kw hi => ?_, fun b a hmem => ?_⟩
  · rw [LossyRun.text, htext]
    exact h.stream.afterChunk entry
  · obtain ⟨hkw, hwatch⟩ := h.watched i kw hi
    refine ⟨hkw, fun w s hws => ?_⟩
    rw [LossyRun.text, htext]
    exact (hwatch w s hws).afterChunk hkw entry
  · rcases List.mem_append.mp hmem with hold | hnew
    · exact h.located b a hold
    · obtain ⟨hle, hb⟩ := List.mk_mem_zipIdx_iff_le_and_getElem?_sub.mp hnew
      have hat := getElem?_streamOf hpos hb
      rwa [Nat.add_sub_cancel' hle] at hat

theorem LossyInv.setKeywords {l : LossyRun} (h : LossyInv l) {keywords : List String}
    (hext : l.run.st.keywords <+: keywords) (hne : ∀ kw ∈ keywords, kw ≠ "") :
    LossyInv { l with
      run := { l.run with st := l.run.st.setKeywords keywords }
      joined := l.joined ++ List.replicate (keywords.length - l.run.st.keywords.length)
        (l.run.carryStart, l.run.consumed) } := by
  refine ⟨h.stream.setKeywords hext, ?_, fun i kw hi => ?_, h.located⟩
  · have hle := hext.length_le
    simp only [List.length_append, List.length_replicate, h.joined_length,
      FilterState.setKeywords]
    omega
  · have hkw := hne kw (List.mem_of_getElem? hi)
    refine ⟨hkw, fun w s hws => ?_⟩
    by_cases hlt : i < l.run.st.keywords.length
    · have hold : l.run.st.keywords[i]? = some kw := by
        rw [← hi]
        exact (List.getElem?_eq_getElem hlt).trans
          (List.prefix_iff_getElem?.mp hext i hlt).symm
      rw [List.getElem?_append_left (by rwa [h.joined_length])] at hws
      exact ((h.watched i kw hold).2 w s hws).setKeywords hext
    · have hge := Nat.le_of_not_lt hlt
      rw [List.getElem?_append_right (by rwa [h.joined_length])] at hws
      have hmem := List.mem_of_getElem? hws
      obtain ⟨rfl, rfl⟩ := Prod.mk.inj (List.eq_of_mem_replicate hmem)
      rw [h.stream.consumed]
      exact .of_extension h.stream hext hge hi hkw

/-- One step keeps the invariant. -/
theorem LossyInv.step {l l' : LossyRun} {e : LossyEvent} (h : LossyInv l)
    (hstep : l.step e = some l') : LossyInv l' := by
  cases e with
  | arrive entry =>
      simp only [LossyRun.step] at hstep
      split_ifs at hstep
      obtain rfl := Option.some.inj hstep
      exact h.arrive entry
  | poll =>
      simp only [LossyRun.step, LossyRun.poll] at hstep
      obtain ⟨entry, hget, -, -, hrecv⟩ | ⟨-, hrecv⟩ | ⟨-, -, hrecv⟩ | ⟨-, -, hrecv⟩ :=
        l.chan.tryRecv_cases l.run.st.rx.next <;> simp only [hrecv] at hstep
      · simp only [FilterRun.step_chunk, Option.map_some, Option.some.injEq] at hstep
        subst hstep
        have hmoved := h.seek (l.run.st.rx.next + 1)
        exact hmoved.chunk hget
      · obtain rfl := Option.some.inj hstep
        exact h.seek _
      · obtain rfl := Option.some.inj hstep
        exact h
      · obtain rfl := Option.some.inj hstep
        exact h
  | setKeywords keywords =>
      simp only [LossyRun.step] at hstep
      split_ifs at hstep with hguard
      obtain rfl := Option.some.inj hstep
      exact h.setKeywords hguard.1 hguard.2

private theorem lossyInv_run {k : ChannelId} {prior : List RxEntry} {keywords : List String}
    (hne : ∀ kw ∈ keywords, kw ≠ "") {es : List LossyEvent} {l : LossyRun}
    (hrun : (lossySystem k prior keywords).run es = some l) : LossyInv l :=
  (lossySystem k prior keywords).run_invariant (lossyInv_init k prior hne)
    (fun _ _ _ h hstep => h.step hstep) hrun

/-- The hits at a position of the list are exactly what its keyword is owed. -/
theorem LossyInv.exists_hit_iff {l : LossyRun} (h : LossyInv l) {i : ℕ} {kw : String}
    (hi : l.run.st.keywords[i]? = some kw) {w s : ℕ} (hws : l.joined[i]? = some (w, s)) (o : ℕ) :
    (∃ hit ∈ l.run.log, hit.idx = i ∧ hit.offset = o) ↔
      OccursAt (asBytes kw) l.text o ∧ w ≤ o ∧ s < o + (asBytes kw).length := by
  obtain ⟨hkw, hwatch⟩ := h.watched i kw hi
  rw [← mem_windowed (asBytes_ne_nil hkw), ← (hwatch w s hws).reported]
  simp [offsetsAt, and_assoc]

/-- An occurrence that does not lie across a gap is a piece of the stream. -/
theorem LossyInv.genuine_of_not_acrossGap {l : LossyRun} (h : LossyInv l) {hit : LocatedHit}
    (hne : asBytes hit.hit.keyword ≠ [])
    (hocc : OccursAt (asBytes hit.hit.keyword) l.text hit.offset)
    (hgap : ¬ l.AcrossGap hit.offset (asBytes hit.hit.keyword).length) : l.Genuine hit := by
  have hend := hocc.add_length_le hne
  have hlen : l.text.length = l.received.length := by simp [LossyRun.text]
  have hreceived : ∀ j, j < (asBytes hit.hit.keyword).length →
      ∃ p, l.received[hit.offset + j]? = some p := fun j hj =>
    ⟨_, List.getElem?_eq_getElem (by omega)⟩
  have hpos : 0 < (asBytes hit.hit.keyword).length := List.length_pos_iff.mpr hne
  obtain ⟨p, hp⟩ := hreceived 0 hpos
  have hsource : ∀ j, j < (asBytes hit.hit.keyword).length →
      l.source? (hit.offset + j) = some (p.2 + j) := by
    intro j
    induction j with
    | zero =>
        intro _
        rw [LossyRun.source?, hp, Option.map_some, Nat.add_zero]
    | succ j ih =>
        intro hj
        obtain ⟨q, hq⟩ := hreceived (j + 1) hj
        have hprev := ih (by omega)
        have hnext : l.source? (hit.offset + (j + 1)) = some q.2 := by
          rw [LossyRun.source?, hq, Option.map_some]
        by_contra hne'
        refine hgap ⟨hit.offset + (j + 1), by omega, by omega, p.2 + j, q.2, hprev, hnext, ?_⟩
        rintro heq
        exact hne' (hnext.trans (congrArg some heq))
  refine ⟨p.2, fun j hj => ⟨hsource j hj, ?_⟩⟩
  obtain ⟨q, hq⟩ := hreceived j hj
  have hq2 : q.2 = p.2 + j := by
    have hat := hsource j hj
    rw [LossyRun.source?, hq, Option.map_some] at hat
    exact Option.some.inj hat
  have hq1 : l.text[hit.offset + j]? = some q.1 := by
    rw [LossyRun.text, List.getElem?_map, hq, Option.map_some]
  rw [← hocc.getElem? hj, hq1, ← hq2]
  exact h.located q.1 q.2 (List.mem_of_getElem? hq)

/-- When every hit is genuine. The filter reports only bytes that are
contiguous in the port's stream if and only if no occurrence in the bytes it
received, among those a keyword is owed, lies across a gap. -/
theorem hits_genuine_iff (k : ChannelId) (prior : List RxEntry) (keywords : List String)
    (hne : ∀ kw ∈ keywords, kw ≠ "") (es : List LossyEvent) (l : LossyRun)
    (hrun : (lossySystem k prior keywords).run es = some l) :
    (∀ h ∈ l.run.log, l.Genuine h) ↔ ¬ l.OwedAcrossGap := by
  have hinv := lossyInv_run hne hrun
  constructor
  · rintro hall ⟨i, kw, w, s, o, hi, hws, hocc, hw, hs, g, hog, hgo, a, b, ha, hb, hneq⟩
    obtain ⟨hit, hmem, rfl, rfl⟩ := (hinv.exists_hit_iff hi hws o).mpr ⟨hocc, hw, hs⟩
    obtain rfl : kw = hit.hit.keyword :=
      Option.some.inj (hi.symm.trans (hinv.stream.named hit hmem))
    obtain ⟨c, hc⟩ := hall hit hmem
    have hbefore := (hc (g - 1 - hit.offset) (by omega)).1
    have hat := (hc (g - hit.offset) (by omega)).1
    rw [show hit.offset + (g - 1 - hit.offset) = g - 1 by omega, ha] at hbefore
    rw [show hit.offset + (g - hit.offset) = g by omega, hb] at hat
    have ha' := Option.some.inj hbefore
    have hb' := Option.some.inj hat
    omega
  · intro hnone hit hmem
    have hnamed := hinv.stream.named hit hmem
    have hlt : hit.idx < l.joined.length := by
      rw [hinv.joined_length]
      exact hinv.stream.idx_lt hmem
    have hjoined : l.joined[hit.idx]? = some (l.joined[hit.idx].1, l.joined[hit.idx].2) :=
      List.getElem?_eq_getElem hlt
    obtain ⟨hocc, hw, hs⟩ :=
      (hinv.exists_hit_iff hnamed hjoined hit.offset).mp ⟨hit, hmem, rfl, rfl⟩
    apply hinv.genuine_of_not_acrossGap (asBytes_ne_nil (hinv.watched _ _ hnamed).1) hocc
    exact fun hgap => hnone ⟨_, _, _, _, _, hnamed, hjoined, hocc, hw, hs, hgap⟩

/-- `A` is scanned, `x` is lost, and `B` is the oldest entry the channel still
holds. -/
def lostByte : List LossyEvent :=
  [.arrive ⟨"t", [65]⟩, .poll, .arrive ⟨"t", [120]⟩, .arrive ⟨"t", [66]⟩] ++
    List.replicate 255 (.arrive ⟨"t", [121]⟩) ++ [.poll, .poll]

/-- Whether the run reports `AB` at offset 0, and where the two bytes come from. -/
def reportsAcross (l : LossyRun) : Bool :=
  l.run.log.any (fun h => h.hit.keyword == "AB" && h.offset == 0) &&
    l.source? 0 == some 0 && l.source? 1 == some 2

private theorem lostByte_reportsAcross :
    ((lossySystem 0 [] ["AB"]).run lostByte).any reportsAcross = true := by
  decide +kernel

/-- The port received `AxByy…`, yet `AB` is reported. -/
theorem lostByte_hit_not_genuine :
    ¬ ∀ es l, (lossySystem 0 [] ["AB"]).run es = some l →
      ∀ h ∈ l.run.log, l.Genuine h := by
  intro hgenuine
  obtain ⟨l, hl, hreports⟩ := (Option.any_eq_true _ _).mp lostByte_reportsAcross
  simp only [reportsAcross, Bool.and_eq_true, List.any_eq_true, beq_iff_eq] at hreports
  obtain ⟨⟨⟨h, hmem, hkw, ho⟩, h0⟩, h1⟩ := hreports
  obtain ⟨a, ha⟩ := hgenuine lostByte l hl h hmem
  rw [hkw, ho] at ha
  have hfirst := (ha 0 (by decide)).1.symm.trans h0
  have hsecond := (ha 1 (by decide)).1.symm.trans h1
  simp only [Option.some.injEq] at hfirst hsecond
  omega

/-- The theorem at the run that loses the byte between `A` and `B`. -/
theorem hits_genuine_iff_lostByte :
    ∃ l, (lossySystem 0 [] ["AB"]).run lostByte = some l ∧
      ((∀ h ∈ l.run.log, l.Genuine h) ↔ ¬ l.OwedAcrossGap) := by
  obtain ⟨l, hl, -⟩ := (Option.any_eq_true _ _).mp lostByte_reportsAcross
  exact ⟨l, hl, hits_genuine_iff 0 [] ["AB"] (by decide) lostByte l hl⟩

end Commmon

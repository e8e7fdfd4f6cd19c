/-
# The lists that a client has been given

The log of a client is the list of responses that dispatch has returned. Over a
whole run, with any arrivals, lags, evictions and closes in between, the lists
read from one port are ascending, a later list extends an earlier one unless a
clearing read or the client's own close lies between, and what a clearing read
has shown, or anything before it, is never shown again.

The invariant relates three positions. What has been shown lies before the
receiver's next position on the receiver's channel; what is buffered lies before
it too, in order; and what was shown up to a clear is not buffered any more.
-/

import Commmon.Reading

set_option autoImplicit false

namespace Commmon

open Broadcast

/-- The receiver and the buffer of a port: everything buffered was read by this
receiver, in order. -/
structure Ordered (m : SerialManager) (rx : Option Receiver) (b : List Arrival) : Prop where
  receiver : ∀ r, rx = some r → r.chan < m.fresh ∧ r.next ≤ (m.channels r.chan).tail
  buffered : ∀ a ∈ b, ∃ r, rx = some r ∧ a.chan = r.chan ∧ a.pos < r.next
  ascending : b.Pairwise fun a a' => a.chan = a'.chan ∧ a.pos < a'.pos
  length_le : ∀ r, rx = some r → b.length ≤ r.next

namespace Ordered

variable {m m' : SerialManager} {rx rx' : Option Receiver} {b b' : List Arrival}

theorem empty (hrx : ∀ r, rx = some r → r.chan < m.fresh ∧ r.next ≤ (m.channels r.chan).tail) :
    Ordered m rx [] :=
  ⟨hrx, by simp, List.Pairwise.nil, by simp⟩

theorem later (h : Ordered m rx b) (hlater : SerialManager.Later m m') : Ordered m' rx b := by
  refine ⟨fun r hr => ?_, h.buffered, h.ascending, h.length_le⟩
  obtain ⟨hlt, hle⟩ := h.receiver r hr
  exact ⟨Nat.lt_of_lt_of_le hlt hlater.fresh_le, hle.trans (hlater.tail_le hlt)⟩

private theorem skip {r : Receiver} {next : ℕ} (h : Ordered m (some r) b)
    (hstops : Stops m r next) : Ordered m (some { r with next := next }) b := by
  obtain ⟨hlt, hle⟩ := h.receiver r rfl
  refine ⟨fun r' hr' => ?_, fun a ha => ?_, h.ascending, fun r' hr' => ?_⟩
  · obtain rfl := Option.some.inj hr'
    exact ⟨hlt, hstops.le_tail hle⟩
  · obtain ⟨r', hr', hchan, hpos⟩ := h.buffered a ha
    obtain rfl := Option.some.inj hr'
    exact ⟨_, rfl, hchan, hpos.trans_le hstops.le⟩
  · obtain rfl := Option.some.inj hr'
    exact (h.length_le r rfl).trans hstops.le

theorem fetches {p : String} (h : Ordered m rx b) (hfetches : Fetches m p rx b rx' b') :
    Ordered m rx' b' := by
  cases hfetches with
  | same => exact h
  | attached op b hop =>
      apply empty
      intro r hr
      obtain rfl := Option.some.inj hr
      exact ⟨m.tx_lt _ op hop, le_rfl⟩
  | stored r b entry hentry =>
      obtain ⟨hlt, -⟩ := h.receiver r rfl
      have hnext : r.next < (m.channels r.chan).tail := (List.getElem?_eq_some_iff.mp hentry).1
      have hold : ∀ a ∈ b, a.chan = r.chan ∧ a.pos < r.next := by
        intro a ha
        obtain ⟨r', hr', hchan, hpos⟩ := h.buffered a ha
        obtain rfl := Option.some.inj hr'
        exact ⟨hchan, hpos⟩
      refine ⟨fun r' hr' => ?_, fun a ha => ?_, ?_, fun r' hr' => ?_⟩
      · obtain rfl := Option.some.inj hr'
        exact ⟨hlt, hnext⟩
      · rcases Window.mem_of_mem_push ha with ha | rfl
        · exact ⟨_, rfl, (hold a ha).1, Nat.lt_succ_of_lt (hold a ha).2⟩
        · exact ⟨_, rfl, rfl, Nat.lt_succ_self _⟩
      · apply List.Pairwise.sublist (Window.push_suffix _ b _).sublist
        rw [List.pairwise_append]
        refine ⟨h.ascending, List.pairwise_singleton _ _, fun a ha a' ha' => ?_⟩
        obtain rfl := List.mem_singleton.mp ha'
        exact hold a ha
      · obtain rfl := Option.some.inj hr'
        have hlen := (Window.push_suffix maxBufferEntries b ⟨r.chan, r.next, entry⟩).length_le
        simp only [List.length_append, List.length_singleton] at hlen
        exact hlen.trans (Nat.succ_le_succ (h.length_le r rfl))

theorem portStep {p : String} {cl cl' : Client}
    (h : Ordered m (cl.session.receivers.lookup p) (cl.session.buffer p))
    (hstep : cl.PortStep m p cl') :
    Ordered m (cl'.session.receivers.lookup p) (cl'.session.buffer p) := by
  cases hstep with
  | kept rs hfetches hreturns hother => exact h.fetches hfetches
  | forgot r hpc hcloses hreturns hrx hbuffer =>
      rw [hrx, hbuffer]
      exact empty (by simp)
  | read r rx next hrx hstops hrx' hread hbuffer hreturns =>
      rw [hrx] at h
      have hskip := h.skip hstops
      rw [hrx', hbuffer]
      split_ifs
      · exact empty hskip.receiver
      · exact hskip

end Ordered

/-- In every reachable world, what a session has buffered of a port is in order. -/
theorem ordered_of_run {es : List Event} {w : World} (hrun : daemon.run es = some w)
    (c : ClientId) (p : String) : ∀ cl, w.clients c = some cl →
      Ordered w.serial (cl.session.receivers.lookup p) (cl.session.buffer p) := by
  intro cl hclient
  refine client_history (P := fun _ w cl =>
    Ordered w.serial (cl.session.receivers.lookup p) (cl.session.buffer p)) ?_ ?_ ?_ ?_ hrun hclient
  · intro es w
    exact Ordered.empty (by simp [Client.new, ClientSession.new])
  · intro es w w' cl _ _
    exact Ordered.empty (by simp [Client.disconnect, ClientSession.new])
  · intro es w w' cl cl' ce hes _ hclient _ _ hsteps ih
    have hfits : ∀ req pc, cl.dispatch = some (req, pc) → pc.Fits req :=
      fun req pc hpc => fits_of_run hes hclient hpc
    exact (ih.portStep (hsteps.portStep hfits p)).later hsteps.changes.later
  · intro es w w' e cl _ _ _ hchanges _ ih
    exact ih.later hchanges.later

/-- A read of `p` that clears the buffer. -/
def Clears (p : String) (r : Request × Response) : Prop :=
  (readOf p r).isSome ∧ Dispatch.clearArg r.1.args = true

/-- `L'` extends `L`, up to entries that made way for newer ones. -/
def Extends (L L' : List Arrival) : Prop := Window.Extends maxBufferEntries L L'

/-- An entry is where it was before, or among what was appended. -/
theorem split_append {α : Type} {log rs l₁ l₂ : List α} {r : α}
    (h : log ++ rs = l₁ ++ r :: l₂) :
    (∃ l, l₂ = l ++ rs ∧ log = l₁ ++ r :: l) ∨ ∃ l, l₁ = log ++ l ∧ rs = l ++ r :: l₂ := by
  rcases List.append_eq_append_iff.mp h with ⟨l, hl₁, hrs⟩ | ⟨l, hlog, hl₂⟩
  · exact Or.inr ⟨l, hl₁, hrs⟩
  · rcases l with - | ⟨x, l⟩
    · exact Or.inr ⟨[], by simp [hlog], by simpa using hl₂.symm⟩
    · obtain ⟨rfl, htail⟩ := List.cons.inj hl₂
      exact Or.inl ⟨l, htail, hlog⟩

/-- What a log says about the lists read from `p`. -/
structure LogInOrder (p : String) (log : List (Request × Response)) : Prop where
  /-- Every list is strictly increasing in arrival order. -/
  ascending : ∀ r ∈ log, ∀ L, readOf p r = some L →
    L.Pairwise fun a a' => a.chan = a'.chan ∧ a.pos < a'.pos
  /-- A later list extends an earlier one, if the buffer was not cleared and the port
  not closed in between. -/
  extending : ∀ l₁ r₁ l₂ r₂ l₃ L₁ L₂, log = l₁ ++ r₁ :: (l₂ ++ r₂ :: l₃) →
    readOf p r₁ = some L₁ → readOf p r₂ = some L₂ → ¬ Clears p r₁ →
    (∀ r ∈ l₂, ¬ Clears p r ∧ ¬ ClosesOk p r) → Extends L₁ L₂
  /-- What a clearing read shows, or was shown before it, is never shown after it. -/
  once : ∀ l₁ r₁ l₂ r₂ l₃ L₂, log = l₁ ++ r₁ :: (l₂ ++ r₂ :: l₃) → Clears p r₁ →
    readOf p r₂ = some L₂ → ∀ r ∈ l₁ ++ [r₁], ∀ L, readOf p r = some L → ∀ a ∈ L, a ∉ L₂

/-- How the log relates to the receiver and the buffer. -/
structure Tracks (p : String) (m : SerialManager) (rx : Option Receiver) (b : List Arrival)
    (log : List (Request × Response)) : Prop where
  shown : ∀ r ∈ log, ∀ L, readOf p r = some L → ∀ a ∈ L,
    a.chan < m.fresh ∧ a.pos < (m.channels a.chan).tail ∧
      ∀ x, rx = some x → a.chan = x.chan → a.pos < x.next
  cleared : ∀ l₁ r₁ l₂, log = l₁ ++ r₁ :: l₂ → Clears p r₁ → ∀ r ∈ l₁ ++ [r₁], ∀ L,
    readOf p r = some L → ∀ a ∈ L, a ∉ b
  extended : ∀ l₁ r₁ l₂ L, log = l₁ ++ r₁ :: l₂ → readOf p r₁ = some L → ¬ Clears p r₁ →
    (∀ r ∈ l₂, ¬ Clears p r ∧ ¬ ClosesOk p r) → Extends L b

section Log

variable {p : String} {m m' : SerialManager} {rx rx' : Option Receiver} {b b' : List Arrival}
  {log rs : List (Request × Response)}

private theorem mem_log_of_split {l₁ l₂ : List (Request × Response)} {r r₁ : Request × Response}
    (hlog : log = l₁ ++ r₁ :: l₂) (hr : r ∈ l₁ ++ [r₁]) : r ∈ log := by
  rw [hlog]
  rcases List.mem_append.mp hr with hr | hr
  · exact List.mem_append_left _ hr
  · exact List.mem_append_right _ (by simp [List.mem_singleton.mp hr])

/-- Nothing has been returned yet. -/
theorem LogInOrder.nil : LogInOrder p [] :=
  ⟨by simp, fun l₁ r₁ l₂ r₂ l₃ L₁ L₂ h => by simp at h,
    fun l₁ r₁ l₂ r₂ l₃ L₂ h => by simp at h⟩

/-- Responses that are no reads of `p` do not disturb the order. -/
theorem LogInOrder.append_other (h : LogInOrder p log) (hother : ∀ r ∈ rs, readOf p r = none) :
    LogInOrder p (log ++ rs) := by
  have hsplit : ∀ {l₁ r₁ l₂ r₂ l₃} {L₂ : List Arrival}, readOf p r₂ = some L₂ →
      log ++ rs = l₁ ++ r₁ :: (l₂ ++ r₂ :: l₃) → ∃ l, log = l₁ ++ r₁ :: (l₂ ++ r₂ :: l) := by
    intro l₁ r₁ l₂ r₂ l₃ L₂ hread hlog
    have hlog' : log ++ rs = (l₁ ++ r₁ :: l₂) ++ r₂ :: l₃ := by simpa using hlog
    rcases split_append hlog' with ⟨l, -, hl⟩ | ⟨l, -, hl⟩
    · exact ⟨l, by simpa using hl⟩
    · simp [hother r₂ (by simp [hl])] at hread
  refine ⟨fun r hr L hread => ?_, ?_, ?_⟩
  · rcases List.mem_append.mp hr with hr | hr
    · exact h.ascending r hr L hread
    · simp [hother r hr] at hread
  · intro l₁ r₁ l₂ r₂ l₃ L₁ L₂ hlog h₁ h₂
    obtain ⟨l, hl⟩ := hsplit h₂ hlog
    exact h.extending l₁ r₁ l₂ r₂ l L₁ L₂ hl h₁ h₂
  · intro l₁ r₁ l₂ r₂ l₃ L₂ hlog hclears h₂
    obtain ⟨l, hl⟩ := hsplit h₂ hlog
    exact h.once l₁ r₁ l₂ r₂ l L₂ hl hclears h₂

/-- A read returns the buffer, so what holds of the buffer holds of its list. -/
theorem LogInOrder.append_read (h : LogInOrder p log) (ht : Tracks p m rx b log)
    (ho : Ordered m rx b) {r : Request × Response} (hread : readOf p r = some b) :
    LogInOrder p (log ++ [r]) := by
  have hsplit : ∀ {l₁ r₁ l₂ r₂ l₃}, log ++ [r] = l₁ ++ r₁ :: (l₂ ++ r₂ :: l₃) →
      (∃ l, log = l₁ ++ r₁ :: (l₂ ++ r₂ :: l)) ∨ r₂ = r ∧ log = l₁ ++ r₁ :: l₂ := by
    intro l₁ r₁ l₂ r₂ l₃ hlog
    have hlog' : log ++ [r] = (l₁ ++ r₁ :: l₂) ++ r₂ :: l₃ := by simpa using hlog
    rcases split_append hlog' with ⟨l, -, hl⟩ | ⟨l, hl, hr⟩
    · exact Or.inl ⟨l, by simpa using hl⟩
    · rcases l with - | ⟨x, l⟩
      · exact Or.inr ⟨(List.cons.inj hr).1.symm, by simpa using hl.symm⟩
      · simp at hr
  refine ⟨fun r' hr' L hread' => ?_, ?_, ?_⟩
  · rcases List.mem_append.mp hr' with hr' | hr'
    · exact h.ascending r' hr' L hread'
    · obtain rfl := List.mem_singleton.mp hr'
      obtain rfl := Option.some.inj (hread.symm.trans hread')
      exact ho.ascending
  · intro l₁ r₁ l₂ r₂ l₃ L₁ L₂ hlog h₁ h₂ hkeeps hquiet
    rcases hsplit hlog with ⟨l, hl⟩ | ⟨rfl, hl⟩
    · exact h.extending l₁ r₁ l₂ r₂ l L₁ L₂ hl h₁ h₂ hkeeps hquiet
    · obtain rfl := Option.some.inj (hread.symm.trans h₂)
      exact ht.extended l₁ r₁ l₂ L₁ hl h₁ hkeeps hquiet
  · intro l₁ r₁ l₂ r₂ l₃ L₂ hlog hclears h₂
    rcases hsplit hlog with ⟨l, hl⟩ | ⟨rfl, hl⟩
    · exact h.once l₁ r₁ l₂ r₂ l L₂ hl hclears h₂
    · obtain rfl := Option.some.inj (hread.symm.trans h₂)
      exact ht.cleared l₁ r₁ l₂ hl hclears

namespace Tracks

/-- Nothing has been read yet. -/
theorem nil : Tracks p m rx b [] :=
  ⟨by simp, fun l₁ r₁ l₂ h => by simp at h, fun l₁ r₁ l₂ L h => by simp at h⟩

theorem later (h : Tracks p m rx b log) (hlater : SerialManager.Later m m') :
    Tracks p m' rx b log := by
  refine ⟨fun r hr L hread a ha => ?_, h.cleared, h.extended⟩
  obtain ⟨hlt, hpos, hnext⟩ := h.shown r hr L hread a ha
  exact ⟨Nat.lt_of_lt_of_le hlt hlater.fresh_le, hpos.trans_le (hlater.tail_le hlt), hnext⟩

theorem fetches (h : Tracks p m rx b log) (ho : Ordered m rx b)
    (hfetches : Fetches m p rx b rx' b') : Tracks p m rx' b' log := by
  cases hfetches with
  | same => exact h
  | attached op b hop =>
      have hnil : b = [] := by
        apply List.eq_nil_iff_forall_not_mem.mpr
        intro a ha
        obtain ⟨r, hr, -⟩ := ho.buffered a ha
        simp at hr
      subst hnil
      refine ⟨fun r hr L hread a ha => ?_, h.cleared, h.extended⟩
      obtain ⟨hlt, hpos, -⟩ := h.shown r hr L hread a ha
      refine ⟨hlt, hpos, fun x hx hchan => ?_⟩
      obtain rfl := Option.some.inj hx
      have hchan' : a.chan = op.tx := hchan
      show a.pos < (m.channels op.tx).tail
      exact hchan' ▸ hpos
  | stored x b entry hentry =>
      refine ⟨fun r hr L hread a ha => ?_, fun l₁ r₁ l₂ hlog hclears r hr L hread a ha hmem => ?_,
        fun l₁ r₁ l₂ L hlog hread hkeeps hquiet => ?_⟩
      · obtain ⟨hlt, hpos, hnext⟩ := h.shown r hr L hread a ha
        refine ⟨hlt, hpos, fun x' hx' hchan => ?_⟩
        obtain rfl := Option.some.inj hx'
        exact Nat.lt_succ_of_lt (hnext x rfl hchan)
      · rcases Window.mem_of_mem_push hmem with hmem | rfl
        · exact h.cleared l₁ r₁ l₂ hlog hclears r hr L hread a ha hmem
        · -- The stored entry is at the receiver's position, and what was shown lies before it.
          have hr' : r ∈ log := mem_log_of_split hlog hr
          exact absurd ((h.shown r hr' L hread _ ha).2.2 x rfl rfl) (Nat.lt_irrefl _)
      · exact Window.Extends.push (h.extended l₁ r₁ l₂ L hlog hread hkeeps hquiet) _

private theorem append_other (h : Tracks p m rx b log) (hother : ∀ r ∈ rs, readOf p r = none) :
    Tracks p m rx b (log ++ rs) := by
  refine ⟨fun r hr L hread => ?_, ?_, ?_⟩
  · rcases List.mem_append.mp hr with hr | hr
    · exact h.shown r hr L hread
    · simp [hother r hr] at hread
  · intro l₁ r₁ l₂ hlog hclears
    rcases split_append hlog with ⟨l, -, hl⟩ | ⟨l, -, hl⟩
    · exact h.cleared l₁ r₁ l hl hclears
    · simp [Clears, hother r₁ (by simp [hl])] at hclears
  · intro l₁ r₁ l₂ L hlog hread hkeeps hquiet
    rcases split_append hlog with ⟨l, rfl, hl⟩ | ⟨l, -, hl⟩
    · exact h.extended l₁ r₁ l L hl hread hkeeps fun r hr => hquiet r (List.mem_append_left _ hr)
    · simp [hother r₁ (by simp [hl])] at hread

private theorem skip {r : Receiver} {next : ℕ} (h : Tracks p m (some r) b log)
    (hstops : Stops m r next) : Tracks p m (some { r with next := next }) b log := by
  refine ⟨fun r' hr' L hread a ha => ?_, h.cleared, h.extended⟩
  obtain ⟨hlt, hpos, hnext⟩ := h.shown r' hr' L hread a ha
  refine ⟨hlt, hpos, fun x hx hchan => ?_⟩
  obtain rfl := Option.some.inj hx
  exact (hnext r rfl hchan).trans_le hstops.le

/-- The session has forgotten the port after closing it. -/
theorem append_closed (h : Tracks p m rx b log) {r : Request × Response}
    (hcloses : ClosesOk p r) : Tracks p m none [] (log ++ [r]) := by
  have hnone : readOf p r = none := readOf_eq_none_of_cmd (by simp [hcloses.1])
  refine ⟨fun r' hr' L hread a ha => ?_, by simp, fun l₁ r₁ l₂ L hlog hread _ hquiet => ?_⟩
  · rcases List.mem_append.mp hr' with hr' | hr'
    · obtain ⟨hlt, hpos, -⟩ := h.shown r' hr' L hread a ha
      exact ⟨hlt, hpos, by simp⟩
    · obtain rfl := List.mem_singleton.mp hr'
      simp [hnone] at hread
  · rcases split_append hlog with ⟨l, rfl, -⟩ | ⟨l, -, hl⟩
    · exact absurd hcloses (hquiet r (by simp)).2
    · rcases l with - | ⟨x, l⟩
      · obtain rfl := (List.cons.inj hl).1
        simp [hnone] at hread
      · simp at hl

/-- A read returns the buffer, and perhaps clears it. -/
theorem append_read (h : Tracks p m rx b log) (ho : Ordered m rx b)
    (hb : b.length ≤ maxBufferEntries) {r : Request × Response} (hread : readOf p r = some b) :
    Tracks p m rx (if Dispatch.clearArg r.1.args = true then [] else b) (log ++ [r]) := by
  refine ⟨fun r' hr' L hread' a ha => ?_, fun l₁ r₁ l₂ hlog hclears r' hr' L hread' a ha => ?_,
    fun l₁ r₁ l₂ L hlog hread' hkeeps hquiet => ?_⟩
  · rcases List.mem_append.mp hr' with hr' | hr'
    · exact h.shown r' hr' L hread' a ha
    · obtain rfl := List.mem_singleton.mp hr'
      obtain rfl := Option.some.inj (hread.symm.trans hread')
      obtain ⟨x, rfl, hchan, hpos⟩ := ho.buffered a ha
      obtain ⟨hlt, hle⟩ := ho.receiver x rfl
      refine ⟨hchan ▸ hlt, hchan ▸ hpos.trans_le hle, fun x' hx' _ => ?_⟩
      obtain rfl := Option.some.inj hx'
      exact hpos
  · split_ifs with hclear
    · exact List.not_mem_nil
    · rcases split_append hlog with ⟨l, -, hl⟩ | ⟨l, -, hl⟩
      · exact h.cleared l₁ r₁ l hl hclears r' hr' L hread' a ha
      · rcases l with - | ⟨x, l⟩
        · obtain rfl := (List.cons.inj hl).1
          exact absurd hclears.2 hclear
        · simp at hl
  · have hsome : (readOf p r).isSome := by rw [hread]; rfl
    rcases split_append hlog with ⟨l, rfl, hl⟩ | ⟨l, -, hl⟩
    · have hkeeps' : ¬ Dispatch.clearArg r.1.args = true :=
        fun hclear => (hquiet r (by simp)).1 ⟨hsome, hclear⟩
      rw [if_neg hkeeps']
      exact h.extended l₁ r₁ l L hl hread' hkeeps fun r' hr' =>
        hquiet r' (List.mem_append_left _ hr')
    · rcases l with - | ⟨x, l⟩
      · obtain rfl := (List.cons.inj hl).1
        obtain rfl := Option.some.inj (hread.symm.trans hread')
        rw [if_neg fun hclear => hkeeps ⟨hsome, hclear⟩]
        exact .refl hb
      · simp at hl

end Tracks

/-- What one step of a client preserves. -/
theorem Client.PortStep.tracks {cl cl' : Client} (h : cl.PortStep m p cl')
    (ho : Ordered m (cl.session.receivers.lookup p) (cl.session.buffer p))
    (hlog : LogInOrder p cl.returns)
    (ht : Tracks p m (cl.session.receivers.lookup p) (cl.session.buffer p) cl.returns) :
    LogInOrder p cl'.returns ∧
      Tracks p m (cl'.session.receivers.lookup p) (cl'.session.buffer p) cl'.returns := by
  cases h with
  | kept rs hfetches hreturns hother =>
      rw [hreturns]
      exact ⟨hlog.append_other hother, (ht.fetches ho hfetches).append_other hother⟩
  | forgot r hpc hcloses hreturns hrx hbuffer =>
      have hnone : readOf p r = none := readOf_eq_none_of_cmd (by simp [hcloses.1])
      rw [hreturns, hrx, hbuffer]
      exact ⟨hlog.append_other (by simpa using hnone), ht.append_closed hcloses⟩
  | read r rx next hrx hstops hrx' hread hbuffer hreturns =>
      rw [hrx] at ho ht
      rw [hreturns, hrx', hbuffer]
      have hb := cl.session.length_buffer_le p
      exact ⟨hlog.append_read ht ho hread,
        (ht.skip hstops).append_read (ho.skip hstops) hb hread⟩

end Log

/-- In every reachable world, the log of a client is in order, and as long as the
client is connected it fits the receiver and the buffer. -/
theorem log_of_run {es : List Event} {w : World} (hrun : daemon.run es = some w)
    (c : ClientId) (p : String) : ∀ cl, w.clients c = some cl → LogInOrder p cl.returns ∧
      (cl.connected = true → Tracks p w.serial (cl.session.receivers.lookup p)
        (cl.session.buffer p) cl.returns) := by
  intro cl hclient
  refine client_history (P := fun _ w cl => LogInOrder p cl.returns ∧ (cl.connected = true →
    Tracks p w.serial (cl.session.receivers.lookup p) (cl.session.buffer p) cl.returns))
    ?_ ?_ ?_ ?_ hrun hclient
  · intro es w
    exact ⟨LogInOrder.nil, fun _ => Tracks.nil⟩
  · intro es w w' cl hidle ih
    have hreturns : cl.disconnect.returns = cl.returns := by
      rw [Client.returns_of_idle hidle]
      exact Client.returns_of_idle rfl
    exact ⟨hreturns ▸ ih.1, fun h => by simp [Client.disconnect] at h⟩
  · intro es w w' cl cl' ce hes _ hclient _ hconnected hsteps ih
    have hfits : ∀ req pc, cl.dispatch = some (req, pc) → pc.Fits req :=
      fun req pc hpc => fits_of_run hes hclient hpc
    obtain ⟨hlog, ht⟩ := ih
    obtain ⟨hlog', ht'⟩ := (hsteps.portStep hfits p).tracks
      (ordered_of_run hes c p cl hclient) hlog (ht hconnected)
    exact ⟨hlog', fun _ => ht'.later hsteps.changes.later⟩
  · intro es w w' e cl _ _ _ hchanges _ ih
    exact ⟨ih.1, fun hconnected => (ih.2 hconnected).later hchanges.later⟩

/-- Reads are in order and nothing comes back. In every reachable world, no
buffer of a client is longer than its bound, and the lists that the client has
read from a port are in order. -/
theorem reads_in_order {es : List Event} {w : World} (hrun : daemon.run es = some w)
    {c : ClientId} {cl : Client} (hclient : w.clients c = some cl) (p : String) :
    (cl.session.buffer p).length ≤ maxBufferEntries ∧ LogInOrder p cl.returns :=
  ⟨cl.session.length_buffer_le p, (log_of_run hrun c p cl hclient).1⟩

/-- A `read_port` request that says whether to clear. -/
def readRequest (port : String) (clear : Bool) : Request :=
  ⟨"read_port", .object [("port", .string port), ("clear", .bool clear)]⟩

/-- Entries arrive before a read that keeps the buffer, one that clears it, and one
after that. -/
def readThrice : List Event :=
  [.connect 0] ++ issue 0 (portRequest "open_port" "P") 2 ++
    [.deliver 0 ⟨"t", [65]⟩] ++ issue 0 (readRequest "P" false) 4 ++
    [.deliver 0 ⟨"t", [66]⟩] ++ issue 0 (readRequest "P" true) 4 ++
    [.deliver 0 ⟨"t", [67]⟩] ++ issue 0 (readRequest "P" true) 4

private theorem readThrice_lists : (daemon.run readThrice).any (fun w => (w.clients 0).any fun cl =>
    cl.returns.filterMap (readOf "P") == [[⟨0, 0, ⟨"t", [65]⟩⟩],
      [⟨0, 0, ⟨"t", [65]⟩⟩, ⟨0, 1, ⟨"t", [66]⟩⟩], [⟨0, 2, ⟨"t", [67]⟩⟩]]) = true := by
  decide +kernel

/-- The theorem at a run with three reads. -/
theorem reads_in_order_thrice : ∃ w cl, daemon.run readThrice = some w ∧
    w.clients 0 = some cl ∧ (cl.returns.filterMap (readOf "P")).length = 3 ∧
    (cl.session.buffer "P").length ≤ maxBufferEntries ∧ LogInOrder "P" cl.returns := by
  obtain ⟨w, hw, hany⟩ := (Option.any_eq_true _ _).mp readThrice_lists
  obtain ⟨cl, hcl, hlists⟩ := (Option.any_eq_true _ _).mp hany
  rw [beq_iff_eq] at hlists
  exact ⟨w, cl, hw, hcl, by rw [hlists]; rfl, reads_in_order hw hcl "P"⟩

end Commmon

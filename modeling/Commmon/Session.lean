/-
# A client's session

Each client has its own receiver and its own buffer of at most 200 entries for
every port it reads. `read_port` first drains the receiver into the buffer, the
oldest entries giving way, and then answers with the buffer.

The drain loop stops at the first answer that is not an entry, whatever that
answer is. A receiver that fell behind answers `lagged` once before it
continues, so a drain that starts behind stores nothing.

Two facts are part of the type: no buffer is longer than its bound, and a port
has a buffer exactly when it has a receiver.
-/

import Mathlib.Data.Finset.Basic
import Commmon.Lib.Window
import Commmon.Serial

set_option autoImplicit false

namespace Commmon

open Broadcast

/-- The bound of a session's buffer. -/
def maxBufferEntries : ℕ := 200

/-- Append an entry, and let the oldest one go if the buffer is too long. -/
def pushEntry (buffer : List Arrival) (a : Arrival) : List Arrival :=
  Window.push maxBufferEntries buffer a

theorem length_pushEntry_le {buffer : List Arrival} (h : buffer.length ≤ maxBufferEntries)
    (a : Arrival) : (pushEntry buffer a).length ≤ maxBufferEntries :=
  Window.length_push_le h a

structure ClientSession where
  receivers : Table String Receiver
  buffers : Table String (List Arrival)
  rxSubscriptions : Finset String
  filterSubscriptions : Table String (List String)
  buffers_le : ∀ port b, buffers.lookup port = some b → b.length ≤ maxBufferEntries
  subscribed : ∀ port, (receivers.lookup port).isSome = (buffers.lookup port).isSome

namespace ClientSession

def new : ClientSession where
  receivers := ∅
  buffers := ∅
  rxSubscriptions := ∅
  filterSubscriptions := ∅
  buffers_le := by simp
  subscribed := by simp

/-- The buffer of a port, empty if there is none. -/
def buffer (s : ClientSession) (portName : String) : List Arrival :=
  (s.buffers.lookup portName).getD []

theorem length_buffer_le (s : ClientSession) (portName : String) :
    (s.buffer portName).length ≤ maxBufferEntries := by
  unfold buffer
  cases h : s.buffers.lookup portName with
  | none => exact Nat.zero_le _
  | some b => exact s.buffers_le portName b h

/-- Set a port's receiver and buffer. -/
def attach (s : ClientSession) (portName : String) (rx : Receiver) (b : List Arrival)
    (hb : b.length ≤ maxBufferEntries) : ClientSession :=
  { s with
    receivers := s.receivers.insert portName rx
    buffers := s.buffers.insert portName b
    buffers_le := by
      intro port b' h
      rw [Table.lookup_insert] at h
      split_ifs at h
      · exact Option.some.inj h ▸ hb
      · exact s.buffers_le port b' h
    subscribed := by
      intro port
      rw [Table.lookup_insert, Table.lookup_insert]
      split_ifs
      · rfl
      · exact s.subscribed port }

/-- One round of the drain loop: whether an entry was stored. -/
def drainOne (s : ClientSession) (m : SerialManager) (portName : String) :
    ClientSession × Bool :=
  match s.receivers.lookup portName with
  | none => (s, false)
  | some rx =>
      match m.tryRecv rx with
      | (.ok pos entry, rx') =>
          (s.attach portName rx' (pushEntry (s.buffer portName) ⟨rx.chan, pos, entry⟩)
            (length_pushEntry_le (s.length_buffer_le portName) _), true)
      | (_, rx') =>
          (s.attach portName rx' (s.buffer portName) (s.length_buffer_le portName), false)

/-- The drain loop, for at most `fuel` rounds. -/
def drainLoop (m : SerialManager) (portName : String) : ℕ → ClientSession → ClientSession
  | 0, s => s
  | fuel + 1, s =>
      match s.drainOne m portName with
      | (s', true) => drainLoop m portName fuel s'
      | (s', false) => s'

/-- How many entries of a port the session has not read. -/
def backlog (s : ClientSession) (m : SerialManager) (portName : String) : ℕ :=
  match s.receivers.lookup portName with
  | none => 0
  | some rx => (m.channels rx.chan).tail - rx.next

/-- Every round but the last takes an entry of the backlog. -/
def drainReceiver (s : ClientSession) (m : SerialManager) (portName : String) : ClientSession :=
  drainLoop m portName (s.backlog m portName + 1) s

/-- Take a receiver of the port unless there is one already. -/
def ensureSubscribed (s : ClientSession) (m : SerialManager) (portName : String) :
    ClientSession :=
  match s.receivers.lookup portName with
  | some _ => s
  | none =>
      match m.subscribe portName with
      | some rx => s.attach portName rx [] (Nat.zero_le _)
      | none => s

/-- The part of `read_port` after the drain. -/
def answerRead (s : ClientSession) (portName : String) (clear : Bool) :
    ClientSession × Response :=
  match h : s.buffers.lookup portName with
  | none => (s, .ofError s!"{portName}의 수신 버퍼가 없습니다.")
  | some b =>
      (if clear then
        { s with
          buffers := s.buffers.insert portName []
          buffers_le := by
            intro port b' hb'
            rw [Table.lookup_insert] at hb'
            split_ifs at hb'
            · exact Option.some.inj hb' ▸ Nat.zero_le _
            · exact s.buffers_le port b' hb'
          subscribed := by
            intro port
            rw [Table.lookup_insert, s.subscribed port]
            split_ifs with heq
            · rw [heq, h]
              rfl
            · rfl }
      else s, .success (.entries b))

def readPort (s : ClientSession) (m : SerialManager) (portName : String) (clear : Bool) :
    ClientSession × Response :=
  (s.drainReceiver m portName).answerRead portName clear

/-- The client has closed the port itself: forget it. -/
def onPortClosed (s : ClientSession) (portName : String) : ClientSession where
  receivers := s.receivers.erase portName
  buffers := s.buffers.erase portName
  rxSubscriptions := s.rxSubscriptions.erase portName
  filterSubscriptions := s.filterSubscriptions.erase portName
  buffers_le := by
    intro port b h
    rw [Table.lookup_erase] at h
    split_ifs at h
    exact s.buffers_le port b h
  subscribed := by
    intro port
    rw [Table.lookup_erase, Table.lookup_erase]
    split_ifs
    · rfl
    · exact s.subscribed port

@[simp]
theorem receivers_attach (s : ClientSession) (p : String) (rx : Receiver) (b : List Arrival)
    (hb : b.length ≤ maxBufferEntries) (q : String) :
    (s.attach p rx b hb).receivers.lookup q =
      if q = p then some rx else s.receivers.lookup q :=
  Table.lookup_insert _ _ _ _

@[simp]
theorem buffer_attach (s : ClientSession) (p : String) (rx : Receiver) (b : List Arrival)
    (hb : b.length ≤ maxBufferEntries) (q : String) :
    (s.attach p rx b hb).buffer q = if q = p then b else s.buffer q := by
  rw [buffer, attach, Table.lookup_insert]
  split_ifs <;> rfl

@[simp]
theorem receivers_onPortClosed (s : ClientSession) (p q : String) :
    (s.onPortClosed p).receivers.lookup q = if q = p then none else s.receivers.lookup q :=
  Table.lookup_erase _ _ _

@[simp]
theorem buffer_onPortClosed (s : ClientSession) (p q : String) :
    (s.onPortClosed p).buffer q = if q = p then [] else s.buffer q := by
  rw [buffer, onPortClosed, Table.lookup_erase]
  split_ifs <;> rfl

@[simp]
theorem rxSubscriptions_onPortClosed (s : ClientSession) (p : String) :
    (s.onPortClosed p).rxSubscriptions = s.rxSubscriptions.erase p := rfl

@[simp]
theorem filterSubscriptions_onPortClosed (s : ClientSession) (p q : String) :
    (s.onPortClosed p).filterSubscriptions.lookup q =
      if q = p then none else s.filterSubscriptions.lookup q :=
  Table.lookup_erase _ _ _

/-- A round of the drain loop stores the next entry, or stops. It touches
nothing but the port's receiver and buffer. -/
theorem drainOne_cases (s : ClientSession) (m : SerialManager) (p : String) :
    (s.receivers.lookup p = none ∧ s.drainOne m p = (s, false)) ∨
    (∃ rx entry, s.receivers.lookup p = some rx ∧
      (m.channels rx.chan).sent[rx.next]? = some entry ∧
      (m.channels rx.chan).oldest ≤ rx.next ∧
      s.drainOne m p = (s.attach p { rx with next := rx.next + 1 }
        (pushEntry (s.buffer p) ⟨rx.chan, rx.next, entry⟩)
        (length_pushEntry_le (s.length_buffer_le p) _), true)) ∨
    (∃ rx next, s.receivers.lookup p = some rx ∧ rx.next ≤ next ∧
      ((m.channels rx.chan).tail ≤ rx.next ∧ next = rx.next ∨
        rx.next < (m.channels rx.chan).oldest ∧ next = (m.channels rx.chan).oldest) ∧
      s.drainOne m p = (s.attach p { rx with next := next } (s.buffer p)
        (s.length_buffer_le p), false)) := by
  unfold drainOne
  cases hrx : s.receivers.lookup p with
  | none => exact Or.inl ⟨rfl, rfl⟩
  | some rx =>
      simp only [SerialManager.tryRecv]
      obtain ⟨entry, hget, hold, -, h⟩ | ⟨hlt, h⟩ | ⟨hle, -, h⟩ | ⟨hle, -, h⟩ :=
        (m.channels rx.chan).tryRecv_cases rx.next
      · exact Or.inr (Or.inl ⟨rx, entry, rfl, hget, hold, by simp only [h]⟩)
      · exact Or.inr (Or.inr ⟨rx, _, rfl, hlt.le, Or.inr ⟨hlt, rfl⟩, by simp only [h]⟩)
      · exact Or.inr (Or.inr ⟨rx, _, rfl, le_rfl, Or.inl ⟨hle, rfl⟩, by simp only [h]⟩)
      · exact Or.inr (Or.inr ⟨rx, _, rfl, le_rfl, Or.inl ⟨hle, rfl⟩, by simp only [h]⟩)

/-- Subscribing changes nothing, or attaches a receiver of the current channel,
at its tail, with an empty buffer. -/
theorem ensureSubscribed_cases (s : ClientSession) (m : SerialManager) (p : String) :
    ((∃ rx, s.receivers.lookup p = some rx) ∧ s.ensureSubscribed m p = s) ∨
    (s.receivers.lookup p = none ∧ m.ports.lookup p = none ∧ s.ensureSubscribed m p = s) ∨
    (s.receivers.lookup p = none ∧ ∃ op, m.ports.lookup p = some op ∧
      s.ensureSubscribed m p =
        s.attach p ⟨op.tx, (m.channels op.tx).tail⟩ [] (Nat.zero_le _)) := by
  unfold ensureSubscribed
  cases hrx : s.receivers.lookup p with
  | some rx => exact Or.inl ⟨⟨rx, rfl⟩, rfl⟩
  | none =>
      cases hsub : m.subscribe p with
      | none => exact Or.inr (Or.inl ⟨rfl, SerialManager.subscribe_eq_none.mp hsub, rfl⟩)
      | some rx =>
          obtain ⟨op, hop, rfl⟩ := SerialManager.subscribe_eq_some.mp hsub
          exact Or.inr (Or.inr ⟨rfl, op, hop, rfl⟩)

/-- Answering a read fails without a buffer. Otherwise the answer is the buffer,
and only the buffer changes, to empty if it is cleared. -/
theorem answerRead_cases (s : ClientSession) (p : String) (clear : Bool) :
    (s.receivers.lookup p = none ∧
      s.answerRead p clear = (s, .ofError s!"{p}의 수신 버퍼가 없습니다.")) ∨
    (∃ rx, s.receivers.lookup p = some rx) ∧
      (s.answerRead p clear).2 = .success (.entries (s.buffer p)) ∧
      (s.answerRead p clear).1.receivers = s.receivers ∧
      (s.answerRead p clear).1.rxSubscriptions = s.rxSubscriptions ∧
      (s.answerRead p clear).1.filterSubscriptions = s.filterSubscriptions ∧
      ∀ q, (s.answerRead p clear).1.buffer q =
        if q = p ∧ clear = true then [] else s.buffer q := by
  have hsub := s.subscribed p
  unfold answerRead
  split
  · rename_i hb
    rw [hb] at hsub
    exact Or.inl ⟨by simpa using hsub, rfl⟩
  · rename_i b hb
    rw [hb] at hsub
    have hbuf : s.buffer p = b := by simp [buffer, hb]
    refine Or.inr ⟨Option.isSome_iff_exists.mp hsub, by rw [hbuf], ?_⟩
    cases clear with
    | false => simp
    | true =>
        refine ⟨rfl, rfl, rfl, fun q => ?_⟩
        simp only [if_true, buffer, Table.lookup_insert]
        by_cases hq : q = p <;> simp [hq]

/-- Two sessions with the same registrations: they may differ in receivers and
buffers. -/
structure SameRegistrations (s s' : ClientSession) : Prop where
  rxSubscriptions : s'.rxSubscriptions = s.rxSubscriptions
  filterSubscriptions : s'.filterSubscriptions = s.filterSubscriptions

theorem ensureSubscribed_sameRegistrations (s : ClientSession) (m : SerialManager) (p : String) :
    SameRegistrations s (s.ensureSubscribed m p) := by
  obtain ⟨-, h⟩ | ⟨-, -, h⟩ | ⟨-, op, -, h⟩ := s.ensureSubscribed_cases m p <;>
    rw [h] <;> exact ⟨rfl, rfl⟩

theorem drainOne_sameRegistrations (s : ClientSession) (m : SerialManager) (p : String) :
    SameRegistrations s (s.drainOne m p).1 := by
  obtain ⟨-, h⟩ | ⟨rx, entry, -, -, -, h⟩ | ⟨rx, next, -, -, -, h⟩ := s.drainOne_cases m p <;>
    rw [h] <;> exact ⟨rfl, rfl⟩

theorem answerRead_sameRegistrations (s : ClientSession) (p : String) (clear : Bool) :
    SameRegistrations s (s.answerRead p clear).1 := by
  obtain ⟨-, h⟩ | ⟨-, -, -, hrx, hfilter, -⟩ := s.answerRead_cases p clear
  · rw [h]
    exact ⟨rfl, rfl⟩
  · exact ⟨hrx, hfilter⟩

end ClientSession

end Commmon

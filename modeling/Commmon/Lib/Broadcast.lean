/-
# A bounded broadcast channel

The channel keeps every value ever sent, in order; a value's position is its
index.  A receiver is a cursor, the position of the next value it wants.  Only
the last `capacity` positions are still held: a receiver whose cursor is older
gets one `lagged` answer, which moves its cursor to the oldest position held.
Senders are counted, and the channel is closed when none is left; values that
were sent before stay readable.
-/

import Mathlib.Data.List.Basic
import Mathlib.Data.List.Enum

set_option autoImplicit false

universe u

namespace Broadcast

/-- The shared part of a channel. -/
structure Channel (α : Type u) where
  capacity : ℕ
  sent : List α
  senders : ℕ

/-- The answers of a non-blocking receive. A received value comes with the
position it was read from. -/
inductive TryRecv (α : Type u)
  | ok (pos : ℕ) (value : α)
  | lagged (missed : ℕ)
  | empty
  | closed

namespace Channel

variable {α : Type u}

/-- A fresh channel with one sender. -/
def new (capacity : ℕ) : Channel α := ⟨capacity, [], 1⟩

def cloneSender (ch : Channel α) : Channel α := { ch with senders := ch.senders + 1 }

def dropSender (ch : Channel α) : Channel α := { ch with senders := ch.senders - 1 }

def send (ch : Channel α) (value : α) : Channel α := { ch with sent := ch.sent ++ [value] }

/-- The position the next value will get. -/
def tail (ch : Channel α) : ℕ := ch.sent.length

/-- The oldest position still held. -/
def oldest (ch : Channel α) : ℕ := ch.tail - ch.capacity

def isClosed (ch : Channel α) : Bool := ch.senders == 0

/-- A new receiver sees only what is sent from now on. -/
def subscribe (ch : Channel α) : ℕ := ch.tail

/-- One non-blocking receive at a cursor: the answer and the new cursor. -/
def tryRecv (ch : Channel α) (next : ℕ) : TryRecv α × ℕ :=
  match ch.sent[next]? with
  | some value =>
      if next < ch.oldest then (.lagged (ch.oldest - next), ch.oldest)
      else (.ok next value, next + 1)
  | none => (if ch.isClosed then .closed else .empty, next)

@[simp] theorem sent_cloneSender (ch : Channel α) : ch.cloneSender.sent = ch.sent := rfl

@[simp] theorem sent_dropSender (ch : Channel α) : ch.dropSender.sent = ch.sent := rfl

@[simp] theorem tail_dropSender (ch : Channel α) : ch.dropSender.tail = ch.tail := rfl

@[simp] theorem capacity_dropSender (ch : Channel α) :
    ch.dropSender.capacity = ch.capacity := rfl

@[simp] theorem capacity_send (ch : Channel α) (value : α) :
    (ch.send value).capacity = ch.capacity := rfl

@[simp] theorem sent_send (ch : Channel α) (value : α) :
    (ch.send value).sent = ch.sent ++ [value] := rfl

@[simp] theorem tail_send (ch : Channel α) (value : α) :
    (ch.send value).tail = ch.tail + 1 := by
  simp [tail]

/-- Everything a receive can answer, with its guard and its new cursor. -/
theorem tryRecv_cases (ch : Channel α) (next : ℕ) :
    (∃ value, ch.sent[next]? = some value ∧ ch.oldest ≤ next ∧ next < ch.tail ∧
      ch.tryRecv next = (.ok next value, next + 1)) ∨
    (next < ch.oldest ∧ ch.tryRecv next = (.lagged (ch.oldest - next), ch.oldest)) ∨
    (ch.tail ≤ next ∧ ch.isClosed = false ∧ ch.tryRecv next = (.empty, next)) ∨
    (ch.tail ≤ next ∧ ch.isClosed = true ∧ ch.tryRecv next = (.closed, next)) := by
  unfold tryRecv
  cases hget : ch.sent[next]? with
  | some value =>
      have hlt : next < ch.tail := (List.getElem?_eq_some_iff.mp hget).1
      by_cases hold : next < ch.oldest
      · simp [hold]
      · simp [hold, hlt]
        omega
  | none =>
      have hle : ch.tail ≤ next := List.getElem?_eq_none_iff.mp hget
      cases hclosed : ch.isClosed <;> simp [hle]

/-- The values from a cursor on, each with its position. -/
def unread (ch : Channel α) (next : ℕ) : List (α × ℕ) := (ch.sent.drop next).zipIdx next

/-- The values a receiver at this cursor can still get: the unread ones that the
channel holds. -/
def available (ch : Channel α) (next : ℕ) : List (α × ℕ) := ch.unread (max next ch.oldest)

theorem unread_eq_cons {ch : Channel α} {next : ℕ} (hlt : next < ch.tail) :
    ch.unread next = (ch.sent[next], next) :: ch.unread (next + 1) := by
  have hdrop : ch.sent.drop next = ch.sent[next] :: ch.sent.drop (next + 1) :=
    List.drop_eq_getElem_cons hlt
  simp [unread, hdrop, List.zipIdx_cons]

theorem unread_eq_nil {ch : Channel α} {next : ℕ} (hle : ch.tail ≤ next) :
    ch.unread next = [] := by
  simp [unread, List.drop_eq_nil_of_le hle]

@[simp]
theorem length_unread (ch : Channel α) (next : ℕ) :
    (ch.unread next).length = ch.tail - next := by
  simp [unread, tail]

/-- The last unread value is the one sent last. -/
theorem getLast?_unread {ch : Channel α} {next : ℕ} (hlt : next < ch.tail) :
    ∃ v, (ch.unread next).getLast? = some (v, ch.tail - 1) := by
  have hlast : ch.tail - 1 < ch.sent.length := by
    simp only [tail] at hlt ⊢
    omega
  have hpos : next + (ch.tail - next - 1) = ch.tail - 1 := by omega
  refine ⟨ch.sent[ch.tail - 1], ?_⟩
  rw [List.getLast?_eq_getElem?, length_unread, unread, List.getElem?_zipIdx, List.getElem?_drop,
    hpos, List.getElem?_eq_getElem hlast, Option.map_some]

end Channel

end Broadcast

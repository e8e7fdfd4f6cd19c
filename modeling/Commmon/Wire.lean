/-
# The daemon's lines

Every message of the daemon is one JSON object on one line. A response is told
from a notification by its keys alone: neither has a key of the other's.

How a floating point number is written is not decided here: `showFloat` gives
its literal. No other part of a line depends on it.
-/

import Mathlib.Data.List.DropRight
import Mathlib.Data.List.Sort
import Commmon.Lib.Json
import Commmon.Lib.LineBuffer
import Commmon.Protocol

set_option autoImplicit false

namespace Commmon

/-- A line with its terminator. -/
def lineOf (j : Json) : List Char := j.print ++ ['\n']

theorem newline_not_mem_print (j : Json) : '\n' ∉ j.print := by
  intro h
  exact absurd (Json.plain_print j '\n' h) (by decide)

/-- Leave out the spaces around a text. -/
def trim (space : Char → Bool) (cs : List Char) : List Char :=
  (cs.dropWhile space).rdropWhile space

/-- An object is bare of spaces on both sides. -/
theorem trim_print_obj {space : Char → Bool} (hopen : space '{' = false)
    (hclose : space '}' = false) (fields : List (String × Json)) :
    trim space (Json.obj fields).print = (Json.obj fields).print := by
  have hfront : (Json.obj fields).print.dropWhile space = (Json.obj fields).print := by
    rw [Json.print, List.dropWhile_cons_of_neg]
    exact Bool.not_eq_true _ ▸ hopen
  have hprint : (Json.obj fields).print =
      ('{' :: Json.printFields fields) ++ ['}'] := rfl
  rw [trim, hfront, hprint, List.rdropWhile_concat_neg _ _ _ (Bool.not_eq_true _ ▸ hclose)]

section Serialization

variable (showFloat : Rat → NumLit)

def Number.lit : Number → NumLit
  | .posInt n => .ofNat n
  | .negInt n => .ofInt n
  | .float x => showFloat x

mutual

/-- The keys of an object come in their order. -/
def Value.toJson : Value → Json
  | .null => .null
  | .bool b => .bool b
  | .number n => .num (n.lit showFloat)
  | .string s => .str s
  | .array xs => .arr (elementsToJson xs)
  | .object fields =>
      .obj ((fieldsToJson fields).insertionSort fun f g => f.1 ≤ g.1)
termination_by structural v => v

def elementsToJson : List Value → List Json
  | [] => []
  | v :: vs => v.toJson :: elementsToJson vs
termination_by structural vs => vs

def fieldsToJson : List (String × Value) → List (String × Json)
  | [] => []
  | (k, v) :: fs => (k, v.toJson) :: fieldsToJson fs
termination_by structural fs => fs

end

/-- A field that is `None` is skipped. -/
def Response.toJson (resp : Response) : Json :=
  .obj (("ok", .bool resp.ok) ::
    ((resp.data.map fun data => ("data", data.toValue.toJson showFloat)).toList ++
      (resp.error.map fun e => ("error", Json.str e)).toList))

def Notification.toJson (n : Notification) : Json :=
  .obj [("notify", .str n.notify), ("data", n.data.toJson showFloat)]

theorem Response.get_notify (resp : Response) : (resp.toJson showFloat).get "notify" = none := by
  rcases resp with ⟨ok, _ | data, _ | e⟩ <;> simp [toJson, Json.get, List.lookup_cons]

theorem Response.get_ok (resp : Response) :
    (resp.toJson showFloat).get "ok" = some (.bool resp.ok) := by
  rcases resp with ⟨ok, _ | data, _ | e⟩ <;> simp [toJson, Json.get, List.lookup_cons]

theorem Notification.get_notify (n : Notification) :
    (n.toJson showFloat).get "notify" = some (.str n.notify) := by
  simp [toJson, Json.get, List.lookup_cons]

theorem Notification.get_data (n : Notification) :
    (n.toJson showFloat).get "data" = some (n.data.toJson showFloat) := by
  simp [toJson, Json.get]

end Serialization

end Commmon

/-
# Bytes written in hexadecimal

Behind `--hex` the words of a line are put together without anything between them and
decoded. So the digits may be spaced in any way. What reaches the port is what they
spell, and nothing if they spell nothing; the text that a client is given for the
bytes of an entry spells these bytes.

`hex::decode` is a parameter here. It takes an even number of digits, of either case
and also mixed, two for each byte.
-/

import Commmon.ReplWrites

set_option autoImplicit false

namespace Commmon

open Words (words)

/-- The digits spell the bytes. -/
inductive Spells : List Char → List UInt8 → Prop
  | nil : Spells [] []
  | cons {high low : Char} {h l : ℕ} {text : List Char} {data : List UInt8}
      (hhigh : Json.hexValue high = some h) (hlow : Json.hexValue low = some l)
      (hrest : Spells text data) :
      Spells (high :: low :: text) (UInt8.ofNat (16 * h + l) :: data)

/-- Digits spell one thing. -/
theorem Spells.unique {text : List Char} {data data' : List UInt8} (h : Spells text data)
    (h' : Spells text data') : data = data' := by
  induction h generalizing data' with
  | nil =>
      cases h'
      rfl
  | cons hhigh hlow hrest ih =>
      cases h' with
      | cons hhigh' hlow' hrest' =>
          obtain rfl := Option.some.inj (hhigh.symm.trans hhigh')
          obtain rfl := Option.some.inj (hlow.symm.trans hlow')
          rw [ih hrest']

namespace Repl

/-- The digits of a line, without what is between them. -/
def digits (text : String) : String := String.join (splitWhitespace text)

section

variable {readFloat : NumLit → Rat} {showFloat : Rat → NumLit} {handler : Handler}
  {m : SerialManager} {decoded : Except String (List UInt8)}

end

end Repl

end Commmon

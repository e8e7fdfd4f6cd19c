/-
# What the tools can be called with

The MCP server checks the arguments of a tool against a schema before it sends a
request. A schema says which fields there are, of which type, and with which
default. The numbers of a schema have no bounds.

Where a tool sends a path, resolving it is the business of the file system.
-/

import Mathlib.Algebra.Group.Int.Defs
import Mathlib.Data.Rat.Defs
import Commmon.Repl

set_option autoImplicit false

namespace Commmon

namespace Number

def value : Number → ℚ
  | .posInt n => n
  | .negInt i => i
  | .float x => x

end Number

namespace Value

def asNumber : Value → Option Number
  | .number x => some x
  | _ => none

/-- `z.enum`. -/
def asEnum (options : List String) (v : Value) : Option String :=
  v.asStr.filter fun s => decide (s ∈ options)

/-- A field with a default. -/
def fieldOr {α : Type} (input : Value) (key : String) (check : Value → Option α)
    (default : α) : Option α :=
  match input.get key with
  | some v => check v
  | none => some default

/-- An optional field. -/
def optionalField {α : Type} (input : Value) (key : String) (check : Value → Option α) :
    Option (Option α) :=
  match input.get key with
  | some v => (check v).map some
  | none => some none

end Value

/-- A field that is sent only if it was given. -/
def sentField {α : Type} (key : String) (toValue : α → Value) (x : Option α) :
    List (String × Value) :=
  (x.map fun a => (key, toValue a)).toList

namespace Schema

def openPort (input : Value) : Option ToolCall := do
  let port ← input.strArg "port"
  let baudRate ← input.fieldOr "baudRate" Value.asNumber (.posInt 115200)
  let dataBits ← input.fieldOr "dataBits" (Value.asEnum ["5", "6", "7", "8"]) "8"
  let stopBits ← input.fieldOr "stopBits" (Value.asEnum ["1", "1.5", "2"]) "1"
  let parity ← input.fieldOr "parity"
    (Value.asEnum ["none", "even", "odd", "mark", "space"]) "none"
  return .openPort port baudRate dataBits stopBits parity

/-- `filePath` is the path that the tool resolves. -/
def startLog (filePath : String) (input : Value) : Option ToolCall := do
  let port ← input.strArg "port"
  let duration ← input.optionalField "duration" Value.asNumber
  let stopKeyword ← input.optionalField "stopKeyword" Value.asStr
  let _ ← input.optionalField "filePath" Value.asStr
  let _ ← input.optionalField "label" Value.asStr
  return .forward "start_log" (.object
    ([("port", .string port)] ++ sentField "duration" .number duration ++
      sentField "stopKeyword" .string stopKeyword ++ [("filePath", .string filePath)]))

def updateLog (input : Value) : Option ToolCall := do
  let port ← input.strArg "port"
  let stopKeyword ← input.optionalField "stopKeyword" Value.asStr
  let duration ← input.optionalField "duration" Value.asNumber
  return .forward "update_log" (.object
    ([("port", .string port)] ++ sentField "stopKeyword" .string stopKeyword ++
      sentField "duration" .number duration))

def openMonitor (input : Value) : Option ToolCall := do
  let httpPort ← input.fieldOr "httpPort" Value.asNumber (.posInt 8765)
  return .forward "open_monitor" (.object [("httpPort", .number httpPort)])

end Schema

end Commmon

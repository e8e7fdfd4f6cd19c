/-
# Lines typed at the prompt

The interactive client cuts a line into words and makes a request of them. A word
that is no number where one is expected is passed over, and the request goes out
without it, or with the client's own default.
-/

import Commmon.DaemonClient

set_option autoImplicit false

namespace Commmon

namespace Repl

/-- The characters with the property `White_Space`. -/
def isWhitespace (c : Char) : Bool :=
  (0x9 ≤ c.toNat ∧ c.toNat ≤ 0xD) ∨ (0x2000 ≤ c.toNat ∧ c.toNat ≤ 0x200A) ∨
    c.toNat ∈ [0x20, 0x85, 0xA0, 0x1680, 0x2028, 0x2029, 0x202F, 0x205F, 0x3000]

def splitWhitespace (input : String) : List String :=
  ((input.toList.splitOnP isWhitespace).filter (· ≠ [])).map String.ofList

/-- `parse` for an unsigned type with this many values. A plus sign may stand in
front. -/
def parseUnsigned (size : ℕ) (word : String) : Option ℕ :=
  let digits := match word.toList with
    | '+' :: cs => cs
    | cs => cs
  if digits ≠ [] ∧ digits.all Char.isDigit = true ∧ Json.natOf digits < size then
    some (Json.natOf digits)
  else none

theorem parseUnsigned_lt {size n : ℕ} {word : String} (h : parseUnsigned size word = some n) :
    n < size := by
  simp only [parseUnsigned] at h
  split_ifs at h with hdigits
  obtain rfl := Option.some.inj h
  exact hdigits.2.2

/-- The word after a flag. -/
def flagValue (flag : String) (words : List String) : Option String :=
  (words.dropWhile (· ≠ flag))[1]?

def parityName : Char → String
  | 'N' | 'n' => "none"
  | 'E' | 'e' => "even"
  | 'O' | 'o' => "odd"
  | _ => "none"

/-- A setting such as `8N1`. Only its length is checked. -/
def lineSettings (config : String) : List (String × Value) :=
  match config.toList with
  | [dataBits, parity, stopBits] =>
      [("dataBits", .string dataBits.toString), ("parity", .string (parityName parity)),
        ("stopBits", .string stopBits.toString)]
  | _ => []

def openArgs (port : String) (rest : List String) : Value :=
  let baud := (rest[0]?.bind (parseUnsigned UInt64.size)).getD 115200
  .object ([("port", .string port), ("baudRate", .number (.posInt baud))] ++
    (rest[1]?.map lineSettings).getD [])

/-- `args[key] = v`. -/
def setField (fields : List (String × Value)) (key : String) (v : Value) :
    List (String × Value) :=
  (key, v) :: fields.filter fun f => f.1 ≠ key

/-- The flags of `log`. The word after `--duration` is read again when it is no
number. -/
def logFlags : List String → List (String × Value) → List (String × Value)
  | "--duration" :: val :: rest, fields =>
      match parseUnsigned UInt64.size val with
      | some n => logFlags rest (setField fields "duration" (.number (.posInt n)))
      | none => logFlags (val :: rest) fields
  | "--keyword" :: val :: rest, fields =>
      logFlags rest (setField fields "stopKeyword" (.string val))
  | "--file" :: val :: rest, fields =>
      logFlags rest (setField fields "filePath" (.string val))
  | _ :: rest, fields => logFlags rest fields
  | [], fields => fields

def monitorArgs (words : List String) : Value :=
  .object (((flagValue "--port" words).bind (parseUnsigned UInt16.size)).map fun n =>
    ("httpPort", Value.number (.posInt n))).toList

def onPort (cmd port : String) : Request := ⟨cmd, ToolCall.portArg port⟩

def parseWords (word : String) (words : List String) : Option Request :=
  match word, words with
  | "list", _ | "ls", _ => some ⟨"list_ports", .null⟩
  | "open", port :: rest => some ⟨"open_port", openArgs port rest⟩
  | "close", port :: _ => some (onPort "close_port" port)
  | "write", port :: "--hex" :: data | "send", port :: "--hex" :: data =>
      some ⟨"write_port", .object [("port", .string port),
        ("data", .string (String.join data)), ("encoding", .string "hex")]⟩
  | "write", port :: word :: data | "send", port :: word :: data =>
      some ⟨"write_port", .object [("port", .string port),
        ("data", .string (" ".intercalate (word :: data)))]⟩
  | "read", port :: _ => some (onPort "read_port" port)
  | "log", "start" :: port :: flags =>
      some ⟨"start_log", .object (logFlags flags [("port", .string port)])⟩
  | "log", "stop" :: port :: _ => some (onPort "stop_log" port)
  | "log", "update" :: port :: flags =>
      some ⟨"update_log", .object (logFlags flags [("port", .string port)])⟩
  | "subscribe", port :: _ | "sub", port :: _ => some (onPort "subscribe_rx" port)
  | "unsubscribe", port :: _ | "unsub", port :: _ => some (onPort "unsubscribe_rx" port)
  | "status", _ => some ⟨"port_status", .null⟩
  | "monitor", "start" :: rest => some ⟨"open_monitor", monitorArgs rest⟩
  | "monitor", "stop" :: _ => some ⟨"close_monitor", .null⟩
  | _, _ => none

/-- `parse_command`. -/
def parseCommand (input : String) : Option Request :=
  match splitWhitespace input with
  | [] => none
  | word :: words => parseWords word words

end Repl

end Commmon

/-
# Entries, requests and responses

The data that passes between a port, the daemon and a client: the entries that
a port's read task broadcasts, the JSON values of the line protocol, and the
requests and responses built from them.

An entry that has been received is kept together with where it was broadcast,
the channel and the position in it. The daemon keeps only the entry; the place
is what lets a statement say which of two entries with equal bytes is meant.
-/

import Commmon.Lib.Broadcast
import Commmon.Lib.Utf8Lossy

set_option autoImplicit false

namespace Commmon

/-- One read from a serial port. -/
structure RxEntry where
  timestamp : String
  data : List UInt8
  deriving DecidableEq

/-- Broadcast channels are numbered in the order in which ports are opened. -/
abbrev ChannelId := ℕ

/-- A broadcast receiver: its channel, and the position it reads next. -/
structure Receiver where
  chan : ChannelId
  next : ℕ
  deriving DecidableEq

/-- An entry with the channel and the position it was broadcast at. -/
structure Arrival where
  chan : ChannelId
  pos : ℕ
  entry : RxEntry
  deriving DecidableEq

inductive Number
  | posInt (n : ℕ)
  | negInt (n : Int)
  | float (x : Rat)

inductive Value
  | null
  | bool (b : Bool)
  | number (n : Number)
  | string (s : String)
  | array (xs : List Value)
  | object (fields : List (String × Value))

namespace Value

/-- A field of an object; anything else has no fields. -/
def get : Value → String → Option Value
  | .object fields, key => fields.lookup key
  | _, _ => none

def asStr : Value → Option String
  | .string s => some s
  | _ => none

def asBool : Value → Option Bool
  | .bool b => some b
  | _ => none

/-- Only a number written as a nonnegative integer is one. -/
def asU64 : Value → Option ℕ
  | .number (.posInt n) => some n
  | _ => none

/-- The string under a key. -/
def strArg (args : Value) (key : String) : Option String := (args.get key).bind asStr

end Value

/-- A client's request line. -/
structure Request where
  cmd : String
  args : Value

/-- What a successful response carries. The array that `read_port` builds is
kept as the entries it is built from. -/
inductive Payload
  | value (v : Value)
  | entries (es : List Arrival)

/-- The JSON object that `read_port` makes of one entry. -/
def RxEntry.toValue (e : RxEntry) : Value :=
  .object [("timestamp", .string e.timestamp), ("data", .string (Utf8Lossy.decode e.data))]

def Payload.toValue : Payload → Value
  | .value v => v
  | .entries es => .array (es.map fun a => a.entry.toValue)

structure Response where
  ok : Bool
  data : Option Payload
  error : Option String

namespace Response

def success (data : Payload) : Response := ⟨true, some data, none⟩

def successMsg (msg : String) : Response := ⟨true, some (.value (.string msg)), none⟩

def ofError (msg : String) : Response := ⟨false, none, some msg⟩

@[simp] theorem data_success (data : Payload) : (success data).data = some data := rfl

@[simp] theorem ok_successMsg (msg : String) : (successMsg msg).ok = true := rfl

@[simp] theorem ok_ofError (msg : String) : (ofError msg).ok = false := rfl

/-- The entries that a response of `read_port` carries. -/
def entries? (resp : Response) : Option (List Arrival) :=
  match resp.data with
  | some (.entries es) => some es
  | _ => none

end Response

/-- An unrequested line to a client. -/
structure Notification where
  notify : String
  data : Value

/-- `filter_rx` and `add_filter_rx` accept an array of strings or one string.
Elements that are not strings, and empty ones, are skipped. -/
def keywordsArg (args : Value) : Option (List String) :=
  match args.get "keywords" with
  | some (.array arr) => some ((arr.filterMap Value.asStr).filter (· ≠ ""))
  | some (.string s) => if s ≠ "" then some [s] else none
  | _ => none

end Commmon

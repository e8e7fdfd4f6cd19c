/-
# A client of an SDK on its connection

The clients of the SDKs only subscribe to ports and listen. What they are in
other respects is left open here: a client writes a line for each of its calls,
is given the daemon's bytes in pieces that are cut anywhere, and hands entries
on. One more law is asked of it than of any program at the other end, that it hands
on the entries of the messages that have arrived in whole.
-/

import Commmon.Attachment

set_option autoImplicit false

namespace Commmon

open RecvLoop (newline)

/-- What a client is told about an entry. -/
structure RxData where
  port : String
  timestamp : String
  ascii : String
  hex : String
  deriving DecidableEq

def Arrival.rxData (port : String) (a : Arrival) : RxData where
  port := port
  timestamp := a.entry.timestamp
  ascii := Utf8Lossy.decode a.entry.data
  hex := hexEncode a.entry.data

/-- The entry that a notification tells of. -/
def Notification.rxEntry (n : Notification) : Option RxData :=
  if n.notify = "rx_data" then
    match n.data.strArg "port", n.data.strArg "timestamp", n.data.strArg "ascii",
        n.data.strArg "hex" with
    | some port, some timestamp, some ascii, some hex => some ⟨port, timestamp, ascii, hex⟩
    | _, _, _, _ => none
  else none

theorem Notification.rxEntry_of_ne {n : Notification} (h : n.notify ≠ "rx_data") :
    n.rxEntry = none := by
  rw [Notification.rxEntry, if_neg h]

def Message.rxEntry : Message → Option RxData
  | .response _ => none
  | .notification n => n.rxEntry

/-- Only the streaming task calls a notification `rx_data`. -/
def Message.Ordinary : Message → Prop
  | .response _ => True
  | .notification n => n.notify = "rx_data" → ∃ port a, n = (Push.rxData port a).notification

def Outgoing.rxEntry : Outgoing → Option RxData
  | .push (.rxData port a) => some (a.rxData port)
  | _ => none

theorem Outgoing.ordinary_message (o : Outgoing) : o.message.Ordinary := by
  cases o with
  | response req resp => trivial
  | push p =>
      intro hname
      cases p with
      | rxData port a => exact ⟨port, a, rfl⟩
      | filterHit port hit => simp [Push.notification] at hname

@[simp]
theorem Push.rxEntry_rxData (port : String) (a : Arrival) :
    (Push.rxData port a).notification.rxEntry = some (a.rxData port) := by
  simp [Push.notification, Notification.rxEntry, Value.strArg, Value.get, Value.asStr,
    List.lookup_cons, Arrival.rxData]

@[simp]
theorem Outgoing.rxEntry_message (o : Outgoing) : o.message.rxEntry = o.rxEntry := by
  cases o with
  | response req resp => rfl
  | push p =>
      cases p with
      | rxData port a => exact Push.rxEntry_rxData port a
      | filterHit port hit =>
          have hname : (Push.filterHit port hit).notification.notify ≠ "rx_data" := by
            simp [Push.notification]
          exact Notification.rxEntry_of_ne hname

section

variable (showFloat : Rat → NumLit)

theorem Push.rxData_toJson (port : String) (a : Arrival) :
    (Push.rxData port a).notification.toJson showFloat = .obj [("notify", .str "rx_data"),
      ("data", .obj [("ascii", .str (Utf8Lossy.decode a.entry.data)),
        ("hex", .str (hexEncode a.entry.data)), ("port", .str port),
        ("timestamp", .str a.entry.timestamp)])] := by
  simp [Notification.toJson, Push.notification, Value.toJson, fieldsToJson, List.insertionSort,
    List.orderedInsert]

end

/-- The entries that the streaming task has pushed to a client. -/
def World.entriesTo (w : World) (c : ClientId) : List RxData :=
  (w.writtenTo c).filterMap Outgoing.rxEntry

/-- A call that asks the daemon for something. -/
inductive RxCall
  | subscribe (comPort : String)
  | unsubscribe (comPort : String)
  deriving DecidableEq

def RxCall.request : RxCall → Request
  | subscribe comPort => portRequest "subscribe_rx" comPort
  | unsubscribe comPort => portRequest "unsubscribe_rx" comPort

/-- The messages of which the whole line has arrived. -/
def heard (msgs : List Message) (arrived : List UInt8) : List Message :=
  msgs.take (LineBuffer.split newline arrived).1.length

/-- A client of an SDK. `Data` is what it hands on for an entry. -/
structure Sdk (showFloat : Rat → NumLit) (readFloat : NumLit → Rat) extends Peer readFloat where
  Data : Type
  delivered : State → List Data
  ofEntry : RxData → Data
  hears : ∀ (msgs : List Message) (pieces : List (List UInt8)) (later : List UInt8),
    (∀ m ∈ msgs, m.Ordinary) → pieces.flatten ++ later = writtenBytes showFloat msgs →
      delivered (pieces.foldl feed start) =
        ((heard msgs pieces.flatten).filterMap Message.rxEntry).map ofEntry

/-- All runs of the daemon with the client. -/
abbrev Sdk.attached {showFloat : Rat → NumLit} {readFloat : NumLit → Rat}
    (sdk : Sdk showFloat readFloat) (c : ClientId) :
    StepSystem (Attachment sdk.toPeer) (AttachmentEvent sdk.Call) :=
  attachment showFloat sdk.toPeer c

namespace Attachment

variable {showFloat : Rat → NumLit} {readFloat : NumLit → Rat} {c : ClientId}

section

variable {peer : Peer readFloat} {w : Attachment peer}

theorem Wired.ordinary (h : w.Wired showFloat c) : ∀ m ∈ w.written, m.Ordinary := by
  intro m hm
  obtain ⟨l, hl, rfl⟩ := List.mem_map.mp hm
  cases l with
  | out o => exact o.ordinary_message
  | refusal err => trivial
  | notice n =>
      intro hname
      simp [h.notices n hl] at hname

theorem Wired.entries (h : w.Wired showFloat c) :
    w.written.filterMap Message.rxEntry = w.world.entriesTo c := by
  have hline : ∀ l ∈ w.lines, l.message.rxEntry = l.out?.bind Outgoing.rxEntry := by
    intro l hl
    cases l with
    | out o => exact o.rxEntry_message
    | refusal err => rfl
    | notice n =>
        have hother : n.notify ≠ "rx_data" := by simp [h.notices n hl]
        exact Notification.rxEntry_of_ne hother
  rw [World.entriesTo, ← h.outgoing, written, List.filterMap_map, List.filterMap_filterMap]
  exact List.filterMap_congr hline

end

/-- What a client hands on is a beginning of what the streaming task has pushed,
and all of it once nothing is on its way. -/
theorem Wired.delivered {sdk : Sdk showFloat readFloat} {w : Attachment sdk.toPeer}
    (h : w.Wired showFloat c) :
    sdk.delivered w.client <+: (w.world.entriesTo c).map sdk.ofEntry ∧
      (w.outbound = [] →
        sdk.delivered w.client = (w.world.entriesTo c).map sdk.ofEntry) := by
  obtain ⟨pieces, hclient, hbytes⟩ := h.arrived
  have hhears := sdk.hears w.written pieces w.outbound h.ordinary hbytes
  rw [← hclient] at hhears
  rw [hhears, ← h.entries]
  constructor
  · exact ((List.take_prefix _ _).filterMap _).map _
  · intro hout
    rw [hout, List.append_nil] at hbytes
    rw [heard, arrived_all showFloat hbytes, List.take_length]

end Attachment

end Commmon

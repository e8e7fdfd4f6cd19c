/-
# What the prompt prints

The prompt parses a response and prints what it recognizes by its keys: a port, an
entry, a port's state, a stopped log. It knows nothing of the command that was
answered. That what is printed is nonetheless what the daemon had at hand, on the other
side of two conversions, is shown for all values whose keys are distinct.
-/

import Commmon.Sdk
import Commmon.WireValues

set_option autoImplicit false

namespace Commmon

namespace Repl

/-- What is printed on one of the two outputs, without the line feed that follows. -/
inductive Line
  | out (text : String)
  | err (text : String)
  deriving DecidableEq

section

variable (showFloat : Rat → NumLit)

/-- `to_string`. -/
def compactText (v : Value) : String := String.ofList (v.toJson showFloat).print

/-- `to_string_pretty`. -/
def prettyText (v : Value) : String :=
  String.ofList (Json.printWith Json.pretty (v.toJson showFloat) 0)

/-- A text that is there, between two others. -/
def optionalText (before : String) (text : Option String) (after : String) : String :=
  (text.map fun s => before ++ s ++ after).getD ""

/-- An element of an array: a port that could be opened, an entry, or an open port. -/
def itemLine (item : Value) : Line :=
  match item.strArg "path" with
  | some path =>
      .out ("  " ++ path ++ optionalText " (" (item.strArg "manufacturer") ")" ++
        optionalText " - " (item.strArg "product") "")
  | none =>
      match item.strArg "timestamp", item.strArg "data" with
      | some ts, some d => .out s!"[{ts}] {d}"
      | _, _ =>
          match item.strArg "port" with
          | some port =>
              let baud := ((item.get "baudRate").bind Value.asU64).getD 0
              let config := (item.strArg "config").getD ""
              .out (s!"  {port} {baud}bps {config}" ++
                optionalText " [로그: " ((item.get "log").bind fun log => log.strArg "file") "]")
          | none => .out ("  " ++ prettyText showFloat item)

def formatItems : List Value → List Line
  | [] => [.out "(비어 있음)"]
  | item :: items => (item :: items).map (itemLine showFloat)

/-- The ports in the answer of `port_status`. Only an array of them is printed. -/
def formatPorts : Value → List Line
  | .array [] => [.out "열린 포트 없음"]
  | .array (item :: items) => formatItems showFloat (item :: items)
  | _ => []

def formatMonitor (mon : Value) : List Line :=
  if (mon.get "active").bind Value.asBool = some true then
    let url := (mon.strArg "url").getD ""
    [.out s!"  모니터: {url}"]
  else []

def formatData : Value → List Line
  | .string s => [.out s]
  | .array arr => formatItems showFloat arr
  | .object fields =>
      match (Value.object fields).get "ports" with
      | some ports =>
          formatPorts showFloat ports ++
            (((Value.object fields).get "monitor").map formatMonitor).getD []
      | none =>
          match (Value.object fields).strArg "file" with
          | some file =>
              let port := ((Value.object fields).strArg "port").getD ""
              [.out s!"{port} 로그 중지: {file}"]
          | none => [.out (prettyText showFloat (.object fields))]
  | data => [.out (compactText showFloat data)]

end

section

variable (showFloat : Rat → NumLit) (readFloat : NumLit → Rat)

def printResponse (line : List Char) : List Line :=
  match Json.parse line with
  | none => [.out (String.ofList line)]
  | some parsed =>
      let val := Value.ofJson readFloat parsed
      if (val.get "ok").bind Value.asBool = some true then
        ((val.get "data").map (formatData showFloat)).getD []
      else
        match val.strArg "error" with
        | some err => [.err s!"오류: {err}"]
        | none => []

def printNotification (val : Value) : List Line :=
  let data := (val.get "data").getD .null
  let field := fun key => (data.strArg key).getD ""
  let port := field "port"
  let file := field "file"
  match (val.strArg "notify").getD "" with
  | "log_stopped" =>
      match field "reason" with
      | "keyword" =>
          let kw := field "keyword"
          [.err s!"\n[알림] {port} 로그 중지 (키워드 \x27{kw}\x27 감지): {file}"]
      | "duration" => [.err s!"\n[알림] {port} 로그 중지 (시간 만료): {file}"]
      | _ => [.err s!"\n[알림] {port} 로그 중지: {file}"]
  | "port_error" =>
      let err := field "error"
      [.err s!"\n[알림] {port} 오류: {err}"]
  | "rx_data" =>
      let ts := field "timestamp"
      let ascii := field "ascii"
      [.err s!"\n[{ts}] [{port}] {ascii}"]
  | _ => [.err ("\n[알림] " ++ compactText showFloat val)]

end

section

variable {showFloat : Rat → NumLit} {readFloat : NumLit → Rat}

private theorem prettyText_sent {v : Value} (h : v.Faithful) :
    prettyText showFloat (v.sent showFloat readFloat) = prettyText showFloat v := by
  rw [prettyText, h.toJson_sent, prettyText]

/-- A field of a field. -/
theorem bind_strArg_sent {v : Value} (h : v.Faithful) (key key' : String) :
    (((v.sent showFloat readFloat).get key).bind fun x => x.strArg key') =
      (v.get key).bind fun x => x.strArg key' := by
  rw [h.get_sent]
  cases hx : v.get key with
  | none => rfl
  | some x => exact (h.of_get hx).strArg_sent key'

private theorem bind_asU64_sent {v : Value} (h : v.Faithful) (key : String) :
    ((v.sent showFloat readFloat).get key).bind Value.asU64 = (v.get key).bind Value.asU64 := by
  rw [h.get_sent]
  cases hx : v.get key with
  | none => rfl
  | some x => exact (h.of_get hx).asU64_sent

private theorem bind_asBool_sent {v : Value} (h : v.Faithful) (key : String) :
    ((v.sent showFloat readFloat).get key).bind Value.asBool =
      (v.get key).bind Value.asBool := by
  rw [h.get_sent]
  cases v.get key with
  | none => rfl
  | some x => exact x.asBool_sent

private theorem itemLine_sent {item : Value} (h : item.Faithful) :
    itemLine showFloat (item.sent showFloat readFloat) = itemLine showFloat item := by
  simp only [itemLine, h.strArg_sent, bind_asU64_sent h, bind_strArg_sent h, prettyText_sent h]

private theorem formatItems_sent {items : List Value} (h : ∀ v ∈ items, v.Faithful) :
    formatItems showFloat (items.map (Value.sent showFloat readFloat)) =
      formatItems showFloat items := by
  cases items with
  | nil => rfl
  | cons item items =>
      rw [List.map_cons, formatItems, formatItems, ← List.map_cons, List.map_map]
      exact List.map_congr_left fun v hv => itemLine_sent (h v hv)

private theorem formatPorts_sent {ports : Value} (h : ports.Faithful) :
    formatPorts showFloat (ports.sent showFloat readFloat) = formatPorts showFloat ports := by
  cases ports with
  | array xs =>
      rw [Value.sent_array]
      cases xs with
      | nil => rfl
      | cons x xs => exact formatItems_sent (Value.faithful_array.mp h)
  | number n => rw [Value.sent_number showFloat readFloat h]
  | _ => rfl

private theorem formatMonitor_sent {mon : Value} (h : mon.Faithful) :
    formatMonitor (mon.sent showFloat readFloat) = formatMonitor mon := by
  rw [formatMonitor, formatMonitor, bind_asBool_sent h, h.strArg_sent]

/-- The display of a value that has come from the daemon is that of the value the
daemon had. -/
theorem formatData_sent {data : Value} (h : data.Faithful) :
    formatData showFloat (data.sent showFloat readFloat) = formatData showFloat data := by
  cases data with
  | array xs =>
      rw [Value.sent_array]
      exact formatItems_sent (Value.faithful_array.mp h)
  | number n => rw [Value.sent_number showFloat readFloat h]
  | object fields =>
      obtain ⟨fields', hsent, -⟩ := Value.sent_object showFloat readFloat fields
      have hget : ∀ key, (Value.object fields').get key =
          ((Value.object fields).get key).map (Value.sent showFloat readFloat) :=
        hsent ▸ h.get_sent
      have hstr : ∀ key, (Value.object fields').strArg key = (Value.object fields).strArg key :=
        hsent ▸ h.strArg_sent
      have hpretty : prettyText showFloat (.object fields') =
          prettyText showFloat (.object fields) :=
        hsent ▸ prettyText_sent h
      rw [hsent]
      simp only [formatData, hget, hstr, hpretty]
      cases hports : (Value.object fields).get "ports" with
      | none => rfl
      | some ports =>
          simp only [Option.map_some, formatPorts_sent (h.of_get hports)]
          cases hmon : (Value.object fields).get "monitor" with
          | none => rfl
          | some mon => simp [formatMonitor_sent (h.of_get hmon)]
  | _ => rfl

end

end Repl

/-- What the response carries comes through as it is. -/
def Response.Faithful (resp : Response) : Prop :=
  ∀ data ∈ resp.data, data.toValue.Faithful

/-- What is to be seen of a response. -/
def Response.display (showFloat : Rat → NumLit) (resp : Response) : List Repl.Line :=
  if resp.ok then (resp.data.map fun data => Repl.formatData showFloat data.toValue).getD []
  else (resp.error.map fun err => Repl.Line.err s!"오류: {err}").toList

namespace Repl

variable {showFloat : Rat → NumLit} {readFloat : NumLit → Rat}

/-- The prompt shows a response as the daemon made it. -/
theorem printResponse_print {resp : Response} (h : resp.Faithful) :
    printResponse showFloat readFloat (resp.toJson showFloat).print = resp.display showFloat := by
  rw [printResponse, Json.parse_print]
  obtain ⟨ok, data, error⟩ := resp
  have hok : ((Value.ofJson readFloat ((⟨ok, data, error⟩ : Response).toJson showFloat)).get
      "ok").bind Value.asBool = some ok := by
    rcases data with _ | data <;> rcases error with _ | e <;>
      simp [Response.toJson, Value.ofJson, fieldsOfJson, Value.get, List.lookup_cons, Value.asBool]
  have hdata : (Value.ofJson readFloat ((⟨ok, data, error⟩ : Response).toJson showFloat)).get
      "data" = data.map fun p => p.toValue.sent showFloat readFloat := by
    rcases data with _ | data <;> rcases error with _ | e <;>
      simp [Response.toJson, Value.ofJson, fieldsOfJson, Value.get, List.lookup_cons, Value.sent]
  have herror : (Value.ofJson readFloat ((⟨ok, data, error⟩ : Response).toJson showFloat)).strArg
      "error" = error := by
    rcases data with _ | data <;> rcases error with _ | e <;>
      simp [Response.toJson, Value.ofJson, fieldsOfJson, Value.strArg, Value.get, List.lookup_cons,
        Value.asStr]
  simp only [hok, hdata, herror, Response.display, Option.some.injEq]
  cases ok with
  | true =>
      cases data with
      | none => rfl
      | some p => simp [formatData_sent (h p rfl)]
  | false => cases error <;> rfl

theorem faithful_entries (b : List Arrival) : (Response.success (.entries b)).Faithful := by
  rintro data ⟨⟩
  refine Value.faithful_array.mpr fun v hv => ?_
  obtain ⟨a, -, rfl⟩ := List.mem_map.mp hv
  exact Value.faithful_object.mpr ⟨by simp, by simp [Value.Faithful]⟩

/-- What is shown of the entries of a read. -/
theorem display_entries (b : List Arrival) :
    (Response.success (.entries b)).display showFloat =
      if b = [] then [.out "(비어 있음)"]
      else b.map fun a => .out s!"[{a.entry.timestamp}] {Utf8Lossy.decode a.entry.data}" := by
  have hitem : ∀ a : Arrival, itemLine showFloat a.entry.toValue =
      .out s!"[{a.entry.timestamp}] {Utf8Lossy.decode a.entry.data}" := by
    intro a
    simp [itemLine, RxEntry.toValue, Value.strArg, Value.get, Value.asStr, List.lookup_cons]
  cases b with
  | nil => rfl
  | cons a b =>
      simp only [Response.display, Response.success, Payload.toValue, formatData, formatItems,
        List.map_cons, hitem, List.map_map, Function.comp_def, Option.map_some, Option.getD_some,
        if_true, List.cons_ne_nil, if_false]

/-- A notification as it is parsed. -/
def readNotification (showFloat : Rat → NumLit) (readFloat : NumLit → Rat) (n : Notification) :
    Value :=
  .object [("data", n.data.sent showFloat readFloat), ("notify", .string n.notify)]

theorem ofJson_notification (n : Notification) :
    Value.ofJson readFloat (n.toJson showFloat) = readNotification showFloat readFloat n := rfl

/-- What is shown of an entry. -/
def entryLine (d : RxData) : Line := .err s!"\n[{d.timestamp}] [{d.port}] {d.ascii}"

theorem printNotification_rxData (port : String) (a : Arrival) :
    printNotification showFloat
      (readNotification showFloat readFloat (Push.rxData port a).notification) =
        [entryLine (a.rxData port)] := by
  have hdata : (Push.rxData port a).notification.data.Faithful :=
    Value.faithful_object.mpr ⟨by simp, by simp [Value.Faithful]⟩
  simp only [printNotification, readNotification, Value.get, List.lookup_cons, beq_self_eq_true,
    Option.getD_some, hdata.strArg_sent]
  simp [Push.notification, Value.strArg, Value.get, Value.asStr, List.lookup_cons, entryLine,
    Arrival.rxData]

end Repl

end Commmon

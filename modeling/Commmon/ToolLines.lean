/-
# What the tools send

A tool checks its input against a schema. What it sends is written by
`JSON.stringify`, with the fields of an object in the order in which they were put
there, and the daemon parses the line. Which arguments there are is written down in
both programs, and neither would notice a key that the other misspells, or a value of
another type.

All numbers of the language are doubles. Their text is left open, but for whole
numbers up to 2⁵³, which are written by their digits, and a number that is beyond all
doubles is written as `null`. The daemon tells an integer from another number by its
text alone.
-/

import Commmon.Schemas
import Commmon.WireValues

set_option autoImplicit false

namespace Commmon

/-- `z.array(z.string().min(1)).min(1)`. -/
def Value.asKeywords : Value → Option (List String)
  | .array vs => (vs.mapM fun v => (asStr v).filter (· ≠ "")).filter (· ≠ [])
  | _ => none

namespace Schema

/-- The tools without parameters. -/
def bare (cmd : String) (_ : Value) : Option ToolCall := some (.forward cmd (.object []))

def listPorts : Value → Option ToolCall := bare "list_ports"

def portStatus : Value → Option ToolCall := bare "port_status"

def closeMonitor : Value → Option ToolCall := bare "close_monitor"

/-- The tools with the port alone. -/
def onPort (make : String → ToolCall) (input : Value) : Option ToolCall := do
  let port ← input.strArg "port"
  return make port

def stopLog : Value → Option ToolCall :=
  onPort fun port => .forward "stop_log" (ToolCall.portArg port)

def closePort : Value → Option ToolCall := onPort .closePort

def subscribeRx : Value → Option ToolCall := onPort .subscribeRx

def unsubscribeRx : Value → Option ToolCall := onPort .unsubscribeRx

def unfilterRx : Value → Option ToolCall := onPort .unfilterRx

/-- The tools that register keywords. -/
def onKeywords (make : String → List String → ToolCall) (input : Value) : Option ToolCall := do
  let port ← input.strArg "port"
  let keywords ← (input.get "keywords").bind Value.asKeywords
  return make port keywords

def filterRx : Value → Option ToolCall := onKeywords .filterRx

def addFilterRx : Value → Option ToolCall := onKeywords .addFilterRx

def writePort (input : Value) : Option ToolCall := do
  let port ← input.strArg "port"
  let data ← input.strArg "data"
  let encoding ← input.fieldOr "encoding" (Value.asEnum ["ascii", "hex", "utf8"]) "ascii"
  return .forward "write_port" (.object
    [("port", .string port), ("data", .string data), ("encoding", .string encoding)])

def readPort (input : Value) : Option ToolCall := do
  let port ← input.strArg "port"
  let clear ← input.fieldOr "clear" Value.asBool true
  return .forward "read_port" (.object [("port", .string port), ("clear", .bool clear)])

end Schema

/-- The tools that ask the daemon for something. -/
inductive Tool
  | listPorts | openPort | writePort | readPort | startLog | updateLog | stopLog | closePort
  | portStatus | openMonitor | closeMonitor | subscribeRx | unsubscribeRx | filterRx | addFilterRx
  | unfilterRx
  deriving DecidableEq

namespace Tool

/-- `filePath` is the path that `start_log` resolves. -/
def schema (filePath : String) : Tool → Value → Option ToolCall
  | listPorts => Schema.listPorts
  | openPort => Schema.openPort
  | writePort => Schema.writePort
  | readPort => Schema.readPort
  | startLog => Schema.startLog filePath
  | updateLog => Schema.updateLog
  | stopLog => Schema.stopLog
  | closePort => Schema.closePort
  | portStatus => Schema.portStatus
  | openMonitor => Schema.openMonitor
  | closeMonitor => Schema.closeMonitor
  | subscribeRx => Schema.subscribeRx
  | unsubscribeRx => Schema.unsubscribeRx
  | filterRx => Schema.filterRx
  | addFilterRx => Schema.addFilterRx
  | unfilterRx => Schema.unfilterRx

/-- The command that a tool sends. -/
def cmd : Tool → String
  | listPorts => "list_ports"
  | openPort => "open_port"
  | writePort => "write_port"
  | readPort => "read_port"
  | startLog => "start_log"
  | updateLog => "update_log"
  | stopLog => "stop_log"
  | closePort => "close_port"
  | portStatus => "port_status"
  | openMonitor => "open_monitor"
  | closeMonitor => "close_monitor"
  | subscribeRx => "subscribe_rx"
  | unsubscribeRx => "unsubscribe_rx"
  | filterRx => "filter_rx"
  | addFilterRx => "add_filter_rx"
  | unfilterRx => "unfilter_rx"

/-- The parameters that are passed on, in their order, with their defaults. -/
def params : Tool → List (String × Option Value)
  | listPorts | portStatus | closeMonitor => []
  | stopLog | closePort | subscribeRx | unsubscribeRx | unfilterRx => [("port", none)]
  | filterRx | addFilterRx => [("port", none), ("keywords", none)]
  | openPort => [("port", none), ("baudRate", some (.number (.posInt 115200))),
      ("dataBits", some (.string "8")), ("stopBits", some (.string "1")),
      ("parity", some (.string "none"))]
  | writePort => [("port", none), ("data", none), ("encoding", some (.string "ascii"))]
  | readPort => [("port", none), ("clear", some (.bool true))]
  | startLog => [("port", none), ("duration", none), ("stopKeyword", none)]
  | updateLog => [("port", none), ("stopKeyword", none), ("duration", none)]
  | openMonitor => [("httpPort", some (.number (.posInt 8765)))]

/-- What is passed on of an input. -/
def given (tool : Tool) (input : Value) : List (String × Value) :=
  tool.params.filterMap fun p => ((input.get p.1).or p.2).map fun v => (p.1, v)

/-- `start_log` puts its path behind. -/
def sent (filePath : String) (tool : Tool) (input : Value) : List (String × Value) :=
  tool.given input ++ (if tool = .startLog then [("filePath", .string filePath)] else [])

end Tool

namespace Value

variable {input v : Value} {key : String}

private theorem get_of_strArg {s : String} (h : input.strArg key = some s) :
    input.get key = some (.string s) := by
  obtain ⟨v, hv, hs⟩ := Option.bind_eq_some_iff.mp h
  cases v <;> simp_all [asStr]

theorem eq_of_asNumber {x : Number} (h : v.asNumber = some x) : v = .number x := by
  cases v <;> simp_all [asNumber]

private theorem eq_of_asBool {b : Bool} (h : v.asBool = some b) : v = .bool b := by
  cases v <;> simp_all [asBool]

theorem eq_of_asStr {s : String} (h : v.asStr = some s) : v = .string s := by
  cases v <;> simp_all [asStr]

private theorem eq_of_asEnum {options : List String} {s : String} (h : v.asEnum options = some s) :
    v = .string s :=
  eq_of_asStr (Option.filter_eq_some_iff.mp h).1

private theorem strings_of_mapM {vs : List Value} {keywords : List String}
    (h : (vs.mapM fun v => (asStr v).filter (· ≠ "")) = some keywords) :
    vs = keywords.map .string ∧ "" ∉ keywords := by
  induction vs generalizing keywords with
  | nil =>
      obtain rfl : [] = keywords := by simpa using h
      simp
  | cons v vs ih =>
      simp only [List.mapM_cons, Option.bind_eq_bind, Option.bind_eq_some_iff, Option.pure_def,
        Option.some.injEq] at h
      obtain ⟨s, hs, rest, hrest, rfl⟩ := h
      obtain ⟨hstr, hne⟩ := Option.filter_eq_some_iff.mp hs
      obtain ⟨hvs, hempty⟩ := ih hrest
      have hne : "" ≠ s := fun heq => by simp [← heq] at hne
      exact ⟨by rw [eq_of_asStr hstr, hvs, List.map_cons],
        List.not_mem_cons_of_ne_of_not_mem hne hempty⟩

private theorem eq_of_asKeywords {keywords : List String} (h : v.asKeywords = some keywords) :
    v = .array (keywords.map .string) ∧ keywords ≠ [] ∧ "" ∉ keywords := by
  cases v with
  | array vs =>
      obtain ⟨hvs, hne⟩ := Option.filter_eq_some_iff.mp h
      obtain ⟨rfl, hempty⟩ := strings_of_mapM hvs
      exact ⟨rfl, by simpa using hne, hempty⟩
  | _ => cases h

/-- A field with a default is the one of the input, if that has it. -/
theorem or_of_fieldOr {α : Type} {check : Value → Option α} {toValue : α → Value}
    (hcheck : ∀ v a, check v = some a → v = toValue a) {default a : α}
    (h : input.fieldOr key check default = some a) :
    (input.get key).or (some (toValue default)) = some (toValue a) := by
  unfold fieldOr at h
  split at h
  · rename_i v hget
    rw [hget, Option.some_or, hcheck v a h]
  · rename_i hget
    obtain rfl := Option.some.inj h
    rw [hget, Option.none_or]

theorem get_eq_of_optionalField {α : Type} {check : Value → Option α} {toValue : α → Value}
    (hcheck : ∀ v a, check v = some a → v = toValue a) {x : Option α}
    (h : input.optionalField key check = some x) : input.get key = x.map toValue := by
  unfold optionalField at h
  split at h
  · rename_i v hget
    obtain ⟨a, ha, rfl⟩ := Option.map_eq_some_iff.mp h
    rw [hget, hcheck v a ha, Option.map_some]
  · rename_i hget
    obtain rfl := Option.some.inj h
    exact hget

end Value

/-- The argument is one that the daemon reads, and of the type that it reads. -/
inductive ToolArg : String × Value → Prop
  | string {key : String} (hkey : key ∈ Dispatch.stringArgs) (hother : key ≠ "keywords")
      (s : String) : ToolArg (key, .string s)
  | number {key : String} (hkey : key ∈ Dispatch.numberArgs) (x : Number) : ToolArg (key, .number x)
  | clear (b : Bool) : ToolArg ("clear", .bool b)
  | keywords {keywords : List String} (hne : keywords ≠ []) (hempty : "" ∉ keywords) :
      ToolArg ("keywords", .array (keywords.map .string))

theorem ToolArg.sentField {α : Type} {key : String} {toValue : α → Value}
    (h : ∀ a, ToolArg (key, toValue a)) (x : Option α) :
    ∀ f ∈ sentField key toValue x, ToolArg f := by
  cases x with
  | none => exact fun f hf => absurd hf List.not_mem_nil
  | some a => exact List.forall_mem_singleton.mpr (h a)

/-- What a checked input is made into: the parameters of the tool, those that are
missing by their defaults, each of the type that the daemon reads. -/
structure Tool.Sends (tool : Tool) (filePath : String) (input : Value) (req : Request) : Prop where
  request : req = ⟨tool.cmd, .object (tool.sent filePath input)⟩
  typed : ∀ f ∈ tool.sent filePath input, ToolArg f
  required : ∀ key ∈ Dispatch.requiredArgs tool.cmd, key ∈ (tool.sent filePath input).map Prod.fst

namespace Schema

variable {tool : Tool} {filePath : String} {input : Value} {call : ToolCall}

private theorem bare_sends (hparams : tool.params = []) (hpath : tool ≠ .startLog)
    (hrequired : Dispatch.requiredArgs tool.cmd = []) (h : bare tool.cmd input = some call) :
    tool.Sends filePath input call.request := by
  obtain rfl := Option.some.inj h
  have hsent : tool.sent filePath input = [] := by simp [Tool.sent, Tool.given, hparams, hpath]
  exact ⟨by rw [hsent]; rfl, by simp [hsent], by simp [hrequired]⟩

private theorem onPort_sends {make : String → ToolCall} (hparams : tool.params = [("port", none)])
    (hpath : tool ≠ .startLog) (hrequired : Dispatch.requiredArgs tool.cmd = ["port"])
    (hmake : ∀ port, (make port).request = ⟨tool.cmd, ToolCall.portArg port⟩)
    (h : onPort make input = some call) : tool.Sends filePath input call.request := by
  obtain ⟨port, hport, hcall⟩ := Option.bind_eq_some_iff.mp h
  obtain rfl := Option.some.inj hcall
  have hsent : tool.sent filePath input = [("port", .string port)] := by
    simp [Tool.sent, Tool.given, hparams, hpath, Value.get_of_strArg hport]
  refine ⟨by rw [hsent, hmake]; rfl, ?_, by simp [hsent, hrequired]⟩
  rw [hsent]
  exact List.forall_mem_singleton.mpr (.string (by decide) (by decide) port)

private theorem onKeywords_sends {make : String → List String → ToolCall}
    (hparams : tool.params = [("port", none), ("keywords", none)]) (hpath : tool ≠ .startLog)
    (hrequired : Dispatch.requiredArgs tool.cmd = ["port", "keywords"])
    (hmake : ∀ port keywords,
      (make port keywords).request = ⟨tool.cmd, ToolCall.keywordArgs port keywords⟩)
    (h : onKeywords make input = some call) : tool.Sends filePath input call.request := by
  simp only [onKeywords, Option.bind_eq_bind, Option.bind_eq_some_iff] at h
  obtain ⟨port, hport, keywords, ⟨v, hv, hkeywords⟩, hcall⟩ := h
  obtain rfl := Option.some.inj hcall
  obtain ⟨rfl, hne, hempty⟩ := Value.eq_of_asKeywords hkeywords
  have hsent : tool.sent filePath input =
      [("port", .string port), ("keywords", .array (keywords.map .string))] := by
    simp [Tool.sent, Tool.given, hparams, hpath, Value.get_of_strArg hport, hv]
  refine ⟨by rw [hsent, hmake]; rfl, ?_, by simp [hsent, hrequired]⟩
  rw [hsent]
  exact List.forall_mem_cons.mpr ⟨.string (by decide) (by decide) port,
    List.forall_mem_singleton.mpr (.keywords hne hempty)⟩

private theorem openPort_sends (h : openPort input = some call) :
    Tool.openPort.Sends filePath input call.request := by
  simp only [openPort, Option.bind_eq_bind, Option.bind_eq_some_iff] at h
  obtain ⟨port, hport, baudRate, hbaud, dataBits, hdata, stopBits, hstop, parity, hparity,
    hcall⟩ := h
  obtain rfl := Option.some.inj hcall
  have hsent : Tool.openPort.sent filePath input =
      [("port", .string port), ("baudRate", .number baudRate), ("dataBits", .string dataBits),
        ("stopBits", .string stopBits), ("parity", .string parity)] := by
    simp [Tool.sent, Tool.given, Tool.params, Value.get_of_strArg hport,
      Value.or_of_fieldOr (fun _ _ => Value.eq_of_asNumber) hbaud,
      Value.or_of_fieldOr (fun _ _ => Value.eq_of_asEnum) hdata,
      Value.or_of_fieldOr (fun _ _ => Value.eq_of_asEnum) hstop,
      Value.or_of_fieldOr (fun _ _ => Value.eq_of_asEnum) hparity]
  refine ⟨by rw [hsent]; rfl, ?_, by simp [hsent, Dispatch.requiredArgs, Tool.cmd]⟩
  rw [hsent]
  exact List.forall_iff_forall_mem.mp
    ⟨.string (by decide) (by decide) port, .number (by decide) baudRate,
      .string (by decide) (by decide) dataBits, .string (by decide) (by decide) stopBits,
      .string (by decide) (by decide) parity⟩

private theorem writePort_sends (h : writePort input = some call) :
    Tool.writePort.Sends filePath input call.request := by
  simp only [writePort, Option.bind_eq_bind, Option.bind_eq_some_iff] at h
  obtain ⟨port, hport, data, hdata, encoding, hencoding, hcall⟩ := h
  obtain rfl := Option.some.inj hcall
  have hsent : Tool.writePort.sent filePath input =
      [("port", .string port), ("data", .string data), ("encoding", .string encoding)] := by
    simp [Tool.sent, Tool.given, Tool.params, Value.get_of_strArg hport, Value.get_of_strArg hdata,
      Value.or_of_fieldOr (fun _ _ => Value.eq_of_asEnum) hencoding]
  refine ⟨by rw [hsent]; rfl, ?_, by simp [hsent, Dispatch.requiredArgs, Tool.cmd]⟩
  rw [hsent]
  exact List.forall_iff_forall_mem.mp
    ⟨.string (by decide) (by decide) port, .string (by decide) (by decide) data,
      .string (by decide) (by decide) encoding⟩

private theorem readPort_sends (h : readPort input = some call) :
    Tool.readPort.Sends filePath input call.request := by
  simp only [readPort, Option.bind_eq_bind, Option.bind_eq_some_iff] at h
  obtain ⟨port, hport, clear, hclear, hcall⟩ := h
  obtain rfl := Option.some.inj hcall
  have hsent : Tool.readPort.sent filePath input =
      [("port", .string port), ("clear", .bool clear)] := by
    simp [Tool.sent, Tool.given, Tool.params, Value.get_of_strArg hport,
      Value.or_of_fieldOr (fun _ _ => Value.eq_of_asBool) hclear]
  refine ⟨by rw [hsent]; rfl, ?_, by simp [hsent, Dispatch.requiredArgs, Tool.cmd]⟩
  rw [hsent]
  exact List.forall_mem_cons.mpr ⟨.string (by decide) (by decide) port,
    List.forall_mem_singleton.mpr (.clear clear)⟩

private theorem startLog_sends (h : startLog filePath input = some call) :
    Tool.startLog.Sends filePath input call.request := by
  simp only [startLog, Option.bind_eq_bind, Option.bind_eq_some_iff] at h
  obtain ⟨port, hport, duration, hduration, stopKeyword, hkeyword, _, -, _, -, hcall⟩ := h
  obtain rfl := Option.some.inj hcall
  have hsent : Tool.startLog.sent filePath input =
      [("port", .string port)] ++ sentField "duration" .number duration ++
        sentField "stopKeyword" .string stopKeyword ++ [("filePath", .string filePath)] := by
    rw [Tool.sent, Tool.given, Tool.params]
    simp only [List.filterMap_cons, Value.get_of_strArg hport,
      Value.get_eq_of_optionalField (fun _ _ => Value.eq_of_asNumber) hduration,
      Value.get_eq_of_optionalField (fun _ _ => Value.eq_of_asStr) hkeyword]
    cases duration <;> cases stopKeyword <;> rfl
  refine ⟨by rw [hsent]; rfl, ?_, by simp [hsent, Dispatch.requiredArgs, Tool.cmd]⟩
  rw [hsent]
  simp only [List.forall_mem_append, List.forall_mem_singleton]
  exact ⟨⟨⟨.string (by decide) (by decide) port, .sentField (.number (by decide)) duration⟩,
    .sentField (.string (by decide) (by decide)) stopKeyword⟩,
    .string (by decide) (by decide) filePath⟩

private theorem updateLog_sends (h : updateLog input = some call) :
    Tool.updateLog.Sends filePath input call.request := by
  simp only [updateLog, Option.bind_eq_bind, Option.bind_eq_some_iff] at h
  obtain ⟨port, hport, stopKeyword, hkeyword, duration, hduration, hcall⟩ := h
  obtain rfl := Option.some.inj hcall
  have hsent : Tool.updateLog.sent filePath input =
      [("port", .string port)] ++ sentField "stopKeyword" .string stopKeyword ++
        sentField "duration" .number duration := by
    rw [Tool.sent, Tool.given, Tool.params]
    simp only [List.filterMap_cons, Value.get_of_strArg hport,
      Value.get_eq_of_optionalField (fun _ _ => Value.eq_of_asNumber) hduration,
      Value.get_eq_of_optionalField (fun _ _ => Value.eq_of_asStr) hkeyword]
    cases duration <;> cases stopKeyword <;> rfl
  refine ⟨by rw [hsent]; rfl, ?_, by simp [hsent, Dispatch.requiredArgs, Tool.cmd]⟩
  rw [hsent]
  simp only [List.forall_mem_append, List.forall_mem_singleton]
  exact ⟨⟨.string (by decide) (by decide) port,
    .sentField (.string (by decide) (by decide)) stopKeyword⟩,
    .sentField (.number (by decide)) duration⟩

private theorem openMonitor_sends (h : openMonitor input = some call) :
    Tool.openMonitor.Sends filePath input call.request := by
  simp only [openMonitor, Option.bind_eq_bind, Option.bind_eq_some_iff] at h
  obtain ⟨httpPort, hport, hcall⟩ := h
  obtain rfl := Option.some.inj hcall
  have hsent : Tool.openMonitor.sent filePath input = [("httpPort", .number httpPort)] := by
    simp [Tool.sent, Tool.given, Tool.params,
      Value.or_of_fieldOr (fun _ _ => Value.eq_of_asNumber) hport]
  refine ⟨by rw [hsent]; rfl, ?_, by simp [hsent, Dispatch.requiredArgs, Tool.cmd]⟩
  rw [hsent]
  exact List.forall_mem_singleton.mpr (.number (by decide) httpPort)

end Schema

/-- Every tool sends what it was given. -/
theorem Tool.sends {tool : Tool} {filePath : String} {input : Value} {call : ToolCall}
    (h : tool.schema filePath input = some call) : tool.Sends filePath input call.request := by
  cases tool with
  | listPorts | portStatus | closeMonitor => exact Schema.bare_sends rfl (by decide) rfl h
  | stopLog | closePort | subscribeRx | unsubscribeRx | unfilterRx =>
      exact Schema.onPort_sends rfl (by decide) rfl (fun _ => rfl) h
  | filterRx | addFilterRx => exact Schema.onKeywords_sends rfl (by decide) rfl (fun _ _ => rfl) h
  | openPort => exact Schema.openPort_sends h
  | writePort => exact Schema.writePort_sends h
  | readPort => exact Schema.readPort_sends h
  | startLog => exact Schema.startLog_sends h
  | updateLog => exact Schema.updateLog_sends h
  | openMonitor => exact Schema.openMonitor_sends h

/-- No key is sent twice. -/
theorem Tool.nodup_keys_sent (tool : Tool) (filePath : String) (input : Value) :
    ((tool.sent filePath input).map Prod.fst).Nodup := by
  have hkeys : ∀ params : List (String × Option Value),
      ((params.filterMap fun p => ((input.get p.1).or p.2).map fun v => (p.1, v)).map
        Prod.fst).Sublist (params.map Prod.fst) := by
    intro params
    induction params with
    | nil => exact List.Sublist.refl _
    | cons p params ih =>
        cases hv : (input.get p.1).or p.2 with
        | none => simpa [hv] using ih.cons p.1
        | some v => simpa [hv] using ih.cons_cons p.1
  have hsub : ((tool.sent filePath input).map Prod.fst).Sublist
      (tool.params.map Prod.fst ++ (if tool = .startLog then ["filePath"] else [])) := by
    rw [sent, List.map_append]
    refine (hkeys tool.params).append ?_
    split_ifs <;> exact List.Sublist.refl _
  refine List.Nodup.sublist hsub ?_
  cases tool <;> decide

/-- Whole numbers by their digits. -/
def showWhole (x : ℚ) : Option NumLit := some (.ofNat x.num.toNat)

theorem showWhole_eq (n : ℕ) (_ : n ≤ 2 ^ 53) : showWhole n = some (.ofNat n) := by
  simp [showWhole]

section Wire

variable (showNumber : ℚ → Option NumLit) (readFloat : NumLit → Rat)

/-- What is written for a number. -/
def stringifyNumber (x : ℚ) : Json := ((showNumber x).map Json.num).getD .null

mutual

/-- The fields of an object come as they were put there. -/
def Value.stringify : Value → Json
  | .null => .null
  | .bool b => .bool b
  | .number x => stringifyNumber showNumber x.value
  | .string s => .str s
  | .array vs => .arr (stringifyElements vs)
  | .object fields => .obj (stringifyFields fields)
termination_by structural v => v

def stringifyElements : List Value → List Json
  | [] => []
  | v :: vs => v.stringify :: stringifyElements vs
termination_by structural vs => vs

def stringifyFields : List (String × Value) → List (String × Json)
  | [] => []
  | (k, v) :: fs => (k, v.stringify) :: stringifyFields fs
termination_by structural fs => fs

end

/-- The value as the daemon has it. -/
def Value.received (v : Value) : Value := .ofJson readFloat (v.stringify showNumber)

/-- The line that `send` writes for a request, without its terminator. -/
def Request.toolLine (req : Request) : List UInt8 :=
  Utf8Lossy.encode (requestText req.cmd (req.args.stringify showNumber))

/-- The request as the daemon has it. -/
def Request.asReceived (req : Request) : Request :=
  ⟨req.cmd, req.args.received showNumber readFloat⟩

theorem daemonRequest_toolLine (req : Request) :
    daemonRequest readFloat (req.toolLine showNumber) =
      some (req.asReceived showNumber readFloat) := by
  rw [daemonRequest, Request.toolLine, requestOfLine_requestText]
  rfl

private theorem stringifyElements_eq (vs : List Value) :
    stringifyElements showNumber vs = vs.map fun v => v.stringify showNumber := by
  induction vs with
  | nil => rfl
  | cons v vs ih => exact congrArg (_ :: ·) ih

private theorem stringifyFields_eq (fields : List (String × Value)) :
    stringifyFields showNumber fields = fields.map fun f => (f.1, f.2.stringify showNumber) := by
  induction fields with
  | nil => rfl
  | cons f fields ih => exact congrArg (_ :: ·) ih

/-- Under every key of an object that repeats none, the daemon has what was sent. -/
theorem Value.get_received {fields : List (String × Value)}
    (hkeys : (fields.map Prod.fst).Nodup) (key : String) :
    ((Value.object fields).received showNumber readFloat).get key =
      (fields.lookup key).map (received showNumber readFloat) := by
  have hperm : (fieldsOfJson readFloat (stringifyFields showNumber fields)).reverse.Perm
      (fields.map fun f => (f.1, f.2.received showNumber readFloat)) := by
    rw [fieldsOfJson_eq, stringifyFields_eq, List.map_map]
    exact List.reverse_perm _
  have hnodup : ((fields.map fun f => (f.1, f.2.received showNumber readFloat)).map
      Prod.fst).Nodup := by
    rw [List.map_map]
    exact hkeys
  have hsame := lookup_eq_of_perm hperm.symm hnodup key
  rw [lookup_map_snd] at hsame
  exact hsame.symm

theorem Value.received_number (x : Number) :
    (Value.number x).received showNumber readFloat =
      ((showNumber x.value).map fun lit => .number (.ofLit readFloat lit)).getD .null := by
  rw [received, stringify, stringifyNumber]
  cases showNumber x.value <;> rfl

private theorem Value.received_strings (keywords : List String) :
    (Value.array (keywords.map .string)).received showNumber readFloat =
      .array (keywords.map .string) := by
  simp only [received, stringify, ofJson, stringifyElements_eq, elementsOfJson_eq, List.map_map]
  rfl

end Wire

/-- What has become of a value. A number is read from its text, if it has one. -/
inductive Value.Arrives : Value → Value → Prop
  | same {v : Value} (h : v.asNumber = none) : Arrives v v
  | number {x y : Number} (h : ∀ n : ℕ, n ≤ 2 ^ 53 → x.value = n → y = .posInt n) :
      Arrives (.number x) (.number y)
  | null {x : Number} (h : ∀ n : ℕ, n ≤ 2 ^ 53 → x.value ≠ n) : Arrives (.number x) .null

/-- What the daemon makes of a checked input: the command of the tool and no argument
that it does not know, with the values that were sent. Nothing is missing, there is a
keyword where there must be one, and no answer says that the request was wrong. -/
structure Tool.Reaches (tool : Tool) (filePath : String) (input : Value) (req : Request) :
    Prop where
  cmd : req.cmd = tool.cmd
  args : ∀ key, Option.Rel Value.Arrives ((tool.sent filePath input).lookup key)
    (req.args.get key)
  typed : ∀ key v, req.args.get key = some v →
    ToolArg (key, v) ∨ v = .null ∧ key ∈ Dispatch.numberArgs
  keywords : "keywords" ∈ Dispatch.requiredArgs req.cmd →
    ∃ keywords ≠ [], keywordsArg req.args = some keywords
  understood : req.Understood

section

variable {showNumber : ℚ → Option NumLit} {readFloat : NumLit → Rat}

/-- One argument. -/
theorem ToolArg.received (hshow : ∀ n : ℕ, n ≤ 2 ^ 53 → showNumber n = some (.ofNat n))
    {key : String} {v : Value} (h : ToolArg (key, v)) :
    v.Arrives (v.received showNumber readFloat) ∧
      (ToolArg (key, v.received showNumber readFloat) ∨
        v.received showNumber readFloat = .null ∧ key ∈ Dispatch.numberArgs) := by
  cases h with
  | string hkey hother s => exact ⟨.same rfl, Or.inl (.string hkey hother s)⟩
  | number hkey x =>
      rw [Value.received_number]
      cases hx : showNumber x.value with
      | none =>
          refine ⟨.null fun n hn heq => ?_, Or.inr ⟨rfl, hkey⟩⟩
          rw [heq, hshow n hn] at hx
          cases hx
      | some lit =>
          refine ⟨.number fun n hn heq => ?_, Or.inl (.number hkey _)⟩
          rw [heq, hshow n hn, Option.some.injEq] at hx
          exact hx ▸ Number.ofLit_ofNat readFloat (Nat.lt_of_le_of_lt hn (by decide))
  | clear b => exact ⟨.same rfl, Or.inl (.clear b)⟩
  | keywords hne hempty =>
      rw [Value.received_strings]
      exact ⟨.same rfl, Or.inl (.keywords hne hempty)⟩

theorem ToolArg.strArg {args : Value} {key : String} {v : Value} (hget : args.get key = some v)
    (h : ToolArg (key, v)) (hkey : key ∈ ["port", "data"]) : ∃ s, args.strArg key = some s := by
  cases h with
  | string _ _ s => exact ⟨s, by rw [Value.strArg, hget]; rfl⟩
  | number hnumber x =>
      have hdisjoint : ∀ key ∈ ["port", "data"], key ∉ Dispatch.numberArgs := by decide
      exact absurd hnumber (hdisjoint key hkey)
  | clear b => exact absurd hkey (by decide)
  | keywords hne hempty => exact absurd hkey (by decide)

/-- The keywords that are registered are those of the input. -/
theorem keywordsArg_strings {args : Value} {keywords : List String}
    (hget : args.get "keywords" = some (.array (keywords.map .string)))
    (hempty : "" ∉ keywords) : keywordsArg args = some keywords := by
  have hstrings : (keywords.map Value.string).filterMap Value.asStr = keywords := by
    rw [List.filterMap_map]
    exact List.filterMap_some
  rw [keywordsArg, hget]
  dsimp only
  rw [hstrings, List.filter_eq_self.mpr]
  intro k hk
  exact decide_eq_true fun heq => hempty (heq ▸ hk)

/-- The daemon reads what a tool sends. -/
theorem Tool.reaches (hshow : ∀ n : ℕ, n ≤ 2 ^ 53 → showNumber n = some (.ofNat n)) {tool : Tool}
    {filePath : String} {input : Value} {call : ToolCall}
    (h : tool.schema filePath input = some call) :
    tool.Reaches filePath input (call.request.asReceived showNumber readFloat) := by
  obtain ⟨hrequest, htyped, hrequired⟩ := Tool.sends h
  have hkeys := tool.nodup_keys_sent filePath input
  generalize htool : tool.sent filePath input = fields at hrequest htyped hrequired hkeys
  have hget : ∀ key, (call.request.asReceived showNumber readFloat).args.get key =
      (fields.lookup key).map (Value.received showNumber readFloat) := by
    intro key
    rw [hrequest]
    exact Value.get_received showNumber readFloat hkeys key
  have hcmd : (call.request.asReceived showNumber readFloat).cmd = tool.cmd :=
    congrArg Request.cmd hrequest
  have hargs : ∀ key v, (call.request.asReceived showNumber readFloat).args.get key = some v →
      ToolArg (key, v) ∨ v = .null ∧ key ∈ Dispatch.numberArgs := by
    intro key v hv
    obtain ⟨u, hu, rfl⟩ := Option.map_eq_some_iff.mp ((hget key).symm.trans hv)
    exact (ToolArg.received hshow (htyped _ ((lookup_eq_some_iff_mem hkeys).mp hu))).2
  have hpresent : ∀ key ∈ Dispatch.requiredArgs tool.cmd, ∃ v,
      (call.request.asReceived showNumber readFloat).args.get key = some v := by
    intro key hkey
    obtain ⟨f, hf, rfl⟩ := List.mem_map.mp (hrequired key hkey)
    exact ⟨_, by rw [hget, (lookup_eq_some_iff_mem hkeys).mpr hf, Option.map_some]⟩
  refine ⟨hcmd, fun key => ?_, hargs, fun hkeyword => ?_, Request.Complete.understood ⟨?_, ?_, ?_⟩⟩
  · rw [htool, hget]
    cases hlookup : fields.lookup key with
    | none => exact .none
    | some v =>
        exact .some (ToolArg.received hshow
          (htyped _ ((lookup_eq_some_iff_mem hkeys).mp hlookup))).1
  · obtain ⟨v, hv⟩ := hpresent "keywords" (hcmd ▸ hkeyword)
    generalize hkey : "keywords" = key at hv
    obtain htypedv | ⟨-, hnumber⟩ := hargs key v hv
    swap
    · exact absurd (hkey ▸ hnumber) (by decide)
    cases htypedv with
    | keywords hne hempty => exact ⟨_, hne, keywordsArg_strings hv hempty⟩
    | string _ hother => exact absurd hkey.symm hother
    | number hnumber => exact absurd (hkey ▸ hnumber) (by decide)
    | clear b => exact absurd hkey (by decide)
  · rw [hcmd]
    cases tool <;> decide
  · intro hport
    obtain ⟨v, hv⟩ := hpresent "port" (hcmd ▸ hport)
    exact ToolArg.strArg hv ((hargs _ v hv).resolve_right fun h => absurd h.2 (by decide))
      (by decide)
  · intro hdata
    obtain ⟨v, hv⟩ := hpresent "data" (hcmd ▸ hdata)
    exact ToolArg.strArg hv ((hargs _ v hv).resolve_right fun h => absurd h.2 (by decide))
      (by decide)

end

end Commmon

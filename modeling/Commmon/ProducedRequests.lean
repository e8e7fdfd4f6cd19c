/-
# Requests with parameters

What a client asks for is in its own request, and what the daemon has is read from the line
that the client writes. A tool's numbers go through `JSON.stringify`, which may round them. The
prompt writes unsigned integers alone, with all their digits.
-/

import Commmon.ToolLines

set_option autoImplicit false

namespace Commmon

/-- Who writes a request. -/
inductive Writer
  | tool
  | prompt

/-- How numbers are written. -/
def Writer.shows (showNumber : ℚ → Option NumLit) : Writer → ℚ → Option NumLit
  | tool => showNumber
  | prompt => showWhole

section

variable (showNumber : ℚ → Option NumLit) (showFloat : Rat → NumLit) (readFloat : NumLit → Rat)

/-- The requests that the tools and the prompt make, and what the daemon has of them. -/
inductive Request.Produced : Writer → Request → Request → Prop
  | tool {tool : Tool} {filePath : String} {input : Value} {call : ToolCall} {got : Request}
      (h : tool.schema filePath input = some call)
      (hread : daemonRequest readFloat (call.request.toolLine showNumber) = some got) :
      Produced .tool call.request got
  | typed {line : String} {req got : Request} (h : Repl.parseCommand line = some req)
      (hread : daemonRequest readFloat (Repl.requestLine showFloat req) = some got) :
      Produced .prompt req got

/-- The daemon has the command, and what has been written for each argument. -/
structure Request.Carried (write : ℚ → Option NumLit) (req got : Request) : Prop where
  cmd : got.cmd = req.cmd
  args : ∀ key, got.args.get key = (req.args.get key).map (Value.received write readFloat)

end

section

variable {showNumber : ℚ → Option NumLit} {showFloat : Rat → NumLit} {readFloat : NumLit → Rat}
  {writer : Writer} {req got : Request}

/-- The prompt's arguments are read as they are. -/
theorem Value.Plain.received {v : Value} (h : v.Plain) : v.received showWhole readFloat = v := by
  cases v with
  | string s => rfl
  | number x =>
      cases x with
      | posInt n =>
          have hwritten : showWhole (Number.posInt n).value = some (.ofNat n) := by
            simp [showWhole, Number.value]
          rw [received_number, hwritten, Option.map_some, Option.getD_some,
            Number.ofLit_ofNat readFloat h]
      | negInt | float => exact h.elim
  | null | bool | array | object => exact h.elim

theorem Value.PlainArgs.received {args : Value} (h : args.PlainArgs) (key : String) :
    (args.get key).map (Value.received showWhole readFloat) = args.get key := by
  cases h with
  | null => rfl
  | object fields hkeys hplain =>
      cases hget : (Value.object fields).get key with
      | none => rfl
      | some v =>
          have hmem : (key, v) ∈ fields := (lookup_eq_some_iff_mem hkeys).mp hget
          rw [Option.map_some, Value.Plain.received (hplain _ hmem)]

theorem Request.Produced.carried (h : req.Produced showNumber showFloat readFloat writer got) :
    req.Carried readFloat (writer.shows showNumber) got := by
  cases h with
  | @tool tool filePath input call _ hcall hread =>
      rw [daemonRequest_toolLine, Option.some.injEq] at hread
      have hrequest := (Tool.sends hcall).request
      subst hread
      refine ⟨rfl, fun key => ?_⟩
      rw [hrequest]
      exact Value.get_received showNumber readFloat (tool.nodup_keys_sent filePath input) key
  | typed hline hread =>
      have hplain := (Repl.parseCommand_sent hline).plainArgs
      obtain ⟨-, args, hargs, hget⟩ := Repl.daemonRequest_requestLine readFloat showFloat hplain
      obtain rfl := Option.some.inj (hread.symm.trans hargs)
      exact ⟨rfl, fun key => (hget key).trans (hplain.received key).symm⟩

end

/-- The settings that a request names. -/
structure LineRequest where
  baudRate : Number
  dataBits : Option String
  stopBits : Option String
  parity : Option String

def LineRequest.ofArgs (args : Value) : Option LineRequest := do
  let baudRate ← (args.get "baudRate").bind Value.asNumber
  let dataBits ← args.optionalField "dataBits" Value.asStr
  let stopBits ← args.optionalField "stopBits" Value.asStr
  let parity ← args.optionalField "parity" Value.asStr
  return ⟨baudRate, dataBits, stopBits, parity⟩

namespace Repl

private theorem lineRequest_openArgs (port : String) (rest : List String) :
    (LineRequest.ofArgs (openArgs port rest)).isSome = true := by
  unfold openArgs
  cases rest[1]? with
  | none => rfl
  | some config =>
      simp only [Option.map_some, Option.getD_some, lineSettings]
      split <;> rfl

/-- The command that opens a port names its settings. -/
theorem lineRequest_of_parseCommand {line : String} {req : Request}
    (h : parseCommand line = some req) (hcmd : req.cmd = "open_port") :
    (LineRequest.ofArgs req.args).isSome = true := by
  unfold parseCommand at h
  split at h
  · simp at h
  · unfold parseWords at h
    split at h <;> simp only [Option.some.injEq, reduceCtorEq] at h <;> subst h
    all_goals first
      | exact lineRequest_openArgs _ _
      | simp [onPort] at hcmd

/-- A number that the prompt sends is one. -/
theorem optionalField_of_parseCommand {line : String} {req : Request}
    (h : parseCommand line = some req) {key : String} (hkey : key ∈ Dispatch.numberArgs) :
    ∃ asked, req.args.optionalField key Value.asNumber = some asked := by
  have hspoken := (parseCommand_sent h).spoken fun _ => rfl
  unfold Value.optionalField
  cases hget : req.args.get key with
  | none => exact ⟨none, rfl⟩
  | some v =>
      obtain ⟨n, -, rfl⟩ := hspoken.numbers key hkey v hget
      exact ⟨some (.posInt n), rfl⟩

end Repl

namespace Schema

variable {input : Value} {call : ToolCall}

/-- The settings that the tool sends are texts. -/
theorem lineRequest_of_openPort (h : openPort input = some call) :
    (LineRequest.ofArgs call.request.args).isSome = true := by
  simp only [openPort, Option.bind_eq_bind, Option.bind_eq_some_iff] at h
  obtain ⟨port, -, baudRate, -, dataBits, -, stopBits, -, parity, -, hcall⟩ := h
  obtain rfl := Option.some.inj hcall
  rfl

private theorem httpPort_of_openMonitor (h : openMonitor input = some call) :
    ∃ asked, call.request.args.optionalField "httpPort" Value.asNumber = some asked := by
  simp only [openMonitor, Option.bind_eq_bind, Option.bind_eq_some_iff] at h
  obtain ⟨httpPort, -, hcall⟩ := h
  obtain rfl := Option.some.inj hcall
  exact ⟨some httpPort, rfl⟩

private theorem duration_of_startLog {filePath : String} (h : startLog filePath input = some call) :
    ∃ asked, call.request.args.optionalField "duration" Value.asNumber = some asked := by
  simp only [startLog, Option.bind_eq_bind, Option.bind_eq_some_iff] at h
  obtain ⟨port, -, duration, -, stopKeyword, -, _, -, _, -, hcall⟩ := h
  obtain rfl := Option.some.inj hcall
  refine ⟨duration, ?_⟩
  cases duration <;> cases stopKeyword <;> rfl

private theorem duration_of_updateLog (h : updateLog input = some call) :
    ∃ asked, call.request.args.optionalField "duration" Value.asNumber = some asked := by
  simp only [updateLog, Option.bind_eq_bind, Option.bind_eq_some_iff] at h
  obtain ⟨port, -, stopKeyword, -, duration, -, hcall⟩ := h
  obtain rfl := Option.some.inj hcall
  refine ⟨duration, ?_⟩
  cases duration <;> cases stopKeyword <;> rfl

end Schema

namespace Request.Produced

variable {showNumber : ℚ → Option NumLit} {showFloat : Rat → NumLit} {readFloat : NumLit → Rat}
  {writer : Writer} {req got : Request}

/-- A produced `open_port` names its settings. -/
theorem lineRequest (h : req.Produced showNumber showFloat readFloat writer got)
    (hcmd : req.cmd = "open_port") : ∃ asked, LineRequest.ofArgs req.args = some asked := by
  rw [← Option.isSome_iff_exists]
  cases h with
  | @tool tool filePath input call _ hcall hread =>
      have htool : tool.cmd = "open_port" :=
        (congrArg Request.cmd (Tool.sends hcall).request).symm.trans hcmd
      cases tool with
      | openPort => exact Schema.lineRequest_of_openPort hcall
      | _ => exact absurd htool (by decide)
  | typed hline hread => exact Repl.lineRequest_of_parseCommand hline hcmd

/-- A produced `open_monitor` asks for a number, or for none. -/
theorem httpPort (h : req.Produced showNumber showFloat readFloat writer got)
    (hcmd : req.cmd = "open_monitor") :
    ∃ asked, req.args.optionalField "httpPort" Value.asNumber = some asked := by
  cases h with
  | @tool tool filePath input call _ hcall hread =>
      have htool : tool.cmd = "open_monitor" :=
        (congrArg Request.cmd (Tool.sends hcall).request).symm.trans hcmd
      cases tool with
      | openMonitor => exact Schema.httpPort_of_openMonitor hcall
      | _ => exact absurd htool (by decide)
  | typed hline hread => exact Repl.optionalField_of_parseCommand hline (by decide)

/-- The duration of a produced request is a number, or absent. -/
theorem duration (h : req.Produced showNumber showFloat readFloat writer got)
    (hcmd : req.cmd ∈ ["start_log", "update_log"]) :
    ∃ asked, req.args.optionalField "duration" Value.asNumber = some asked := by
  cases h with
  | @tool tool filePath input call _ hcall hread =>
      have htool : tool.cmd ∈ ["start_log", "update_log"] := by
        rwa [(Tool.sends hcall).request] at hcmd
      cases tool with
      | startLog => exact Schema.duration_of_startLog hcall
      | updateLog => exact Schema.duration_of_updateLog hcall
      | _ => exact absurd htool (by decide)
  | typed hline hread => exact Repl.optionalField_of_parseCommand hline (by decide)

end Request.Produced

end Commmon

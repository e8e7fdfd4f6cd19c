/-
# What the daemon reads of the tools

The MCP server is joined to the daemon as a program that writes a line for each call of a
tool. The daemon takes up the calls in their order, and each as the input was given.

One line can be refused. A label can be cut through a character, and then the path that
`start_log` makes of it is no text. The answer to that call is the daemon's error.
-/

import Commmon.Attachment
import Commmon.StartLogPath

set_option autoImplicit false

namespace Commmon

open RecvLoop (newline)

/-- The path of `start_log`, if it is text. -/
def Workplace.pathText (w : Workplace) (time : IsoTime) (input : Value) : Option String :=
  (Utf16.text? (w.startLogPath time (.ofValue input))).map String.ofList

/-- A call of a tool that its schema has let through, where and when it is made. A call of
`start_log` whose directory cannot be made sends nothing, and is none of these. -/
structure ToolUse where
  tool : Tool
  place : Workplace
  time : IsoTime
  input : Value
  call : ToolCall
  accepted : tool.schema ((place.pathText time input).getD "") input = some call

namespace ToolUse

/-- The path that a log is to be written to. -/
def path? (use : ToolUse) : Option String := use.place.pathText use.time use.input

/-- A call of `start_log` with a path that is no text. -/
def Garbled (use : ToolUse) : Prop := use.tool = .startLog ∧ use.path? = none

instance (use : ToolUse) : Decidable use.Garbled := inferInstanceAs (Decidable (_ ∧ _))

variable (showNumber : ℚ → Option NumLit) (readFloat : NumLit → Rat) (use : ToolUse)

def line : List UInt8 :=
  if use.tool = .startLog then
    use.place.startLogLine showNumber use.time (.ofValue use.input)
  else use.call.request.toolLine showNumber

/-- The request as the daemon has it. -/
def request : Option Request :=
  if use.Garbled then none else some (use.call.request.asReceived showNumber readFloat)

end ToolUse

section

variable {showNumber : ℚ → Option NumLit} {readFloat : NumLit → Rat} {w : Workplace}
  {time : IsoTime} {input : Value} {path : String}

private theorem Workplace.pathText_eq_some :
    w.pathText time input = some path ↔ utf16 path = w.startLogPath time (.ofValue input) := by
  rw [pathText, Option.map_eq_some_iff]
  constructor
  · rintro ⟨cs, hcs, rfl⟩
    rw [Utf16.text?_eq_some.mp hcs]
    exact congrArg Utf16.encode String.toList_ofList
  · intro h
    exact ⟨path.toList, Utf16.text?_eq_some.mpr h.symm, String.ofList_toList⟩

private theorem Workplace.not_sendable_of_pathText (h : w.pathText time input = none) :
    ¬ w.Sendable time (.ofValue input) := by
  rintro ⟨-, -, htext⟩
  obtain ⟨path, hpath⟩ := exists_utf16 htext
  rw [pathText_eq_some.mpr hpath] at h
  cases h

/-- A path that is text is sent with the other arguments. -/
theorem Workplace.startLogLine_of_pathText {call : ToolCall} (h : w.pathText time input = some path)
    (hcall : Schema.startLog path input = some call) :
    w.startLogLine showNumber time (.ofValue input) = call.request.toolLine showNumber := by
  simp only [Schema.startLog, Option.bind_eq_bind, Option.bind_eq_some_iff] at hcall
  obtain ⟨port, hport, duration, hduration, stopKeyword, hkeyword, _, -, _, -, hcall⟩ := hcall
  have hgiven : (StartLogInput.ofValue input).duration = duration := by
    have hget := Value.get_eq_of_optionalField (fun _ _ => Value.eq_of_asNumber) hduration
    rw [StartLogInput.ofValue, hget]
    cases duration <;> rfl
  have hkeyword : input.strArg "stopKeyword" = stopKeyword := by
    have hget := Value.get_eq_of_optionalField (fun _ _ => Value.eq_of_asStr) hkeyword
    rw [Value.strArg, hget]
    cases stopKeyword <;> rfl
  rw [← Option.some.inj hcall, ← hgiven]
  refine startLogLine_eq ?_ ?_ (pathText_eq_some.mp h)
  · rw [StartLogInput.ofValue, hport, Option.getD_some]
  · rw [StartLogInput.ofValue, hkeyword]

/-- A line that is not read is refused. -/
theorem readLine_startLogLine (h : w.pathText time input = none) :
    readLine readFloat (w.startLogLine showNumber time (.ofValue input)) = .refused := by
  have hparse := parse_startLogText showNumber
    (Workplace.not_sendable_of_pathText h)
  rw [Json.printTexts] at hparse
  rw [Workplace.startLogLine, Json.printTexts, readLine, textOf_eq_some.mpr rfl]
  simp only [trim_braces, hparse]
  rfl

/-- Every line is read as the call's request, or refused if it makes none. -/
theorem ToolUse.asks (use : ToolUse) :
    readLine readFloat (use.line showNumber) = .ofRequest (use.request showNumber readFloat) := by
  obtain ⟨tool, place, time, input, call, accepted⟩ := use
  by_cases htool : tool = .startLog
  · subst htool
    cases hpath : place.pathText time input with
    | none =>
        have hrequest : (⟨.startLog, place, time, input, call, accepted⟩ : ToolUse).Garbled :=
          ⟨rfl, hpath⟩
        rw [line, if_pos rfl, readLine_startLogLine hpath, request, if_pos hrequest]
        rfl
    | some path =>
        have hrequest : ¬ (⟨.startLog, place, time, input, call, accepted⟩ : ToolUse).Garbled :=
          fun h => by simpa [path?, hpath] using h.2
        have hcall : Schema.startLog path input = some call := by
          rw [hpath, Option.getD_some] at accepted
          exact accepted
        rw [line, if_pos rfl, Workplace.startLogLine_of_pathText hpath hcall, request,
          if_neg hrequest]
        exact readLine_of_daemonRequest (daemonRequest_toolLine showNumber readFloat call.request)
  · rw [line, if_neg htool, request, if_neg fun h => htool h.1]
    exact readLine_of_daemonRequest (daemonRequest_toolLine showNumber readFloat call.request)

theorem ToolUse.one_line (use : ToolUse) : newline ∉ use.line showNumber := by
  unfold line
  split_ifs
  · exact newline_not_mem_startLogLine
  · exact newline_not_mem_encode_print _

/-- The request is what the input asks for. -/
theorem ToolUse.reaches (hshow : ∀ n : ℕ, n ≤ 2 ^ 53 → showNumber n = some (.ofNat n))
    {use : ToolUse} {req : Request} (h : use.request showNumber readFloat = some req) :
    ∃ path : String, (use.tool = .startLog → use.path? = some path) ∧
      use.tool.Reaches path use.input req := by
  rw [request] at h
  split_ifs at h with hgarbled
  obtain rfl := Option.some.inj h
  refine ⟨use.path?.getD "", fun htool => ?_, Tool.reaches hshow use.accepted⟩
  cases hpath : use.path? with
  | none => exact absurd ⟨htool, hpath⟩ hgarbled
  | some path => rfl

end

section

variable (showNumber : ℚ → Option NumLit) (readFloat : NumLit → Rat)

/-- The MCP server's socket as a program at the other end. What has arrived is kept as
the data events that it came in. -/
def toolPeer : Peer readFloat where
  State := List (List UInt8)
  start := []
  feed chunks chunk := chunks ++ [chunk]
  Call := ToolUse
  line := ToolUse.line showNumber
  request := ToolUse.request showNumber readFloat
  one_line := ToolUse.one_line
  asks := ToolUse.asks

variable {showNumber} {readFloat} {showFloat : Rat → NumLit} {c : ClientId}

end

end Commmon

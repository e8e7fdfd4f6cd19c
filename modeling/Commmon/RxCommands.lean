/-
# The commands of the C++ client

The client formats a command into a buffer of 256 bytes and escapes nothing. The
daemon reads a line of UTF-8 as JSON. What it reads is never longer than the line,
so a port name is only read back if all of it stands in the line as it is.
-/

import Commmon.Lib.JsonReading
import Commmon.RxFraming

set_option autoImplicit false

namespace Commmon

open RxClient (bytes cStr)
open Utf8Lossy (Whole chars encode)

/-- A C string, without its terminator. -/
structure CString where
  bytes : List UInt8
  no_nul : 0 ∉ bytes

/-- `snprintf` leaves room for the terminator. -/
def snprintf (size : ℕ) (text : List UInt8) : List UInt8 := text.take (size - 1)

def formatCommand (cmd : String) (portArg : CString) : List UInt8 :=
  bytes "\x7b\"cmd\":\"" ++ (bytes cmd ++ (bytes "\",\"args\":\x7b\"port\":\"" ++
    (portArg.bytes ++ bytes "\"\x7d\x7d\n")))

/-- What a call returns, and what it has sent. -/
structure SendResult where
  returned : Bool
  sent : List UInt8

/-- `SendCommand`. A blocking socket takes all of the bytes or fails. -/
def sendCommand (connected accepted : Bool) (cmd : String) (portArg : CString) : SendResult :=
  if !connected then ⟨false, []⟩
  else
    let buf := cStr (snprintf 256 (formatCommand cmd portArg))
    if accepted then ⟨true, buf⟩ else ⟨false, []⟩

inductive SdkCall
  | subscribe (comPort : CString)
  | unsubscribe (comPort : CString)

namespace SdkCall

def cmd : SdkCall → String
  | subscribe _ => "subscribe_rx"
  | unsubscribe _ => "unsubscribe_rx"

def port : SdkCall → CString
  | subscribe comPort => comPort
  | unsubscribe comPort => comPort

/-- `Subscribe` and `Unsubscribe`. -/
def perform (connected accepted : Bool) (call : SdkCall) : SendResult :=
  sendCommand connected accepted call.cmd call.port

/-- The longest port name that fits. -/
def maxPort : SdkCall → ℕ
  | subscribe _ => 213
  | unsubscribe _ => 211

end SdkCall

/-- A line that is not UTF-8 is an error. -/
def textOf (line : List UInt8) : Option (List Char) :=
  if encode (chars line) = line then some (chars line) else none

/-- A request as it is parsed. -/
structure ParsedRequest where
  cmd : String
  args : Json

/-- The derived deserializer of `Request`. An object has its fields in any order
and neither of them twice, an array has them in their order. -/
def requestOf : Json → Option ParsedRequest
  | .obj fields =>
      match fields.filter (·.1 = "cmd"), fields.filter (·.1 = "args") with
      | [(_, .str cmd)], [] => some ⟨cmd, .null⟩
      | [(_, .str cmd)], [(_, args)] => some ⟨cmd, args⟩
      | _, _ => none
  | .arr [.str cmd] => some ⟨cmd, .null⟩
  | .arr [.str cmd, args] => some ⟨cmd, args⟩
  | _ => none

/-- What `handle_client` makes of a line. -/
def requestOfLine (line : List UInt8) : Option ParsedRequest :=
  (textOf line).bind fun text => (Json.parse (trim isWhitespace (stripReturn text))).bind requestOf

/-- The line asks for the command, with the port that it was called with. -/
def Asks (line : List UInt8) (call : SdkCall) : Prop :=
  ∃ req name, requestOfLine line = some req ∧ req.cmd = call.cmd ∧
    req.args.get "port" = some (.str name) ∧ bytes name = call.port.bytes

/-- The call has sent one line that asks for its command, or it has returned false
and sent nothing. -/
def SendResult.Valid (r : SendResult) (call : SdkCall) : Prop :=
  (r.returned = false ∧ r.sent = []) ∨
    ∃ line, r.sent = line ++ [RecvLoop.newline] ∧ RecvLoop.newline ∉ line ∧ Asks line call

/-- The port name is UTF-8 with nothing to escape, and fits. -/
structure SdkCall.Sendable (call : SdkCall) : Prop where
  utf8 : Whole call.port.bytes
  plain : ∀ b ∈ call.port.bytes, b ≠ 0x22 ∧ b ≠ 0x5C ∧ 0x20 ≤ b.toNat
  fits : call.port.bytes.length ≤ call.maxPort

private theorem length_cmd (call : SdkCall) : (bytes call.cmd).length + call.maxPort = 225 := by
  have hlengths : (bytes "subscribe_rx").length = 12 ∧ (bytes "unsubscribe_rx").length = 14 := by
    decide
  cases call with
  | subscribe comPort => exact congrArg (· + 213) hlengths.1
  | unsubscribe comPort => exact congrArg (· + 211) hlengths.2

private theorem length_formatCommand (call : SdkCall) :
    (formatCommand call.cmd call.port).length + call.maxPort = 255 + call.port.bytes.length := by
  have hopen : (bytes "\x7b\"cmd\":\"").length = 8 := by decide
  have hmiddle : (bytes "\",\"args\":\x7b\"port\":\"").length = 18 := by decide
  have hclose : (bytes "\"\x7d\x7d\n").length = 4 := by decide
  have hcmd := length_cmd call
  simp only [formatCommand, List.length_append, hopen, hmiddle, hclose]
  omega

private theorem length_encode (cs : List Char) : (encode cs).length = Json.weight cs := by
  induction cs with
  | nil => rfl
  | cons c cs ih =>
      rw [Utf8Lossy.encode_cons, List.length_append, ih, String.length_utf8EncodeChar,
        Json.weight_cons]

private theorem length_bytes (s : String) :
    (bytes s).length = Json.weight s.toList := length_encode _

/-- The bytes of a text, if that is what the line holds. -/
theorem textOf_eq_some {line : List UInt8} {text : List Char} :
    textOf line = some text ↔ line = encode text := by
  unfold textOf
  constructor
  · intro h
    split_ifs at h with hline
    exact Option.some.inj h ▸ hline.symm
  · rintro rfl
    rw [Utf8Lossy.chars_encode, if_pos rfl]

private theorem mem_of_get {v : Json} {key : String} {w : Json} (h : v.get key = some w) :
    ∃ fields, v = .obj fields ∧ (key, w) ∈ fields := by
  cases v with
  | obj fields =>
      obtain ⟨l, r, hsplit, -⟩ := List.lookup_eq_some_iff.mp h
      refine ⟨fields, rfl, List.mem_reverse.mp ?_⟩
      rw [hsplit]
      simp
  | _ => simp [Json.get] at h

/-- The fields of a request that has arguments. -/
theorem mem_of_requestOf {fields : List (String × Json)} {req : ParsedRequest}
    (hreq : requestOf (.obj fields) = some req) (hargs : req.args ≠ .null) :
    ("cmd", .str req.cmd) ∈ fields ∧ ("args", req.args) ∈ fields := by
  unfold requestOf at hreq
  split at hreq
  · rename_i hobj
    obtain rfl := Json.obj.inj hobj
    split at hreq
    · obtain rfl := Option.some.inj hreq
      exact absurd rfl hargs
    · rename_i k cmd k' args hcmd hargs'
      obtain rfl := Option.some.inj hreq
      have hmem := (List.mem_filter.mp (hcmd ▸ List.mem_cons_self))
      have hmem' := (List.mem_filter.mp (hargs' ▸ List.mem_cons_self))
      obtain rfl : k = "cmd" := of_decide_eq_true hmem.2
      obtain rfl : k' = "args" := of_decide_eq_true hmem'.2
      exact ⟨hmem.1, hmem'.1⟩
    · simp at hreq
  all_goals simp_all

/-- A request with a port: its two fields alone need this many bytes. -/
theorem size_of_requestOf {fields : List (String × Json)} {req : ParsedRequest} {name : String}
    (hreq : requestOf (.obj fields) = some req)
    (hport : req.args.get "port" = some (.str name)) :
    Json.weight req.cmd.toList + Json.weight name.toList + 29 ≤
        Json.size (Json.tokens (.obj fields)) ∧
      .text name ∈ Json.tokens (.obj fields) := by
  obtain ⟨inner, hargs, hname⟩ := mem_of_get hport
  obtain ⟨hcmd, hmem⟩ := mem_of_requestOf hreq (by rw [hargs]; simp)
  rw [hargs] at hmem
  have hweights : Json.weight "cmd".toList = 3 ∧ Json.weight "args".toList = 4 ∧
      Json.weight "port".toList = 4 := by decide
  have houter := Json.fieldSize_add_le_of_mem (by simp) hcmd hmem
  have hinner := Json.fieldSize_le_of_mem hname
  have hstr : ∀ t : String, Json.size (Json.tokens (.str t)) = Json.weight t.toList + 2 := by
    intro t
    simp [Json.tokens, Json.Token.size]
  constructor
  · simp only [Json.fieldSize, Json.size_tokens_obj, hstr, hweights] at houter hinner ⊢
    omega
  · rw [Json.text_mem_tokens_obj]
    refine ⟨_, hmem, Or.inr ?_⟩
    rw [Json.text_mem_tokens_obj]
    exact ⟨_, hname, Or.inr (Json.text_mem_tokens_str.mpr rfl)⟩

/-- A line that begins with a brace is cut at its end only. -/
theorem trimmed_prefix {text tail : List Char} (htext : text = '{' :: tail) :
    trim isWhitespace (stripReturn text) <+: text := by
  have hstrip : stripReturn text <+: text := by
    unfold stripReturn
    split_ifs
    · exact List.dropLast_prefix _
    · exact List.prefix_refl _
  rw [trim]
  cases hfront : stripReturn text with
  | nil => exact List.nil_prefix
  | cons c front =>
      rw [hfront, htext, List.cons_prefix_cons] at hstrip
      have hopen : ¬ isWhitespace c = true := by
        rw [hstrip.1]
        decide
      rw [List.dropWhile_cons_of_neg hopen, htext]
      exact (List.rdropWhile_prefix _ _).trans (List.cons_prefix_cons.mpr hstrip)

/-- What is read back from a line. If a request with a port is read from it,
the line is long enough for that port, and if it is no longer then nothing in the
port name is escaped. -/
theorem length_of_requestOfLine {line : List UInt8} {rest : List UInt8} {req : ParsedRequest}
    {name : String} (hline : line = 0x7B :: rest) (hreq : requestOfLine line = some req)
    (hport : req.args.get "port" = some (.str name)) :
    (bytes req.cmd).length + (bytes name).length + 29 ≤ line.length ∧
      ((bytes req.cmd).length + (bytes name).length + 29 = line.length →
        Json.Unescaped name.toList) := by
  obtain ⟨text, htext, hreq⟩ := Option.bind_eq_some_iff.mp hreq
  obtain ⟨v, hparse, hreq⟩ := Option.bind_eq_some_iff.mp hreq
  obtain rfl := textOf_eq_some.mp htext
  have hbrace : ∃ tail, text = '{' :: tail := by
    have hchars := Utf8Lossy.chars_encode_append ['{'] rest
    refine ⟨chars rest, ?_⟩
    rw [← Utf8Lossy.chars_encode text, hline]
    exact hchars
  obtain ⟨tail, htail⟩ := hbrace
  have hprefix := trimmed_prefix htail
  have hobj : ∃ fields, v = .obj fields := by
    cases htrim : trim isWhitespace (stripReturn text) with
    | nil =>
        rw [htrim, Json.parse_nil] at hparse
        simp at hparse
    | cons c front =>
        rw [htrim, htail, List.cons_prefix_cons] at hprefix
        rw [htrim, hprefix.1] at hparse
        exact Json.exists_fields_of_parse hparse
  obtain ⟨fields, rfl⟩ := hobj
  obtain ⟨hsize, hmem⟩ := size_of_requestOf hreq hport
  have hreads := Json.reads_parse hparse
  have hle := hreads.le
  have hweight := Json.weight_le_of_sublist hprefix.sublist
  rw [Json.weight_nil, Nat.add_zero] at hle
  rw [length_bytes, length_bytes, length_encode]
  refine ⟨by omega, fun heq => hreads.tight ?_ name hmem⟩
  rw [Json.weight_nil]
  omega

/-- A character that stands for itself is made of bytes that do. -/
theorem unescaped_iff {cs : List Char} : Json.Unescaped cs ↔
    ∀ b ∈ encode cs, b ≠ 0x22 ∧ b ≠ 0x5C ∧ 0x20 ≤ b.toNat := by
  have hquote : ('"' : Char).toNat = 0x22 := rfl
  have hslash : ('\\' : Char).toNat = 0x5C := rfl
  constructor
  · intro h b hb
    obtain ⟨c, hc, hb⟩ := List.mem_flatMap.mp hb
    obtain ⟨hne, hne', hprintable⟩ := h c hc
    obtain ⟨-, hsame⟩ | ⟨-, hbeyond⟩ := Utf8Lossy.toNat_of_mem_encode hb
    · refine ⟨?_, ?_, hsame ▸ hprintable⟩
      · rintro rfl
        exact hne (Char.toNat_inj.mp hsame.symm)
      · rintro rfl
        exact hne' (Char.toNat_inj.mp hsame.symm)
    · refine ⟨?_, ?_, by omega⟩
      · rintro rfl
        exact absurd hbeyond (by decide)
      · rintro rfl
        exact absurd hbeyond (by decide)
  · intro h c hc
    obtain ⟨b, more, hb⟩ := List.exists_cons_of_ne_nil (String.utf8EncodeChar_ne_nil (c := c))
    have hmem : b ∈ String.utf8EncodeChar c := by
      rw [hb]
      exact List.mem_cons_self
    obtain ⟨hne, hne', hprintable⟩ := h b (List.mem_flatMap_of_mem hc hmem)
    obtain ⟨-, hsame⟩ | ⟨hbeyond, -⟩ := Utf8Lossy.toNat_of_mem_encode hmem
    · refine ⟨?_, ?_, hsame ▸ hprintable⟩
      · rintro rfl
        exact hne (UInt8.toNat_inj.mp hsame)
      · rintro rfl
        exact hne' (UInt8.toNat_inj.mp hsame)
    · refine ⟨?_, ?_, by omega⟩
      · rintro rfl
        exact absurd hbeyond (by decide)
      · rintro rfl
        exact absurd hbeyond (by decide)

/-- The text that is formatted for a name with nothing to escape. -/
theorem formatCommand_eq {cmd : String} {portArg : CString} {name : List Char}
    (hcmd : Json.Unescaped cmd.toList) (hname : Json.Unescaped name)
    (hport : portArg.bytes = encode name) : formatCommand cmd portArg =
      encode (requestText cmd (.obj [("port", .str (.ofList name))])) ++ [RecvLoop.newline] := by
  have hescape : ∀ {cs : List Char}, Json.Unescaped cs → cs.flatMap Json.escape = cs :=
    fun h => Json.flatMap_escape_of_plain (fun c hc => ⟨(h c hc).1, (h c hc).2.1⟩)
      fun c hc => (h c hc).2.2
  have hkeys : Json.printString "cmd" = "\"cmd\"".toList ∧
      Json.printString "args" = "\"args\"".toList ∧
      Json.printString "port" = "\"port\"".toList := by decide
  have htext : requestText cmd (.obj [("port", .str (.ofList name))]) =
      "\x7b\"cmd\":\"".toList ++ (cmd.toList ++ ("\",\"args\":\x7b\"port\":\"".toList ++
        (name ++ "\"\x7d\x7d".toList))) := by
    simp only [requestText, Json.print, Json.printFields, hkeys]
    simp [Json.printString, hescape hcmd, hescape hname]
  rw [formatCommand, htext, hport]
  simp only [Utf8Lossy.encode_append, List.append_assoc]
  rfl

/-- A printed object comes through as it is. -/
theorem requestOfLine_print (fields : List (String × Json)) :
    requestOfLine (encode (Json.obj fields).print) = requestOf (.obj fields) := by
  have hstrip : stripReturn (Json.obj fields).print = (Json.obj fields).print := by
    apply if_neg
    have hprint : (Json.obj fields).print =
        ('\x7b' :: Json.printFields fields) ++ ['\x7d'] := rfl
    rw [hprint, List.getLast?_concat]
    decide
  have htrim : trim isWhitespace (Json.obj fields).print = (Json.obj fields).print :=
    trim_print_obj (by decide) (by decide) _
  rw [requestOfLine, textOf_eq_some.mpr rfl, Option.bind_some, hstrip, htrim, Json.parse_print]
  rfl

theorem requestOfLine_requestText (cmd : String) (args : Json) :
    requestOfLine (encode (requestText cmd args)) = some ⟨cmd, args⟩ := by
  rw [requestText, requestOfLine_print]
  simp [requestOf]

private theorem perform_eq (call : SdkCall) : call.perform true true =
    ⟨true, (formatCommand call.cmd call.port).take 255⟩ := by
  have hliterals : (∀ b ∈ bytes "\x7b\"cmd\":\"", b ≠ 0) ∧
      (∀ b ∈ bytes "\",\"args\":\x7b\"port\":\"", b ≠ 0) ∧
      (∀ b ∈ bytes "\"\x7d\x7d\n", b ≠ 0) := by decide +kernel
  have hcmd : ∀ b ∈ bytes call.cmd, b ≠ 0 := by
    have hall : ∀ cmd ∈ subscribeCommands, ∀ b ∈ bytes cmd, b ≠ 0 := by decide +kernel
    apply hall
    cases call <;> simp [SdkCall.cmd, subscribeCommands]
  have hport : ∀ b ∈ call.port.bytes, b ≠ 0 := fun b hb hzero => call.port.no_nul (hzero ▸ hb)
  have hformat : ∀ b ∈ formatCommand call.cmd call.port, b ≠ 0 := by
    simp only [formatCommand, List.forall_mem_append]
    exact ⟨hliterals.1, hcmd, hliterals.2.1, hport, hliterals.2.2⟩
  have hself : cStr ((formatCommand call.cmd call.port).take 255) =
      (formatCommand call.cmd call.port).take 255 :=
    RecvLoop.cStr_eq_self fun b hb => hformat b (List.mem_of_mem_take hb)
  exact congrArg (SendResult.mk true) hself

/-- What can be sent is sent as the line of its request. -/
theorem SdkCall.Sendable.valid {call : SdkCall} (h : call.Sendable) :
    (call.perform true true).Valid call := by
  obtain ⟨name, hname⟩ := h.utf8
  have hplain : Json.Unescaped name := unescaped_iff.mpr (hname ▸ h.plain)
  have hcmd : Json.Unescaped call.cmd.toList := by
    apply unescaped_iff.mpr
    have hall : ∀ cmd ∈ subscribeCommands, ∀ b ∈ bytes cmd,
        b ≠ 0x22 ∧ b ≠ 0x5C ∧ 0x20 ≤ b.toNat := by
      decide +kernel
    apply hall
    cases call <;> simp [SdkCall.cmd, subscribeCommands]
  have hfits : (formatCommand call.cmd call.port).length ≤ 255 := by
    have hlength := length_formatCommand call
    have hle := h.fits
    omega
  have htext := formatCommand_eq hcmd hplain hname
  refine Or.inr ⟨encode (requestText call.cmd (.obj [("port", .str (.ofList name))])), ?_, ?_,
    _, .ofList name, requestOfLine_requestText _ _, rfl, rfl, ?_⟩
  · rw [perform_eq, List.take_of_length_le hfits, htext]
  · exact newline_not_mem_encode_print _
  · rw [bytes, String.toList_ofList, hname]

/-- What is sent as the line of its request can be sent: the line has room for
nothing but the name. -/
theorem SdkCall.sendable_of_valid {call : SdkCall} (h : (call.perform true true).Valid call) :
    call.Sendable := by
  rw [perform_eq] at h
  obtain ⟨hfalse, -⟩ | ⟨line, hsent, -, req, name, hreq, hcmd, hport, hname⟩ := h
  · simp at hfalse
  dsimp only at hsent
  have hlength := length_formatCommand call
  have hcmdLength := length_cmd call
  have hsentLength := congrArg List.length hsent
  rw [List.length_take, List.length_append, List.length_singleton] at hsentLength
  have hbrace : ∃ rest, line = 0x7B :: rest := by
    have hfront : ∃ more, formatCommand call.cmd call.port = 0x7B :: more := ⟨_, rfl⟩
    obtain ⟨more, hmore⟩ := hfront
    rw [hmore, List.take_succ_cons] at hsent
    cases line with
    | nil => exact absurd (List.cons.inj hsent).1 (by decide)
    | cons b rest => exact ⟨rest, by rw [(List.cons.inj hsent).1]⟩
  obtain ⟨rest, hline⟩ := hbrace
  obtain ⟨hle, htight⟩ := length_of_requestOfLine hline hreq hport
  rw [hcmd, hname] at hle htight
  have hplain : Json.Unescaped name.toList := htight (by omega)
  exact ⟨⟨name.toList, hname.symm⟩, hname ▸ unescaped_iff.mp hplain, by omega⟩

/-- When a call is valid. -/
theorem perform_valid_iff (connected accepted : Bool) (call : SdkCall) :
    (call.perform connected accepted).Valid call ↔
      connected = false ∨ accepted = false ∨ call.Sendable := by
  cases connected with
  | false => exact iff_of_true (Or.inl ⟨rfl, rfl⟩) (Or.inl rfl)
  | true =>
      cases accepted with
      | false => exact iff_of_true (Or.inl ⟨rfl, rfl⟩) (Or.inr (Or.inl rfl))
      | true =>
          constructor
          · exact fun h => Or.inr (Or.inr (SdkCall.sendable_of_valid h))
          · rintro (h | h | h)
            · simp at h
            · simp at h
            · exact h.valid

/-- The name of a serial device beyond the ninth. -/
def deviceName : CString := ⟨bytes "\\\\.\\COM10", by decide⟩

/-- A backslash that begins no escape. The daemon answers that the line is no JSON. -/
theorem not_always_perform_valid : ¬ ∀ (connected accepted : Bool) (call : SdkCall),
    (call.perform connected accepted).Valid call := by
  intro hvalid
  have hsendable := SdkCall.sendable_of_valid (hvalid true true (.subscribe deviceName))
  exact absurd (hsendable.plain 0x5C (by decide)).2.1 (by decide)

end Commmon

/-
# The C# client

A thread of the client reads lines through a decoder, which keeps the beginning of
a character back until the rest of it has come, and takes a carriage return for the
end of a line as well. It looks the fields of a line up in its document, and what
it cannot use is dropped with the exception that it throws.

The client's serializer escapes more than it has to, all that is not ASCII among it,
and its writer ends a line as the platform does.
-/

import Commmon.Lib.JsonEscapes
import Commmon.Lib.Utf8Decoder
import Commmon.Sdk

set_option autoImplicit false

namespace Commmon

open RecvLoop (newline)
open Utf8Lossy (encode)

namespace CsharpClient

/-- What an `OnData` handler is given. A property is null if the data says so. -/
structure RxData where
  port : Option String
  timestamp : Option String
  ascii : Option String
  hex : Option String
  deriving DecidableEq

/-- A property that the data does not have stays empty. -/
def RxData.empty : RxData := ⟨some "", some "", some "", some ""⟩

def RxData.of (data : Commmon.RxData) : RxData :=
  ⟨some data.port, some data.timestamp, some data.ascii, some data.hex⟩

/-- What a property of strings is set to, unless that throws. -/
def stringProperty : Json → Option (Option String)
  | .str s => some (some s)
  | .null => some none
  | _ => none

/-- One field of the data. Others than these are skipped. -/
def RxData.set (data : RxData) (f : String × Json) : Option RxData :=
  match f.1 with
  | "port" => (stringProperty f.2).map fun v => { data with port := v }
  | "timestamp" => (stringProperty f.2).map fun v => { data with timestamp := v }
  | "ascii" => (stringProperty f.2).map fun v => { data with ascii := v }
  | "hex" => (stringProperty f.2).map fun v => { data with hex := v }
  | _ => some data

/-- `JsonSerializer.Deserialize`. There is no object for null. -/
def deserialize : Json → Option RxData
  | .obj fields => fields.foldlM RxData.set .empty
  | _ => none

/-- The entry in a line, if there is one. -/
def entryOf (text : List Char) : Option RxData :=
  let line := trim isWhitespace text
  if line = [] then none
  else
    match Json.parse line with
    | none => none
    | some root =>
        match root.get "notify", root.get "data" with
        | some (.str notify), some data => if notify = "rx_data" then deserialize data else none
        | _, _ => none

end CsharpClient

/-- The reader has `line` of the next line, and has perhaps just passed a carriage
return. `invoked` is what the handlers have been given. -/
structure CsharpClient where
  line : List Char
  afterReturn : Bool
  invoked : List CsharpClient.RxData

namespace CsharpClient

def connect : CsharpClient := ⟨[], false, []⟩

/-- `ReadLine` has found the end of a line. -/
def endLine (c : CsharpClient) (afterReturn : Bool) : CsharpClient :=
  ⟨[], afterReturn, c.invoked ++ (entryOf c.line).toList⟩

def onChar (c : CsharpClient) (ch : Char) : CsharpClient :=
  if ch = '\n' then
    if c.afterReturn then { c with afterReturn := false } else c.endLine false
  else if ch = '\r' then c.endLine true
  else { c with line := c.line ++ [ch], afterReturn := false }

/-- The characters that the serializer does not escape. -/
def isAllowed (ch : Char) : Bool :=
  0x20 ≤ ch.toNat && ch.toNat < 0x7F && ch ∉ ['"', '&', '\'', '+', '<', '>', '`', '\\']

/-- The characters with an escape of one letter. -/
def shortEscapes : List (Char × Char) :=
  [('\x08', 'b'), ('\t', 't'), ('\n', 'n'), ('\x0c', 'f'), ('\r', 'r'), ('\\', '\\')]

def escape (ch : Char) : List Char :=
  match shortEscapes.lookup ch with
  | some e => ['\\', e]
  | none => if isAllowed ch then [ch] else Json.unicodeEscape ch

theorem readChar_escape (ch : Char) (rest : List Char) :
    Json.readChar (escape ch ++ rest) = some (some ch, rest) := by
  unfold escape
  split
  · rename_i e hlookup
    have hall : ∀ p ∈ shortEscapes, p.2 ≠ 'u' ∧ Json.unescapes.lookup p.2 = some p.1 := by decide
    obtain ⟨l, r, hmem, -⟩ := List.lookup_eq_some_iff.mp hlookup
    obtain ⟨hu, hback⟩ := hall (ch, e) (by rw [hmem]; simp)
    simp [Json.readChar, Json.readEscape, hu, hback]
  · split_ifs with hallowed
    · simp only [isAllowed, Bool.and_eq_true, decide_eq_true_eq, List.mem_cons, not_or] at hallowed
      obtain ⟨⟨hprintable, -⟩, hquote, -, -, -, -, -, -, hslash, -⟩ := hallowed
      simp [Json.readChar, hquote, hslash, Nat.not_lt.mpr hprintable]
    · exact Json.readChar_unicodeEscape ch rest

/-- The serializer's layout. -/
def layout : Json.Layout where
  escape := escape
  gap _ := []
  afterColon := []
  reads := readChar_escape
  gap_space _ := Json.spaces_nil
  afterColon_space := Json.spaces_nil

/-- `SendCommandAsync`, without the line feed. On Windows it follows a carriage
return. -/
def sendCommand (windows : Bool) (cmd comPort : String) : List UInt8 :=
  encode (Json.printWith layout
    (.obj [("cmd", .str cmd), ("args", .obj [("port", .str comPort)])]) 0 ++
      if windows then ['\r'] else [])

def requestLine (windows : Bool) : RxCall → List UInt8
  | .subscribe comPort => sendCommand windows "subscribe_rx" comPort
  | .unsubscribe comPort => sendCommand windows "unsubscribe_rx" comPort

private theorem layout_onOneLine : layout.OnOneLine := by
  refine ⟨fun ch => ?_, fun _ => Json.plain_nil, Json.plain_nil⟩
  change Json.Plain (escape ch)
  unfold escape
  split
  · rename_i e hlookup
    have hall : ∀ p ∈ shortEscapes, 0x20 ≤ p.2.toNat := by decide
    obtain ⟨l, r, hmem, -⟩ := List.lookup_eq_some_iff.mp hlookup
    have he := hall (ch, e) (by rw [hmem]; simp)
    exact .cons (by decide) (.cons he Json.plain_nil)
  · split_ifs with hallowed
    · simp only [isAllowed, Bool.and_eq_true, decide_eq_true_eq] at hallowed
      exact .cons hallowed.1.1 Json.plain_nil
    · exact Json.plain_unicodeEscape ch

/-- The text of a command, without the end of its line. -/
def commandText (cmd comPort : String) : List Char :=
  Json.printWith layout (.obj [("cmd", .str cmd), ("args", .obj [("port", .str comPort)])]) 0

private theorem stripReturn_command (windows : Bool) (cmd comPort : String) :
    stripReturn (commandText cmd comPort ++ if windows then ['\r'] else []) =
      commandText cmd comPort := by
  have hclose : ∃ front, commandText cmd comPort = front ++ ['\x7d'] := ⟨_ :: _, rfl⟩
  obtain ⟨front, hfront⟩ := hclose
  cases windows with
  | true => simp [stripReturn]
  | false => simp [stripReturn, hfront]

private theorem daemonRequest_sendCommand (readFloat : NumLit → Rat) (windows : Bool)
    (cmd comPort : String) : daemonRequest readFloat (sendCommand windows cmd comPort) =
      some (portRequest cmd comPort) := by
  have htext : textOf (sendCommand windows cmd comPort) =
      some (commandText cmd comPort ++ if windows then ['\r'] else []) := textOf_eq_some.mpr rfl
  have htrim : trim isWhitespace (commandText cmd comPort) = commandText cmd comPort := by
    have hopen : ∃ tail, commandText cmd comPort = '{' :: tail := ⟨_, rfl⟩
    have hclose : ∃ front, commandText cmd comPort = front ++ ['\x7d'] := ⟨_ :: _, rfl⟩
    obtain ⟨tail, htail⟩ := hopen
    obtain ⟨front, hfront⟩ := hclose
    rw [trim, htail, List.dropWhile_cons_of_neg (by decide), ← htail, hfront,
      List.rdropWhile_concat_neg _ _ _ (by decide)]
  have hparse : Json.parse (commandText cmd comPort) =
      some (.obj [("cmd", .str cmd), ("args", .obj [("port", .str comPort)])]) :=
    Json.parse_printWith _ _ _
  rw [daemonRequest, requestOfLine, htext, Option.bind_some, stripReturn_command, htrim, hparse]
  simp [requestOf, Value.ofJson, fieldsOfJson, portRequest]

private theorem newline_not_mem_sendCommand (windows : Bool) (cmd comPort : String) :
    newline ∉ sendCommand windows cmd comPort := by
  have hcount := Utf8Lossy.count_encode (c := '\n') (by decide)
    (commandText cmd comPort ++ if windows then ['\r'] else [])
  have hzero : (commandText cmd comPort ++ if windows then ['\r'] else []).count '\n' = 0 := by
    refine List.count_eq_zero_of_not_mem fun hmem => ?_
    obtain hmem | hmem := List.mem_append.mp hmem
    · exact absurd (Json.plain_printWith layout_onOneLine _ _ _ hmem) (by decide)
    · cases windows <;> simp at hmem
  rw [hzero] at hcount
  exact List.count_eq_zero.mp hcount

/-- Characters of lines that do not end in a carriage return. -/
theorem foldl_onChar {cs : List Char} (hcs : '\r' ∉ cs) : ∀ {line : List Char}
    {invoked : List RxData}, '\n' ∉ line →
      cs.foldl onChar ⟨line, false, invoked⟩ =
        ⟨(LineBuffer.split '\n' (line ++ cs)).2, false,
          invoked ++ (LineBuffer.split '\n' (line ++ cs)).1.filterMap entryOf⟩ := by
  induction cs with
  | nil =>
      intro line invoked hline
      simp [LineBuffer.split_free hline]
  | cons ch cs ih =>
      obtain ⟨hreturn, hrest⟩ : '\r' ≠ ch ∧ '\r' ∉ cs := by simpa using hcs
      intro line invoked hline
      rw [List.foldl_cons]
      by_cases hend : ch = '\n'
      · subst hend
        have hstep : onChar ⟨line, false, invoked⟩ '\n' =
            ⟨[], false, invoked ++ (entryOf line).toList⟩ := by
          simp [onChar, endLine]
        rw [hstep, ih hrest List.not_mem_nil, LineBuffer.split_line hline]
        cases hentry : entryOf line <;> simp [hentry]
      · have hstep : onChar ⟨line, false, invoked⟩ ch = ⟨line ++ [ch], false, invoked⟩ := by
          simp [onChar, hend, Ne.symm hreturn]
        have hline' : '\n' ∉ line ++ [ch] := by
          simpa using ⟨hline, Ne.symm hend⟩
        rw [hstep, ih hrest hline', List.append_assoc]
        rfl

section

variable (showFloat : Rat → NumLit)

/-- One message. -/
theorem entryOf_message {m : Message} (hm : m.Ordinary) :
    entryOf (m.toJson showFloat).print = m.rxEntry.map RxData.of := by
  obtain ⟨htrim, hne⟩ := m.trim_print showFloat
  simp only [entryOf, htrim, hne, if_false, Json.parse_print]
  cases m with
  | response resp =>
      rw [Message.toJson, Response.get_notify]
      rfl
  | notification n =>
      rw [Message.toJson, Notification.get_notify, Notification.get_data]
      by_cases hname : n.notify = "rx_data"
      · obtain ⟨port, a, rfl⟩ := hm hname
        have hdata := Push.rxData_toJson showFloat port a
        simp only [Notification.toJson, Json.obj.injEq, List.cons.injEq, Prod.mk.injEq] at hdata
        simp only [hname, if_true, hdata, Message.rxEntry, Push.rxEntry_rxData, Option.map_some]
        simp [deserialize, RxData.set, stringProperty, RxData.empty, RxData.of, Arrival.rxData]
      · simp [hname, Message.rxEntry, Notification.rxEntry]

/-- Pieces of the stream. -/
theorem feedChars_pieces {msgs : List Message} (hmsgs : ∀ m ∈ msgs, m.Ordinary)
    {pieces : List (List UInt8)} {later : List UInt8}
    (hstream : pieces.flatten ++ later = writtenBytes showFloat msgs) :
    (pieces.foldl (Utf8Lossy.feedChars onChar) (connect, [])).1.invoked =
      ((heard msgs pieces.flatten).filterMap Message.rxEntry).map RxData.of := by
  have htext : pieces.flatten ++ later =
      encode (LineBuffer.frame '\n' (msgs.map fun m => (m.toJson showFloat).print)) := by
    rw [hstream, writtenBytes, LineBuffer.frame, List.flatMap_map, List.flatMap_map]
    rfl
  obtain ⟨pre, post, hframe, hready, hcame, hkept⟩ := Utf8Lossy.ready_of_encode htext
  have hplain : ∀ m ∈ msgs, ∀ ch ∈ (m.toJson showFloat).print, 0x20 ≤ ch.toNat :=
    fun m _ => Json.plain_print _
  have hfree : ∀ line ∈ msgs.map fun m => (m.toJson showFloat).print, '\n' ∉ line := by
    intro line hline
    obtain ⟨m, -, rfl⟩ := List.mem_map.mp hline
    exact newline_not_mem_print _
  have hreturn : '\r' ∉ pre := by
    intro hmem
    have hall : '\r' ∈ pre ++ post := List.mem_append_left _ hmem
    rw [← hframe, LineBuffer.frame, List.mem_flatMap] at hall
    obtain ⟨line, hline, hch⟩ := hall
    obtain ⟨m, hm, rfl⟩ := List.mem_map.mp hline
    obtain hch | hch := List.mem_append.mp hch
    · exact absurd (hplain m hm _ hch) (by decide)
    · simp at hch
  -- the lines that are complete in the bytes are those that are complete in the text
  have hlines := LineBuffer.split_eq_take hfree hframe.symm
  have hcount : (LineBuffer.split '\n' pre).1.length =
      (LineBuffer.split newline pieces.flatten).1.length := by
    have hnone : newline ∉ (Utf8Lossy.ready pieces.flatten).2 :=
      fun hmem => absurd (hkept _ hmem) (by decide)
    have hencode := Utf8Lossy.count_encode (c := '\n') (by decide) pre
    rw [LineBuffer.length_split, LineBuffer.length_split, hcame, List.count_append,
      List.count_eq_zero_of_not_mem hnone, ← hencode]
    rfl
  rw [hcount, ← List.map_take] at hlines
  rw [Utf8Lossy.foldl_feedChars onChar pieces rfl, List.nil_append, hready, connect,
    foldl_onChar hreturn List.not_mem_nil, List.nil_append, hlines, List.nil_append,
    List.filterMap_map, List.map_filterMap]
  refine List.filterMap_congr fun m hm => ?_
  exact entryOf_message showFloat (hmsgs m (List.mem_of_mem_take hm))

end

end CsharpClient

/-- The C# client as a client of an SDK. -/
def csharpSdk (windows : Bool) (showFloat : Rat → NumLit) (readFloat : NumLit → Rat) :
    Sdk showFloat readFloat where
  State := CsharpClient × List UInt8
  Data := CsharpClient.RxData
  start := (CsharpClient.connect, [])
  feed := Utf8Lossy.feedChars CsharpClient.onChar
  Call := RxCall
  request call := some call.request
  delivered s := s.1.invoked
  ofEntry := CsharpClient.RxData.of
  line := CsharpClient.requestLine windows
  one_line call := by
    cases call <;> exact CsharpClient.newline_not_mem_sendCommand _ _ _
  asks call := by
    cases call <;>
      exact readLine_of_daemonRequest (CsharpClient.daemonRequest_sendCommand readFloat _ _ _)
  hears _ _ _ hmsgs hstream := CsharpClient.feedChars_pieces showFloat hmsgs hstream

section

variable (windows : Bool) (showFloat : Rat → NumLit) (readFloat : NumLit → Rat) (c : ClientId)

/-- The C# client hands on what is pushed, and the daemon is asked for what it calls
for, on either platform, for every port name and however the stream is cut. -/
theorem csharp_understands_daemon {es : List (AttachmentEvent RxCall)}
    {w : Attachment (csharpSdk windows showFloat readFloat).toPeer}
    (hrun : ((csharpSdk windows showFloat readFloat).attached c).run es = some w) :
    (w.client.1.invoked <+: (w.world.entriesTo c).map CsharpClient.RxData.of ∧
        (w.outbound = [] →
          w.client.1.invoked = (w.world.entriesTo c).map CsharpClient.RxData.of)) ∧
      w.served <+: w.calls.map (fun k => some k.request) ∧
        (w.inbound = [] → w.served = w.calls.map fun k => some k.request) :=
  ⟨(Attachment.wired_of_run hrun).delivered, (Attachment.wired_of_run hrun).asked⟩

end

/-- A port with a quote and a letter that is not ASCII in its name. The pieces cut
through the replacement character. -/
def quotedRun : List (AttachmentEvent RxCall) :=
  [.daemon (.connect 0), .daemon (.connect 1)] ++
    (issue 1 (portRequest "open_port" "포\"트") 2).map .daemon ++
    [.call (.subscribe "포\"트"), .serve ⟨.ok (), .successMsg ""⟩ ""] ++
    List.replicate 3 (.daemon (.client 0 .dispatch)) ++
    [.daemon (stream 0 []), .daemon (.deliver 0 ⟨"2026:01:01 12:00:00", [0xFF, 0x0A]⟩),
      .daemon (stream 0 ["포\"트"]), .daemon (stream 0 []), .daemon (stream 0 [])] ++
    [.receive 55, .receive 40, .receive 73]

private theorem quotedRun_hears :
    (((csharpSdk true (fun _ => .ofNat 0) fun _ => 0).attached 0).run quotedRun).any (fun w =>
      w.outbound.isEmpty && w.inbound.isEmpty && w.calls.length == 1 &&
        decide (w.client.1.invoked =
          [⟨some "포\"트", some "2026:01:01 12:00:00", some "\uFFFD\n", some "ff0a"⟩])) = true := by
  decide +kernel

/-- The theorem for that port. -/
theorem csharp_understands_daemon_quoted : ∃ w,
    ((csharpSdk true (fun _ => .ofNat 0) fun _ => 0).attached 0).run quotedRun = some w ∧
      w.client.1.invoked.length = 1 ∧ w.calls.length = 1 ∧
      w.client.1.invoked = (w.world.entriesTo 0).map CsharpClient.RxData.of ∧
      w.served = w.calls.map fun k => some k.request := by
  obtain ⟨w, hrun, hhears⟩ := (Option.any_eq_true _ _).mp quotedRun_hears
  simp only [Bool.and_eq_true, List.isEmpty_iff, decide_eq_true_eq, beq_iff_eq] at hhears
  obtain ⟨⟨⟨hout, hin⟩, hcalls⟩, hinvoked⟩ := hhears
  obtain ⟨⟨-, hall⟩, -, hserved⟩ :=
    csharp_understands_daemon true (fun _ => .ofNat 0) (fun _ => 0) 0 hrun
  exact ⟨w, hrun, by rw [hinvoked]; rfl, hcalls, hall hout, hserved hin⟩

end Commmon

/-
# Data events of the MCP server's client

The stream of a connection is bytes, and TCP cuts it anywhere. The data handler
turns every chunk into text by itself and appends that to its buffer. Lines that
are cut are put together again. A character that is cut is not: the line is read
without an error, as a message that the daemon has not written.

What is proved here is about the data handler alone. Which promise a response
resolves, and which buffer a notification goes to, is a function of the messages
that are handed on.
-/

import Commmon.Lib.JsonGarbled
import Commmon.Pairing
import Commmon.ToolBuffers

set_option autoImplicit false

namespace Commmon

open Utf8Lossy (Whole encode)

namespace DaemonClient

/-- One data event after the other. -/
def onEvents : DaemonClient → List (List UInt8) → DaemonClient × List (SendId × Json)
  | c, [] => (c, [])
  | c, chunk :: chunks =>
      let r := c.onBytes chunk
      let rs := onEvents r.1 chunks
      (rs.1, r.2 ++ rs.2)

/-- One message after the other. -/
def handleAll : DaemonClient → List Json → DaemonClient × List (SendId × Json)
  | c, [] => (c, [])
  | c, msg :: msgs =>
      let r := c.handle msg
      let rs := handleAll r.1 msgs
      (rs.1, r.2.toList ++ rs.2)

end DaemonClient

/-- The messages that the data handler takes out of its chunks, when its buffer
holds `buffer` before the first of them. -/
def handed : List Char → List (List UInt8) → List Json
  | _, [] => []
  | buffer, chunk :: chunks =>
      let r := LineBuffer.split '\n' (buffer ++ Utf8Lossy.chars chunk)
      messagesOf r.1 ++ handed r.2 chunks

/-- What is in the buffer after the chunks. -/
def kept : List Char → List (List UInt8) → List Char
  | buffer, [] => buffer
  | buffer, chunk :: chunks =>
      kept (LineBuffer.split '\n' (buffer ++ Utf8Lossy.chars chunk)).2 chunks

theorem handed_append (chunks more : List (List UInt8)) : ∀ buffer : List Char,
    handed buffer (chunks ++ more) = handed buffer chunks ++ handed (kept buffer chunks) more ∧
      kept buffer (chunks ++ more) = kept (kept buffer chunks) more := by
  induction chunks with
  | nil => exact fun buffer => ⟨rfl, rfl⟩
  | cons chunk chunks ih =>
      intro buffer
      obtain ⟨hhanded, hkept⟩ :=
        ih (LineBuffer.split '\n' (buffer ++ Utf8Lossy.chars chunk)).2
      refine ⟨?_, hkept⟩
      rw [List.cons_append, handed, hhanded, handed, kept, List.append_assoc]

namespace DaemonClient

/-- A line is handed on as its message, and as nothing if it has none. -/
theorem onLine_eq (c : DaemonClient) (line : List Char) :
    c.onLine line = match Json.parse (trim isJsSpace line) with
      | some msg => c.handle msg
      | none => (c, none) := by
  have hblank : Json.parse [] = none := by decide
  unfold onLine
  by_cases hline : trim isJsSpace line = []
  · simp [hline, hblank]
  · exact if_neg hline

theorem onLines_eq (lines : List (List Char)) : ∀ c : DaemonClient,
    c.onLines lines = c.handleAll (messagesOf lines) := by
  induction lines with
  | nil => exact fun c => rfl
  | cons line lines ih =>
      intro c
      have hcons : messagesOf (line :: lines) =
          (Json.parse (trim isJsSpace line)).toList ++ messagesOf lines := by
        rw [messagesOf, messagesOf, List.filterMap_cons]
        cases Json.parse (trim isJsSpace line) <;> rfl
      rw [onLines, onLine_eq, hcons]
      rcases Json.parse (trim isJsSpace line) with - | msg
      · simp [ih]
      · simp [ih, handleAll]

private theorem handleAll_append (msgs msgs' : List Json) : ∀ c : DaemonClient,
    c.handleAll (msgs ++ msgs') =
      (((c.handleAll msgs).1.handleAll msgs').1,
        (c.handleAll msgs).2 ++ ((c.handleAll msgs).1.handleAll msgs').2) := by
  induction msgs with
  | nil => exact fun c => rfl
  | cons msg msgs ih =>
      intro c
      simp only [List.cons_append, handleAll, ih, List.append_assoc]

private theorem onNotify_withBuffer (c : DaemonClient) (buffer : List Char) (notify : Json)
    (data : Option Json) : { c with buffer := buffer }.onNotify notify data =
      { c.onNotify notify data with buffer := buffer } := by
  unfold onNotify
  split <;> (try split_ifs) <;> rfl

/-- A message does not touch the text in the buffer. -/
theorem handle_withBuffer (c : DaemonClient) (buffer : List Char) (msg : Json) :
    { c with buffer := buffer }.handle msg =
      ({ (c.handle msg).1 with buffer := buffer }, (c.handle msg).2) := by
  unfold handle
  split
  · rfl
  · split
    · rw [onNotify_withBuffer]
    · rcases hpending : c.pending with - | ⟨i, rest⟩ <;> simp [hpending]

theorem handleAll_withBuffer (buffer : List Char) (msgs : List Json) : ∀ c : DaemonClient,
    { c with buffer := buffer }.handleAll msgs =
      ({ (c.handleAll msgs).1 with buffer := buffer }, (c.handleAll msgs).2) := by
  induction msgs with
  | nil => exact fun c => rfl
  | cons msg msgs ih =>
      intro c
      simp only [handleAll, handle_withBuffer, ih]

theorem buffer_onBytes (c : DaemonClient) (chunk : List UInt8) :
    (c.onBytes chunk).1.buffer =
      (LineBuffer.split '\n' (c.buffer ++ Utf8Lossy.chars chunk)).2 := by
  rw [onBytes, onData, onLines_eq, handleAll_withBuffer]

/-- What the client does is a function of the messages handed on. -/
theorem onEvents_eq (chunks : List (List UInt8)) : ∀ c : DaemonClient,
    c.onEvents chunks =
      ({ (c.handleAll (handed c.buffer chunks)).1 with buffer := kept c.buffer chunks },
        (c.handleAll (handed c.buffer chunks)).2) := by
  induction chunks with
  | nil => exact fun c => rfl
  | cons chunk chunks ih =>
      intro c
      simp only [onEvents, onBytes, onData, onLines_eq, handleAll_withBuffer, ih, handed, kept,
        handleAll_append]

end DaemonClient

section Garbled

open Utf8Lossy (Garbled)

/-- The chunks are cut into lines as their texts together are. -/
theorem handed_eq (chunks : List (List UInt8)) : ∀ buffer : List Char, '\n' ∉ buffer →
    handed buffer chunks =
      messagesOf (LineBuffer.split '\n' (buffer ++ chunks.flatMap Utf8Lossy.chars)).1 := by
  induction chunks with
  | nil =>
      intro buffer hbuffer
      rw [List.flatMap_nil, List.append_nil, LineBuffer.split_free hbuffer]
      rfl
  | cons chunk chunks ih =>
      intro buffer hbuffer
      rw [handed, ih _ (LineBuffer.not_mem_split _), List.flatMap_cons, ← List.append_assoc,
        LineBuffer.split_append (buffer ++ Utf8Lossy.chars chunk), messagesOf, messagesOf,
        messagesOf, List.filterMap_append]

/-- Garbled lines of objects are lines of objects. -/
theorem garbled_lines {msgs : List Json} (hobj : ∀ msg ∈ msgs, ∃ fields, msg = .obj fields) :
    ∀ {ds : List Char}, Garbled (msgs.flatMap lineOf) ds →
      ∃ msgs' : List Json, ds = msgs'.flatMap lineOf ∧
        ∀ msg ∈ msgs', ∃ fields, msg = .obj fields := by
  induction msgs with
  | nil =>
      intro ds h
      exact ⟨[], h.eq_of_ascii (by simp), by simp⟩
  | cons msg msgs ih =>
      intro ds h
      obtain ⟨⟨fields, rfl⟩, hmsgs⟩ := List.forall_mem_cons.mp hobj
      obtain ⟨line, rest, rfl, hline, hrest⟩ := h.append_inv
      obtain ⟨text, rfl, htext⟩ := Json.garbled_concat (c := '\n') (by decide) hline
      obtain ⟨fields', rfl⟩ := Json.garbled_print_obj htext
      obtain ⟨msgs', rfl, hobj'⟩ := ih hmsgs hrest
      exact ⟨.obj fields' :: msgs', rfl, List.forall_mem_cons.mpr ⟨⟨fields', rfl⟩, hobj'⟩⟩

/-- The messages of whole lines. -/
theorem messagesOf_lines {msgs : List Json} (hobj : ∀ msg ∈ msgs, ∃ fields, msg = .obj fields) :
    messagesOf (LineBuffer.split '\n' (msgs.flatMap lineOf)).1 = msgs := by
  induction msgs with
  | nil => rfl
  | cons msg msgs ih =>
      obtain ⟨⟨fields, rfl⟩, hmsgs⟩ := List.forall_mem_cons.mp hobj
      have hopen : isJsSpace '{' = false := by decide
      have hclose : isJsSpace '}' = false := by decide
      have hsplit := LineBuffer.split_line (newline_not_mem_print (.obj fields))
        (msgs.flatMap lineOf)
      rw [List.flatMap_cons, lineOf, List.append_assoc, List.singleton_append, hsplit, messagesOf,
        List.filterMap_cons, trim_print_obj hopen hclose, Json.parse_print]
      exact congrArg _ (ih hmsgs)

end Garbled

theorem Message.toJson_obj (showFloat : Rat → NumLit) (m : Message) :
    ∃ fields, m.toJson showFloat = .obj fields := by
  cases m with
  | response resp => exact ⟨_, rfl⟩
  | notification n => exact ⟨_, rfl⟩

/-- The bytes that messages are written as. -/
def writtenBytes (showFloat : Rat → NumLit) (msgs : List Message) : List UInt8 :=
  encode ((msgs.map (Message.toJson showFloat)).flatMap lineOf)

/-- What is handed on are the messages of a text, and if they are those that
were written then the text is. -/
theorem chars_of_handed {showFloat : Rat → NumLit} {msgs : List Message}
    {chunks : List (List UInt8)} (hstream : chunks.flatten = writtenBytes showFloat msgs) :
    handed [] chunks = msgs.map (Message.toJson showFloat) ↔
      chunks.flatMap Utf8Lossy.chars = (msgs.map (Message.toJson showFloat)).flatMap lineOf := by
  have hobj : ∀ msg ∈ msgs.map (Message.toJson showFloat), ∃ fields, msg = .obj fields := by
    intro msg hmsg
    obtain ⟨m, -, rfl⟩ := List.mem_map.mp hmsg
    exact m.toJson_obj showFloat
  obtain ⟨msgs', htext, hobj'⟩ := garbled_lines hobj (Utf8Lossy.garbled_of_chunks hstream)
  rw [handed_eq chunks [] (by simp), List.nil_append, htext, messagesOf_lines hobj']
  constructor
  · exact fun h => h ▸ rfl
  · intro h
    rw [← messagesOf_lines hobj', h, messagesOf_lines hobj]

/-- The messages handed on are those that were written exactly when no cut goes
through a character. -/
theorem handed_eq_written {showFloat : Rat → NumLit} {msgs : List Message}
    {chunks : List (List UInt8)} (hstream : chunks.flatten = writtenBytes showFloat msgs) :
    handed [] chunks = msgs.map (Message.toJson showFloat) ↔ ∀ chunk ∈ chunks, Whole chunk :=
  (chars_of_handed hstream).trans (Utf8Lossy.flatMap_chars_eq_iff hstream)

/-- Two divisions of a stream give the same messages, and those that were
written, exactly when neither cuts through a character. -/
theorem divisions_agree_iff (showFloat : Rat → NumLit) (msgs : List Message)
    (chunks chunks' : List (List UInt8)) (hstream : chunks.flatten = writtenBytes showFloat msgs)
    (hstream' : chunks'.flatten = writtenBytes showFloat msgs) :
    (handed [] chunks = handed [] chunks' ∧
        handed [] chunks = msgs.map (Message.toJson showFloat)) ↔
      (∀ chunk ∈ chunks, Whole chunk) ∧ ∀ chunk ∈ chunks', Whole chunk := by
  rw [← handed_eq_written hstream, ← handed_eq_written hstream']
  constructor
  · rintro ⟨hsame, hwritten⟩
    exact ⟨hwritten, hsame ▸ hwritten⟩
  · rintro ⟨hwritten, hwritten'⟩
    exact ⟨hwritten.trans hwritten'.symm, hwritten⟩

/-- A response with a Korean text. -/
def koreanResponse : Message := .response (.successMsg "한")

/-- Its stream in two chunks. The character has the bytes 19 to 21. -/
def koreanChunks (n : ℕ) : List (List UInt8) :=
  [(writtenBytes (fun _ => .ofNat 0) [koreanResponse]).take n,
    (writtenBytes (fun _ => .ofNat 0) [koreanResponse]).drop n]

private theorem flatten_koreanChunks (n : ℕ) :
    (koreanChunks n).flatten = writtenBytes (fun _ => .ofNat 0) [koreanResponse] := by
  simp [koreanChunks]

/-- The theorem for a cut behind the character and one in front of it. -/
theorem divisions_agree_korean :
    (koreanChunks 22).flatten = writtenBytes (fun _ => .ofNat 0) [koreanResponse] ∧
      (koreanChunks 19).flatten = writtenBytes (fun _ => .ofNat 0) [koreanResponse] ∧
      ((handed [] (koreanChunks 22) = handed [] (koreanChunks 19) ∧
          handed [] (koreanChunks 22) = [koreanResponse].map (Message.toJson fun _ => .ofNat 0)) ↔
        (∀ chunk ∈ koreanChunks 22, Whole chunk) ∧ ∀ chunk ∈ koreanChunks 19, Whole chunk) :=
  ⟨flatten_koreanChunks 22, flatten_koreanChunks 19,
    divisions_agree_iff _ _ _ _ (flatten_koreanChunks 22) (flatten_koreanChunks 19)⟩

/-- A cut through the character gives another message. -/
theorem divisions_differ_korean :
    ¬ ∀ (showFloat : Rat → NumLit) (msgs : List Message) (chunks chunks' : List (List UInt8)),
      chunks.flatten = writtenBytes showFloat msgs → chunks'.flatten = writtenBytes showFloat msgs →
        handed [] chunks = handed [] chunks' ∧
          handed [] chunks = msgs.map (Message.toJson showFloat) := by
  intro hagree
  obtain ⟨-, hwritten⟩ := hagree (fun _ => .ofNat 0) [koreanResponse] (koreanChunks 20)
    (koreanChunks 19) (flatten_koreanChunks 20) (flatten_koreanChunks 19)
  have htext := (chars_of_handed (flatten_koreanChunks 20)).mp hwritten
  exact absurd (congrArg List.length htext) (by decide +kernel)

end Commmon

/-
# The receive loop of the C++ client

The loop appends what a `recv` gives to a buffer, and takes complete lines out of
it as long as there is one. Pieces are appended as C strings, so a NUL byte would
end one early; the daemon writes none.
-/

import Commmon.Chunking
import Commmon.RxEvents

set_option autoImplicit false

namespace Commmon

open RxClient (cStr)
open Utf8Lossy (encode)

/-- What one `recv` gives: at least one byte, and one less than its buffer has. -/
structure Piece where
  bytes : List UInt8
  ne_nil : bytes ≠ []
  length_le : bytes.length ≤ 4096 - 1

/-- The buffer, and the lines that have been given to the parser. -/
structure RecvLoop where
  buffer : List UInt8
  parsed : List (List UInt8)

namespace RecvLoop

def newline : UInt8 := 0x0A

/-- A space or a carriage return. -/
def isPad (b : UInt8) : Bool := b = 0x20 ∨ b = 0x0D

/-- The line without the pads at its front and at its back. -/
def strip (line : List UInt8) : List UInt8 := (line.dropWhile isPad).rdropWhile isPad

/-- The parser gets a line unless nothing is left of it. -/
def parse (r : RecvLoop) (line : List UInt8) : RecvLoop :=
  if strip line = [] then r else { r with parsed := r.parsed ++ [strip line] }

/-- The inner loop. Every line takes a byte, so the number of bytes is fuel enough. -/
def takeLines : ℕ → RecvLoop → RecvLoop
  | 0, r => r
  | fuel + 1, r =>
      match LineBuffer.takeLine newline r.buffer with
      | none => r
      | some (line, rest) => takeLines fuel ({ r with buffer := rest }.parse line)

/-- One round of the outer loop. -/
def recv (r : RecvLoop) (piece : Piece) : RecvLoop :=
  let buffer := r.buffer ++ cStr piece.bytes
  takeLines (buffer.length + 1) { r with buffer := buffer }

def start : RecvLoop := ⟨[], []⟩

/-- The loop after some pieces. -/
def received (pieces : List Piece) : RecvLoop := pieces.foldl recv start

/-- What the parser gets of some lines. -/
def shown (lines : List (List UInt8)) : List (List UInt8) := (lines.map strip).filter (· ≠ [])

private theorem shown_append (lines more : List (List UInt8)) :
    shown (lines ++ more) = shown lines ++ shown more := by
  simp [shown]

private theorem parse_eq (r : RecvLoop) (line : List UInt8) :
    r.parse line = { r with parsed := r.parsed ++ shown [line] } := by
  unfold parse
  split_ifs with h
  · simp [shown, h]
  · simp [shown, h]

/-- The inner loop takes all lines of the buffer. -/
theorem takeLines_eq : ∀ (fuel : ℕ) (r : RecvLoop), r.buffer.length < fuel →
    takeLines fuel r = ⟨(LineBuffer.split newline r.buffer).2,
      r.parsed ++ shown (LineBuffer.split newline r.buffer).1⟩
  | 0, r, h => absurd h (Nat.not_lt_zero _)
  | fuel + 1, r, h => by
      rw [LineBuffer.split_eq_takeLine]
      unfold takeLines
      cases hline : LineBuffer.takeLine newline r.buffer with
      | none => simp [shown]
      | some found =>
          obtain ⟨line, rest⟩ := found
          obtain ⟨hbuffer, -⟩ := LineBuffer.takeLine_eq_some hline
          have hlength : rest.length < fuel := by
            rw [hbuffer, List.length_append, List.length_cons] at h
            omega
          dsimp only
          rw [parse_eq, takeLines_eq fuel _ hlength, List.append_assoc, ← shown_append]
          rfl

theorem cStr_eq_self {bytes : List UInt8} (h : ∀ b ∈ bytes, b ≠ 0) : cStr bytes = bytes :=
  List.takeWhile_eq_self_iff.mpr (by simpa using h)

/-- A round takes the lines that the piece completes, and keeps the rest. -/
theorem recv_eq {r : RecvLoop} {piece : Piece} (hpiece : ∀ b ∈ piece.bytes, b ≠ 0) :
    r.recv piece = ⟨(LineBuffer.split newline (r.buffer ++ piece.bytes)).2,
      r.parsed ++ shown (LineBuffer.split newline (r.buffer ++ piece.bytes)).1⟩ := by
  rw [recv, cStr_eq_self hpiece]
  exact takeLines_eq _ _ (Nat.lt_succ_self _)

/-- The lines do not depend on the pieces. -/
theorem received_eq {pieces : List Piece} (hpieces : ∀ piece ∈ pieces, ∀ b ∈ piece.bytes, b ≠ 0) :
    received pieces =
      ⟨(LineBuffer.split newline (pieces.flatMap Piece.bytes)).2,
        shown (LineBuffer.split newline (pieces.flatMap Piece.bytes)).1⟩ := by
  have hfold : ∀ (pieces : List Piece) (r : RecvLoop),
      (∀ piece ∈ pieces, ∀ b ∈ piece.bytes, b ≠ 0) → newline ∉ r.buffer →
      pieces.foldl recv r =
        ⟨(LineBuffer.split newline (r.buffer ++ pieces.flatMap Piece.bytes)).2, r.parsed ++
          shown (LineBuffer.split newline (r.buffer ++ pieces.flatMap Piece.bytes)).1⟩ := by
    intro pieces
    induction pieces with
    | nil =>
        intro r _ hbuffer
        simp [LineBuffer.split_free hbuffer, shown]
    | cons piece pieces ih =>
        intro r hpieces hbuffer
        obtain ⟨hpiece, hrest⟩ := List.forall_mem_cons.mp hpieces
        rw [List.foldl_cons, recv_eq hpiece, ih _ hrest (LineBuffer.not_mem_split _),
          List.flatMap_cons, ← List.append_assoc r.buffer, LineBuffer.split_append (_ ++ _),
          shown_append, List.append_assoc]
  exact hfold pieces start hpieces List.not_mem_nil

end RecvLoop

section

variable {showFloat : Rat → NumLit}

/-- The daemon writes no NUL byte. -/
theorem ne_zero_of_mem_written {msgs : List Message} {b : UInt8}
    (hb : b ∈ writtenBytes showFloat msgs) : b ≠ 0 := by
  obtain ⟨c, hc, hb⟩ := List.mem_flatMap.mp hb
  obtain ⟨j, -, hc⟩ := List.mem_flatMap.mp hc
  have hpos : 0 < c.toNat := by
    obtain hprint | hnewline := List.mem_append.mp hc
    · have := Json.plain_print j c hprint
      omega
    · rw [List.mem_singleton.mp hnewline]
      decide
  rintro rfl
  obtain ⟨-, hsame⟩ | ⟨-, hbeyond⟩ := Utf8Lossy.toNat_of_mem_encode hb
  · exact absurd hsame (Nat.ne_of_lt hpos)
  · exact absurd hbeyond (by decide)

private theorem piece_ne_zero {msgs : List Message} {pieces : List Piece} {later : List UInt8}
    (hstream : pieces.flatMap Piece.bytes ++ later = writtenBytes showFloat msgs) :
    ∀ piece ∈ pieces, ∀ b ∈ piece.bytes, b ≠ 0 := by
  intro piece hpiece b hb
  have hmem : b ∈ writtenBytes showFloat msgs := by
    rw [← hstream]
    exact List.mem_append_left _ (List.mem_flatMap_of_mem hpiece hb)
  exact ne_zero_of_mem_written hmem

/-- The lines of the daemon's stream. However it is cut, the parser gets the
lines whose terminator has arrived, and what comes after the last terminator is
kept. -/
theorem parsed_eq_lines {msgs : List Message} {pieces : List Piece} {later : List UInt8}
    (hstream : pieces.flatMap Piece.bytes ++ later = writtenBytes showFloat msgs) :
    ∃ lines rest, pieces.flatMap Piece.bytes = LineBuffer.frame RecvLoop.newline lines ++ rest ∧
      (∀ line ∈ lines, RecvLoop.newline ∉ line) ∧ RecvLoop.newline ∉ rest ∧
      (RecvLoop.received pieces).parsed = (lines.map RecvLoop.strip).filter (· ≠ []) ∧
      (RecvLoop.received pieces).buffer = rest := by
  rw [RecvLoop.received_eq (piece_ne_zero hstream)]
  exact ⟨_, _, (LineBuffer.frame_split _).symm, fun _ => LineBuffer.not_mem_of_mem_split,
    LineBuffer.not_mem_split _, rfl, rfl⟩

end

/-- A response in two pieces. -/
def cutResponse : List Piece :=
  [⟨RxClient.bytes "\x7b\"ok\":fal", by decide, by decide⟩,
    ⟨RxClient.bytes "se,\"error\":\"no\"\x7d\n", by decide, by decide⟩]

theorem parsed_eq_lines_cut : ∃ lines rest,
    cutResponse.flatMap Piece.bytes = LineBuffer.frame RecvLoop.newline lines ++ rest ∧
      (RecvLoop.received cutResponse).parsed = (lines.map RecvLoop.strip).filter (· ≠ []) := by
  have hstream : cutResponse.flatMap Piece.bytes ++ [] =
      writtenBytes (fun _ => .ofNat 0) [.response (.ofError "no")] := by
    decide +kernel
  obtain ⟨lines, rest, hframe, -, -, hparsed, -⟩ := parsed_eq_lines hstream
  exact ⟨lines, rest, hframe, hparsed⟩

/-- A printed value is on one line. -/
theorem newline_not_mem_encode_print (v : Json) : RecvLoop.newline ∉ encode v.print := by
  intro hmem
  obtain ⟨c, hc, hb⟩ := List.mem_flatMap.mp hmem
  have hprintable := Json.plain_print _ c hc
  have hnewline : RecvLoop.newline.toNat = 10 := rfl
  obtain ⟨-, hsame⟩ | ⟨-, hbeyond⟩ := Utf8Lossy.toNat_of_mem_encode hb
  · omega
  · omega

section

variable (showFloat : Rat → NumLit)

/-- The line of a message is an object, with no pad and no terminator in it. -/
theorem lineBytes_object (m : Message) : ∃ inner,
    m.lineBytes showFloat = 0x7B :: (inner ++ [0x7D]) := by
  obtain ⟨fields, hfields⟩ := m.toJson_obj showFloat
  refine ⟨encode (Json.printFields fields), ?_⟩
  rw [Message.lineBytes, hfields, Json.print, Utf8Lossy.encode_cons, Utf8Lossy.encode_append]
  rfl

private theorem strip_lineBytes (m : Message) :
    RecvLoop.strip (m.lineBytes showFloat) = m.lineBytes showFloat := by
  obtain ⟨inner, hline⟩ := lineBytes_object showFloat m
  have hopen : RecvLoop.isPad 0x7B = false := by decide
  have hclose : ¬ RecvLoop.isPad 0x7D = true := by decide
  rw [RecvLoop.strip, hline, List.dropWhile_cons_of_neg (by rw [hopen]; decide),
    ← List.cons_append, List.rdropWhile_concat_neg _ _ _ hclose]

theorem newline_not_mem_lineBytes (m : Message) :
    RecvLoop.newline ∉ m.lineBytes showFloat :=
  newline_not_mem_encode_print _

theorem writtenBytes_eq_frame (msgs : List Message) : writtenBytes showFloat msgs =
    LineBuffer.frame RecvLoop.newline (msgs.map (Message.lineBytes showFloat)) := by
  induction msgs with
  | nil => rfl
  | cons m msgs ih =>
      have hcons : writtenBytes showFloat (m :: msgs) =
          m.lineBytes showFloat ++ RecvLoop.newline :: writtenBytes showFloat msgs := by
        simp only [writtenBytes, List.map_cons, List.flatMap_cons, lineOf, Utf8Lossy.encode_append,
          List.append_assoc]
        rfl
      rw [hcons, ih]
      simp [LineBuffer.frame]

/-- Every message of a complete stream gets to the parser as its line. -/
theorem parsed_eq_messages {msgs : List Message} {pieces : List Piece}
    (hstream : pieces.flatMap Piece.bytes = writtenBytes showFloat msgs) :
    RecvLoop.received pieces = ⟨[], msgs.map (Message.lineBytes showFloat)⟩ := by
  have hwhole : pieces.flatMap Piece.bytes ++ [] = writtenBytes showFloat msgs := by
    rw [List.append_nil, hstream]
  have hfree : ∀ line ∈ msgs.map (Message.lineBytes showFloat), RecvLoop.newline ∉ line := by
    intro line hline
    obtain ⟨m, -, rfl⟩ := List.mem_map.mp hline
    exact newline_not_mem_lineBytes showFloat m
  have hshown : RecvLoop.shown (msgs.map (Message.lineBytes showFloat)) =
      msgs.map (Message.lineBytes showFloat) := by
    have hne : ∀ m : Message, m.lineBytes showFloat ≠ [] := by
      intro m
      obtain ⟨inner, hline⟩ := lineBytes_object showFloat m
      simp [hline]
    simp [RecvLoop.shown, strip_lineBytes, hne, Function.comp_def]
  rw [RecvLoop.received_eq (piece_ne_zero hwhole), hstream, writtenBytes_eq_frame,
    LineBuffer.split_frame hfree, hshown]

end

end Commmon

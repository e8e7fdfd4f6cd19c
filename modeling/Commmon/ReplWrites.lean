/-
# Data written at the prompt

The data of a write is what stands behind the port on the line. It is cut into words
with the rest of the line, and the words are put together again with a space between
them. So the data reaches the port as it was typed exactly if it was typed that way.
-/

import Commmon.Lib.Words
import Commmon.ReplRequests

set_option autoImplicit false

namespace Commmon

open Words (words Spaced)

/-- What `write_port` gives to the writer of a port, which is named by its channel. -/
def Conn.transmits (x : Conn) (m : SerialManager) (decoded : Except String (List UInt8)) :
    Option (ChannelId × List UInt8) :=
  ((x.parse decoded).bind fun x => x.locate m).bind fun x =>
    match x.stage with
    | .writing _ _ k bytes => some (k, bytes)
    | _ => none

/-- A connection that has received the request. -/
def Handler.receiving (handler : Handler) (req : Request) : Conn := ⟨handler, .received req⟩

namespace Repl

/-- The request that the daemon reads when a line is typed. -/
def typedRequest (readFloat : NumLit → Rat) (showFloat : Rat → NumLit) (line : String) :
    Option Request :=
  (parseCommand line).bind fun req => daemonRequest readFloat (requestLine showFloat req)

/-- What a line has written to a port. -/
def transmitted (readFloat : NumLit → Rat) (showFloat : Rat → NumLit) (handler : Handler)
    (m : SerialManager) (decoded : Except String (List UInt8)) (line : String) :
    Option (ChannelId × List UInt8) :=
  (typedRequest readFloat showFloat line).bind fun r =>
    (handler.receiving r).transmits m decoded

/-- The line of a write. -/
def writeLine (port data : String) : String := s!"write {port} {data}"

/-- Data that is not empty, has no white space at its ends, and does not begin with
the word `--hex`. -/
structure TextData (data : String) : Prop where
  not_empty : data ≠ ""
  front : ∀ c ∈ data.toList.head?, isWhitespace c = false
  back : ∀ c ∈ data.toList.getLast?, isWhitespace c = false
  not_hex : (splitWhitespace data).head? ≠ some "--hex"

theorem splitWhitespace_eq (input : String) :
    splitWhitespace input = (words isWhitespace input.toList).map String.ofList := by
  unfold splitWhitespace words
  congr 1
  apply List.filter_congr
  intro w _
  cases w <;> rfl

/-- The data as it is put together. -/
def rejoined (data : String) : String := " ".intercalate (splitWhitespace data)

private theorem toList_rejoined (data : String) :
    (rejoined data).toList = [' '].intercalate (words isWhitespace data.toList) := by
  have hmap : ((words isWhitespace data.toList).map String.ofList).map String.toList =
      words isWhitespace data.toList := by
    simp [Function.comp_def]
  rw [rejoined, String.toList_intercalate, splitWhitespace_eq, hmap]
  rfl

private theorem asBytes_injective : Function.Injective asBytes := by
  intro s t h
  apply String.toByteArray_inj.mp
  exact ByteArray.ext (Array.toList_inj.mp h)

/-- Nothing else is changed. -/
theorem rejoined_eq_iff (data : String) :
    rejoined data = data ↔ Spaced isWhitespace ' ' data.toList := by
  rw [← Words.intercalate_words_eq_iff (by decide), ← toList_rejoined, String.toList_inj]

theorem splitWhitespace_writeLine (port data : String) :
    splitWhitespace (writeLine port data) =
      "write" :: (splitWhitespace port ++ splitWhitespace data) := by
  have hline : (writeLine port data).toList =
      "write".toList ++ ' ' :: (port.toList ++ ' ' :: data.toList) := by
    have htext : writeLine port data = "write " ++ port ++ " " ++ data := rfl
    simp [htext]
  have hwrite : words isWhitespace "write".toList = ["write".toList] :=
    Words.words_of_isWord ⟨by decide, by simp [isWhitespace]⟩
  rw [splitWhitespace_eq, hline, Words.words_append_sep _ (by decide), hwrite,
    Words.words_append_sep _ (by decide)]
  simp [splitWhitespace_eq]

/-- The request of a write, of a port and the words behind it. -/
theorem parseWords_write (port word : String) (rest : List String) (hword : word ≠ "--hex") :
    parseWords "write" (port :: word :: rest) = some ⟨"write_port",
      .object [("port", .string port), ("data", .string (" ".intercalate (word :: rest)))]⟩ := by
  simp [parseWords]

section Transmission

variable {readFloat : NumLit → Rat} {showFloat : Rat → NumLit} {handler : Handler}
  {m : SerialManager} {decoded : Except String (List UInt8)}

/-- A write without an encoding gives the bytes of its data to the port. -/
theorem transmits_eq {r : Request} {port data : String} (hcmd : r.cmd = "write_port")
    (hport : r.args.strArg "port" = some port) (hdata : r.args.strArg "data" = some data)
    (hencoding : r.args.strArg "encoding" = none) :
    (handler.receiving r).transmits m decoded =
      (m.ports.lookup port).map fun op => (op.tx, asBytes data) := by
  have hroute : route r = .write := by simp [route, hcmd]
  have hbytes : Dispatch.writeBytes r.args decoded = .ok (port, asBytes data) := by
    simp [Dispatch.writeBytes, hport, hdata, hencoding]
  simp only [Conn.transmits, Conn.parse, Handler.receiving, hroute, hbytes, Option.bind_some,
    Conn.locate]
  cases m.ports.lookup port with
  | none => rfl
  | some op => rfl

private theorem transmitted_of_words {line port word : String} {rest : List String}
    (hline : splitWhitespace line = "write" :: port :: word :: rest) (hword : word ≠ "--hex") :
    transmitted readFloat showFloat handler m decoded line =
      (m.ports.lookup port).map fun op =>
        (op.tx, asBytes (" ".intercalate (word :: rest))) := by
  have hparse : parseCommand line = some ⟨"write_port",
      .object [("port", .string port), ("data", .string (" ".intercalate (word :: rest)))]⟩ := by
    rw [parseCommand, hline]
    exact parseWords_write port word rest hword
  obtain ⟨-, args, hread, hargs⟩ :=
    daemonRequest_requestLine readFloat showFloat (parseCommand_sent hparse).plainArgs
  rw [transmitted, typedRequest, hparse, Option.bind_some, hread, Option.bind_some]
  apply transmits_eq rfl
  · rw [Value.strArg, hargs]
    rfl
  · rw [Value.strArg, hargs]
    rfl
  · rw [Value.strArg, hargs]
    rfl

/-- The first word of data is not empty, and has no white space. -/
theorem TextData.exists_words {data : String} (h : TextData data) : ∃ word rest,
    splitWhitespace data = word :: rest ∧ word ≠ "--hex" ∧ word ≠ "" := by
  have hne : words isWhitespace data.toList ≠ [] :=
    Words.words_ne_nil h.front (by simpa using h.not_empty)
  obtain ⟨w, ws, hws⟩ := List.exists_cons_of_ne_nil hne
  have hsplit : splitWhitespace data = String.ofList w :: ws.map String.ofList := by
    rw [splitWhitespace_eq, hws, List.map_cons]
  have hword : Words.IsWord isWhitespace w :=
    Words.isWord_of_mem_words (hws ▸ List.mem_cons_self)
  refine ⟨_, _, hsplit, ?_, ?_⟩
  · intro hhex
    exact h.not_hex (by rw [hsplit, hhex]; rfl)
  · intro hempty
    exact hword.1 (by simpa using congrArg String.toList hempty)

/-- The data is put together from its words, and the port gets its bytes. -/
theorem transmitted_writeLine {port data : String} (hport : port ≠ "")
    (hname : ∀ c ∈ port.toList, isWhitespace c = false) (hdata : TextData data) :
    transmitted readFloat showFloat handler m decoded (writeLine port data) =
      (m.ports.lookup port).map fun op => (op.tx, asBytes (rejoined data)) := by
  obtain ⟨word, rest, hwords, hhex, -⟩ := hdata.exists_words
  have hsplit : splitWhitespace port = [port] := by
    rw [splitWhitespace_eq, Words.words_of_isWord ⟨by simpa using hport, hname⟩]
    simp
  have hline : splitWhitespace (writeLine port data) = "write" :: port :: word :: rest := by
    rw [splitWhitespace_writeLine, hsplit, hwords, List.singleton_append]
  rw [transmitted_of_words hline hhex, rejoined, hwords]

/-- What is transmitted goes to the port that the request names. -/
theorem exists_port_of_transmits {r : Request} {k : ChannelId} {bytes : List UInt8}
    (h : (handler.receiving r).transmits m decoded = some (k, bytes)) :
    ∃ port op, r.args.strArg "port" = some port ∧ m.ports.lookup port = some op ∧ op.tx = k := by
  obtain ⟨x, hx, hstage⟩ := Option.bind_eq_some_iff.mp h
  obtain ⟨y, hparse, hlocate⟩ := Option.bind_eq_some_iff.mp hx
  simp only [Conn.parse, Handler.receiving] at hparse
  split at hparse
  · rename_i port bytes' hroute hbytes
    obtain rfl := Option.some.inj hparse
    simp only [Conn.locate] at hlocate
    split at hlocate
    · rename_i op hop
      obtain rfl := Option.some.inj hlocate
      obtain ⟨htx, -⟩ := Prod.mk.inj (Option.some.inj hstage)
      refine ⟨port, op, ?_, hop, htx⟩
      unfold Dispatch.writeBytes at hbytes
      split at hbytes
      · simp at hbytes
      · simp at hbytes
      · rename_i hport hdata
        rw [hport]
        split at hbytes
        · obtain ⟨rfl, -⟩ := Prod.mk.inj (Except.ok.inj hbytes)
          rfl
        · simp at hbytes
        · obtain ⟨rfl, -⟩ := Prod.mk.inj (Except.ok.inj hbytes)
          rfl
    · obtain rfl := Option.some.inj hlocate
      simp [Conn.respond] at hstage
  · obtain rfl := Option.some.inj hparse
    simp [Conn.locate, Conn.respond] at hlocate
  · simp at hparse

/-- Without a name the first word of the data is taken for the port. -/
theorem transmitted_writeLine_empty {data : String} {op : OpenPort} (hdata : TextData data)
    (hopen : m.ports.lookup "" = some op) (bytes : List UInt8) :
    transmitted readFloat showFloat handler m decoded (writeLine "" data) ≠
      some (op.tx, bytes) := by
  obtain ⟨word, rest, hwords, -, hne⟩ := hdata.exists_words
  have hline : splitWhitespace (writeLine "" data) = "write" :: word :: rest := by
    rw [splitWhitespace_writeLine, hwords]
    rfl
  intro h
  obtain ⟨r, htyped, htransmits⟩ := Option.bind_eq_some_iff.mp h
  obtain ⟨req, hparse, hread⟩ := Option.bind_eq_some_iff.mp htyped
  have hnamed : req.args.strArg "port" = some word := by
    have hparse' : parseWords "write" (word :: rest) = some req := by
      rw [parseCommand, hline] at hparse
      exact hparse
    cases rest with
    | nil => simp [parseWords] at hparse'
    | cons second rest =>
        by_cases hhex : second = "--hex"
        · subst hhex
          simp only [parseWords, Option.some.injEq] at hparse'
          subst hparse'
          rfl
        · rw [parseWords_write word second rest hhex] at hparse'
          obtain rfl := Option.some.inj hparse'
          rfl
  obtain ⟨-, args, hread', hargs⟩ :=
    daemonRequest_requestLine readFloat showFloat (parseCommand_sent hparse).plainArgs
  obtain rfl := Option.some.inj (hread.symm.trans hread')
  obtain ⟨port, op', hport, hop, htx⟩ := exists_port_of_transmits htransmits
  have hsame : port = word := by
    rw [Value.strArg, hargs] at hport
    exact Option.some.inj (hport.symm.trans hnamed)
  exact hne (hsame ▸ m.tx_inj port "" op' op hop hopen htx)

/-- When a write is verbatim. Of data without white space at its ends, the port gets
exactly the bytes if the port has a name and the words of the data have one space
between them. -/
theorem transmitted_verbatim_iff {port data : String} {op : OpenPort}
    (hname : ∀ c ∈ port.toList, isWhitespace c = false) (hdata : TextData data)
    (hopen : m.ports.lookup port = some op) :
    transmitted readFloat showFloat handler m decoded (writeLine port data) =
        some (op.tx, asBytes data) ↔
      port ≠ "" ∧ Spaced isWhitespace ' ' data.toList := by
  by_cases hport : port = ""
  · subst hport
    exact iff_of_false (transmitted_writeLine_empty hdata hopen _) fun h => h.1 rfl
  · rw [transmitted_writeLine hport hname hdata, hopen, and_iff_right hport,
      ← rejoined_eq_iff, Option.map_some, Option.some.injEq, Prod.mk.injEq, and_iff_right rfl]
    constructor
    · exact fun hbytes => asBytes_injective hbytes
    · exact congrArg asBytes

end Transmission

/-- A manager with one open port. -/
def onePort : SerialManager := SerialManager.new.insertPort "COM3" ⟨115200, 8, 'N', 1⟩

theorem lookup_onePort : onePort.ports.lookup "COM3" = some ⟨0, ⟨115200, 8, 'N', 1⟩⟩ := by
  rw [onePort, SerialManager.lookup_ports_insertPort, if_pos rfl]
  rfl

private theorem textData_twoSpaces : TextData "a  b" :=
  ⟨by decide, by simp [isWhitespace], by simp [isWhitespace], by decide⟩

private theorem textData_oneSpace : TextData "AT OK" :=
  ⟨by decide, by simp [isWhitespace], by simp [isWhitespace], by decide⟩

theorem no_whitespace_onePort : ∀ c ∈ "COM3".toList, isWhitespace c = false := by
  simp [isWhitespace]

/-- The second of two spaces is lost. -/
theorem writeLine_not_always_verbatim : ¬ ∀ (readFloat : NumLit → Rat)
    (showFloat : Rat → NumLit) (handler : Handler) (m : SerialManager)
    (decoded : Except String (List UInt8)) (port data : String) (op : OpenPort),
    (∀ c ∈ port.toList, isWhitespace c = false) → TextData data →
    m.ports.lookup port = some op →
    transmitted readFloat showFloat handler m decoded (writeLine port data) =
      some (op.tx, asBytes data) := by
  intro hverbatim
  have hsent := hverbatim (fun _ => 0) (fun _ => .ofNat 0) (.accept ⟨64, [], 1⟩) onePort (.ok [])
    "COM3" "a  b" _ no_whitespace_onePort textData_twoSpaces lookup_onePort
  rw [transmitted_writeLine (by decide) no_whitespace_onePort textData_twoSpaces, lookup_onePort,
    Option.map_some, Option.some.injEq, Prod.mk.injEq] at hsent
  exact absurd (asBytes_injective hsent.2) (by decide)

/-- One space between words is kept. -/
theorem writeLine_verbatim : transmitted (fun _ => 0) (fun _ => .ofNat 0)
    (.accept ⟨64, [], 1⟩) onePort (.ok []) (writeLine "COM3" "AT OK") =
      some (0, asBytes "AT OK") := by
  have hspaced : Spaced isWhitespace ' ' "AT OK".toList :=
    (rejoined_eq_iff "AT OK").mp (by decide)
  exact (transmitted_verbatim_iff no_whitespace_onePort textData_oneSpace lookup_onePort).mpr
    ⟨by decide, hspaced⟩

end Repl

end Commmon

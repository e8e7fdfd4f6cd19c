/-
# Requests and responses over one connection

A client of the daemon does not number its requests: the first response belongs
to the first request. The daemon's loop answers the lines one at a time, but two
more tasks write notifications on the same connection whenever they like, and
what is written arrives in chunks that are cut anywhere. So a promise gets its
own response only if the loop, the writers, the data handler and the queue of
promises agree about every line.

What a command answers, how a line is parsed and how a floating point number is
written are left open.
-/

import Commmon.DaemonClient
import Commmon.Lib.StepSystem

set_option autoImplicit false

namespace Commmon

/-- The white space of `str::trim`. -/
def isWhitespace (c : Char) : Bool :=
  c.toNat ∈ [0x9, 0xA, 0xB, 0xC, 0xD, 0x20, 0x85, 0xA0, 0x1680, 0x2000, 0x2001, 0x2002, 0x2003,
    0x2004, 0x2005, 0x2006, 0x2007, 0x2008, 0x2009, 0x200A, 0x2028, 0x2029, 0x202F, 0x205F, 0x3000]

/-- A line that is not blank. -/
structure RequestLine where
  text : List Char
  one_line : '\n' ∉ text
  not_blank : ∃ c ∈ text, isWhitespace c = false

/-- What `send` writes is such a line. -/
def RequestLine.ofSend (cmd : String) (args : Json) : RequestLine where
  text := requestText cmd args
  one_line := newline_not_mem_print _
  not_blank := ⟨'{', List.mem_cons_self, by decide⟩

/-- A line without the carriage return that `next_line` strips. -/
def stripReturn (line : List Char) : List Char :=
  if line.getLast? = some '\r' then line.dropLast else line

/-- `next_line`: the next line, once it is complete. -/
def nextLine (inbound : List Char) : Option (List Char × List Char) :=
  (LineBuffer.takeLine '\n' inbound).map fun (line, rest) => (stripReturn line, rest)

/-- The line as the loop looks at it. -/
def RequestLine.trimmed (line : RequestLine) : List Char :=
  trim isWhitespace (stripReturn line.text)

private theorem trim_ne_nil {space : Char → Bool} {cs : List Char} (h : ∃ c ∈ cs, space c = false) :
    trim space cs ≠ [] := by
  obtain ⟨c, hc, hspace⟩ := h
  intro hnil
  rw [trim, List.rdropWhile_eq_nil_iff] at hnil
  cases hdrop : cs.dropWhile space with
  | nil =>
      have hall := List.dropWhile_eq_nil_iff.mp hdrop c hc
      simp [hspace] at hall
  | cons d rest =>
      have hhead := List.head?_dropWhile_not space cs
      rw [hdrop] at hnil hhead
      have htrue := hnil d List.mem_cons_self
      simp [htrue] at hhead

private theorem RequestLine.trimmed_ne_nil (line : RequestLine) : line.trimmed ≠ [] := by
  obtain ⟨c, hc, hspace⟩ := line.not_blank
  refine trim_ne_nil ⟨c, ?_, hspace⟩
  unfold stripReturn
  split_ifs with hlast
  · obtain ⟨front, hfront⟩ := List.getLast?_eq_some_iff.mp hlast
    rw [hfront, List.dropLast_concat]
    rw [hfront, List.mem_append, List.mem_singleton] at hc
    apply hc.resolve_right
    rintro rfl
    exact absurd hspace (by decide)
  · exact hc

inductive Message
  | response (resp : Response)
  | notification (n : Notification)

namespace Message

def response? : Message → Option Response
  | response resp => some resp
  | notification _ => none

/-- No notification has an empty name. -/
def Named : Message → Prop
  | response _ => True
  | notification n => n.notify ≠ ""

end Message

def responses (written : List Message) : List Response := written.filterMap Message.response?

section

variable (showFloat : Rat → NumLit)

def Message.toJson : Message → Json
  | .response resp => resp.toJson showFloat
  | .notification n => n.toJson showFloat

/-- What a message does to the buffers of the client. -/
def DaemonClient.note (c : DaemonClient) : Message → DaemonClient
  | .response _ => c
  | .notification n => c.onNotify (.str n.notify) (some (n.data.toJson showFloat))

end

/-- An established connection. `dispatching` is the line that the loop is at,
with what it was parsed to. `inbound` is what the daemon has not read, and
`outbound` what has not arrived at the client. -/
structure Connection where
  client : DaemonClient
  sends : List RequestLine
  settled : List (SendId × Json)
  inbound : List Char
  dispatching : Option (List Char × Except String Request)
  answered : List (List Char × Response)
  written : List Message
  outbound : List Char

inductive ConnectionEvent
  | send (line : RequestLine)
  | readLine
  | respond (resp : Response)
  | notifyTask (n : Notification)
  | streamTask (p : Push)
  | data (n : ℕ)

/-- The response to a line: that of the command, or the parser's error. -/
def answer : Except String Request → Response → Response
  | .error e, _ => .ofError s!"JSON 파싱 오류: {e}"
  | .ok _, resp => resp

namespace Connection

section

variable (showFloat : Rat → NumLit) (fromStr : List Char → Except String Request)

/-- A line is written whole, while the writer is locked. -/
def write (w : Connection) (m : Message) : Connection :=
  { w with
    written := w.written ++ [m]
    outbound := w.outbound ++ lineOf (m.toJson showFloat) }

def step (w : Connection) : ConnectionEvent → Option Connection
  | .send line => some { w with
      client := w.client.push w.sends.length
      sends := w.sends ++ [line]
      inbound := w.inbound ++ (line.text ++ ['\n']) }
  | .readLine =>
      match w.dispatching, nextLine w.inbound with
      | none, some (line, rest) =>
          let line := trim isWhitespace line
          if line = [] then some { w with inbound := rest }
          else some { w with inbound := rest, dispatching := some (line, fromStr line) }
      | _, _ => none
  | .respond resp =>
      match w.dispatching with
      | some (line, parsed) =>
          some { w.write showFloat (.response (answer parsed resp)) with
            dispatching := none
            answered := w.answered ++ [(line, answer parsed resp)] }
      | none => none
  | .notifyTask n =>
      if n.notify = "log_stopped" then some (w.write showFloat (.notification n)) else none
  | .streamTask p => some (w.write showFloat (.notification p.notification))
  | .data n =>
      if 0 < n ∧ n ≤ w.outbound.length then
        let r := w.client.onData (w.outbound.take n)
        some { w with
          client := r.1
          settled := w.settled ++ r.2
          outbound := w.outbound.drop n }
      else none

end

end Connection

/-- All runs of a connection. Its client may have any buffers. -/
def connection (showFloat : Rat → NumLit) (fromStr : List Char → Except String Request)
    (start : DaemonClient) : StepSystem Connection ConnectionEvent where
  init := ⟨{ start with pending := [], buffer := [] }, [], [], [], none, [], [], []⟩
  step := Connection.step showFloat fromStr

namespace DaemonClient

variable (showFloat : Rat → NumLit)

private theorem note_withPending (c : DaemonClient) (pending : List SendId) (m : Message) :
    note showFloat { c with pending := pending } m =
      { note showFloat c m with pending := pending } := by
  cases m with
  | response resp => rfl
  | notification n =>
      simp only [note, onNotify]
      split <;> (try split_ifs) <;> rfl

private theorem foldl_note_withPending (msgs : List Message) (pending : List SendId) :
    ∀ c : DaemonClient, msgs.foldl (note showFloat) { c with pending := pending } =
      { msgs.foldl (note showFloat) c with pending := pending } := by
  induction msgs with
  | nil => exact fun c => rfl
  | cons m msgs ih =>
      intro c
      rw [List.foldl_cons, note_withPending, ih]
      rfl

private theorem buffer_foldl_note (msgs : List Message) :
    ∀ c : DaemonClient, (msgs.foldl (note showFloat) c).buffer = c.buffer := by
  induction msgs with
  | nil => exact fun c => rfl
  | cons m msgs ih =>
      intro c
      rw [List.foldl_cons, ih]
      cases m with
      | response resp => rfl
      | notification n => exact buffer_onNotify _ _

/-- Two clients with the same buffers of received data. -/
structure SameBuffers (c c' : DaemonClient) : Prop where
  rxStreamBuffers : c.rxStreamBuffers = c'.rxStreamBuffers
  filterHits : c.filterHits = c'.filterHits

private theorem SameBuffers.note {c c' : DaemonClient} (h : SameBuffers c c') (m : Message) :
    SameBuffers (c.note showFloat m) (c'.note showFloat m) := by
  cases m with
  | response resp => exact h
  | notification n =>
      simp only [DaemonClient.note, onNotify, h.rxStreamBuffers, h.filterHits]
      split <;> (try split_ifs) <;>
        first
        | exact ⟨rfl, rfl⟩
        | exact ⟨rfl, h.filterHits⟩
        | exact ⟨h.rxStreamBuffers, rfl⟩
        | exact h

private theorem SameBuffers.foldl_note (msgs : List Message) :
    ∀ {c c' : DaemonClient}, SameBuffers c c' →
      SameBuffers (msgs.foldl (DaemonClient.note showFloat) c)
        (msgs.foldl (DaemonClient.note showFloat) c') := by
  induction msgs with
  | nil => exact fun h => h
  | cons m msgs ih => exact fun h => ih (h.note showFloat m)

theorem onLine_message (c : DaemonClient) (m : Message) :
    c.onLine (m.toJson showFloat).print = c.handle (m.toJson showFloat) := by
  cases m with
  | response resp => exact onLine_print _
  | notification n => exact onLine_print _

/-- The messages of one chunk: the responses resolve the promises at the front
of the queue, and the notifications are noted. -/
theorem onLines_messages (msgs : List Message) (hnamed : ∀ m ∈ msgs, m.Named) :
    ∀ c : DaemonClient, (responses msgs).length ≤ c.pending.length →
      c.onLines (msgs.map fun m => (m.toJson showFloat).print) =
        ({ msgs.foldl (note showFloat) c with
            pending := c.pending.drop (responses msgs).length },
          (c.pending.take (responses msgs).length).zip
            ((responses msgs).map fun resp => resp.toJson showFloat)) := by
  induction msgs with
  | nil =>
      intro c _
      simp [onLines, responses]
  | cons m msgs ih =>
      obtain ⟨hm, hmsgs⟩ := List.forall_mem_cons.mp hnamed
      intro c hlength
      simp only [List.map_cons, onLines, onLine_message]
      cases m with
      | response resp =>
          have hcons : responses (.response resp :: msgs) = resp :: responses msgs := rfl
          rw [hcons, List.length_cons] at hlength
          obtain ⟨i, rest, hpending⟩ : ∃ i rest, c.pending = i :: rest :=
            List.exists_cons_of_length_pos (Nat.lt_of_lt_of_le (Nat.succ_pos _) hlength)
          rw [hpending, List.length_cons] at hlength
          have hrest := ih hmsgs { c with pending := rest } (Nat.le_of_succ_le_succ hlength)
          have hhandle := handle_response (c := c) showFloat resp
          rw [hpending] at hhandle
          rw [Message.toJson, hhandle, hrest, hcons, hpending, foldl_note_withPending]
          rfl
      | notification n =>
          have hcons : responses (.notification n :: msgs) = responses msgs := rfl
          rw [hcons] at hlength ⊢
          have hhandle := handle_notification (c := c) showFloat hm
          have hrest := ih hmsgs (c.note showFloat (.notification n))
            (by simpa [note] using hlength)
          rw [note, pending_onNotify] at hrest
          rw [Message.toJson, hhandle, hrest]
          rfl

end DaemonClient

namespace Connection

variable (showFloat : Rat → NumLit) (fromStr : List Char → Except String Request)
  (start : DaemonClient)

/-- How many request lines the loop has taken. -/
def taken (w : Connection) : ℕ := w.answered.length + w.dispatching.toList.length

/-- The daemon's side: the loop has taken the first lines that were sent, and has
written one response for each of them but the one it is at. -/
structure Answering (w : Connection) : Prop where
  asked : w.answered.map Prod.fst ++ w.dispatching.toList.map Prod.fst =
    (w.sends.take w.taken).map RequestLine.trimmed
  taken_le : w.taken ≤ w.sends.length
  inbound : w.inbound =
    LineBuffer.frame '\n' ((w.sends.drop w.taken).map RequestLine.text)
  parsed : ∀ line p, w.dispatching = some (line, p) → p = fromStr line
  responses : w.answered.map Prod.snd = responses w.written
  answers : ∀ line resp, (line, resp) ∈ w.answered → ∃ r, resp = answer (fromStr line) r
  named : ∀ m ∈ w.written, m.Named

/-- The client's side: it has handled the first `n` messages. -/
structure Hearing (n : ℕ) (w : Connection) : Prop where
  handled_le : n ≤ w.written.length
  outbound : w.client.buffer ++ w.outbound = LineBuffer.frame '\n'
    ((w.written.drop n).map fun m => (m.toJson showFloat).print)
  buffer : '\n' ∉ w.client.buffer
  values : w.settled.map Prod.snd =
    (Commmon.responses (w.written.take n)).map fun resp => resp.toJson showFloat
  ids : w.settled.map Prod.fst = (List.range w.sends.length).take w.settled.length
  pending : w.client.pending = (List.range w.sends.length).drop w.settled.length
  buffers : DaemonClient.SameBuffers w.client
    ((w.written.take n).foldl (DaemonClient.note showFloat) start)

variable {showFloat} {fromStr} {start} {w : Connection} {n : ℕ}

/-- No more promises have been resolved than requests sent. -/
theorem Hearing.settled_le (h : Hearing showFloat start n w) (ha : Answering fromStr w) :
    w.settled.length ≤ w.sends.length := by
  have hvalues := congrArg List.length h.values
  have hresponses := congrArg List.length ha.responses
  have hsub : (Commmon.responses (w.written.take n)).length ≤
      (Commmon.responses w.written).length :=
    ((List.take_sublist n w.written).filterMap _).length_le
  have htaken := ha.taken_le
  rw [taken] at htaken
  simp only [List.length_map] at hvalues hresponses
  omega

theorem Answering.send (h : Answering fromStr w) (line : RequestLine) (client : DaemonClient) :
    Answering fromStr { w with
      client := client
      sends := w.sends ++ [line]
      inbound := w.inbound ++ (line.text ++ ['\n']) } := by
  refine ⟨?_, ?_, ?_, h.parsed, h.responses, h.answers, h.named⟩
  · have htake : (w.sends ++ [line]).take w.taken = w.sends.take w.taken :=
      List.take_append_of_le_length h.taken_le
    have hasked := h.asked
    rwa [← htake] at hasked
  · have hle := h.taken_le
    simp only [taken, List.length_append, List.length_singleton] at hle ⊢
    omega
  · have hdrop : (w.sends ++ [line]).drop w.taken = w.sends.drop w.taken ++ [line] :=
      List.drop_append_of_le_length h.taken_le
    simp only [taken] at hdrop
    simp only [taken, hdrop, h.inbound, LineBuffer.frame, List.map_append, List.flatMap_append]
    simp

theorem Hearing.send (h : Hearing showFloat start n w) (ha : Answering fromStr w)
    (line : RequestLine) : Hearing showFloat start n { w with
      client := w.client.push w.sends.length
      sends := w.sends ++ [line]
      inbound := w.inbound ++ (line.text ++ ['\n']) } := by
  have hle : w.settled.length ≤ (List.range w.sends.length).length := by
    rw [List.length_range]
    exact h.settled_le ha
  have hrange : List.range (w.sends ++ [line]).length =
      List.range w.sends.length ++ [w.sends.length] := by
    rw [List.length_append, List.length_singleton, List.range_succ]
  refine ⟨h.handled_le, h.outbound, h.buffer, h.values, ?_, ?_,
    ⟨h.buffers.rxStreamBuffers, h.buffers.filterHits⟩⟩
  · rw [hrange, List.take_append_of_le_length hle]
    exact h.ids
  · rw [hrange, List.drop_append_of_le_length hle]
    exact congrArg (· ++ [w.sends.length]) h.pending

/-- A line is written behind the others. -/
theorem Hearing.write (h : Hearing showFloat start n w) (m : Message) :
    Hearing showFloat start n (w.write showFloat m) := by
  have htake : (w.written ++ [m]).take n = w.written.take n :=
    List.take_append_of_le_length h.handled_le
  have hdrop : (w.written ++ [m]).drop n = w.written.drop n ++ [m] :=
    List.drop_append_of_le_length h.handled_le
  refine ⟨?_, ?_, h.buffer, ?_, h.ids, h.pending, ?_⟩
  · exact Nat.le_trans h.handled_le (by simp [Connection.write])
  · simp only [Connection.write, hdrop, List.map_append, LineBuffer.frame, List.flatMap_append,
      ← List.append_assoc]
    rw [h.outbound, LineBuffer.frame]
    simp [lineOf]
  · rw [Connection.write, htake]
    exact h.values
  · rw [Connection.write, htake]
    exact h.buffers

private theorem Answering.note (h : Answering fromStr w) {note : Notification}
    (hname : note.notify ≠ "") : Answering fromStr (w.write showFloat (.notification note)) := by
  refine ⟨h.asked, h.taken_le, h.inbound, h.parsed, ?_, h.answers, ?_⟩
  · simp [Connection.write, Commmon.responses, Message.response?, h.responses]
  · intro m hm
    obtain hm | rfl : m ∈ w.written ∨ m = .notification note := by
      simpa [Connection.write] using hm
    · exact h.named m hm
    · exact hname

/-- The loop takes the next line. -/
theorem Answering.readLine (h : Answering fromStr w) (hidle : w.dispatching = none)
    {line rest : List Char} (hnext : nextLine w.inbound = some (line, rest)) :
    ∃ request, w.sends[w.answered.length]? = some request ∧
      trim isWhitespace line = request.trimmed ∧
      Answering fromStr { w with
        inbound := rest
        dispatching := some (request.trimmed, fromStr request.trimmed) } := by
  have htaken : w.taken = w.answered.length := by simp [taken, hidle]
  have hinbound := h.inbound
  rw [htaken] at hinbound
  cases hdrop : w.sends.drop w.answered.length with
  | nil =>
      rw [hdrop] at hinbound
      rw [hinbound] at hnext
      simp [nextLine, LineBuffer.takeLine, LineBuffer.frame] at hnext
  | cons request more =>
      have hget : w.sends[w.answered.length]? = some request := by
        have hhead := congrArg List.head? hdrop
        rwa [List.head?_drop] at hhead
      have hlt : w.answered.length < w.sends.length := (List.getElem?_eq_some_iff.mp hget).1
      have hmore : w.sends.drop (w.answered.length + 1) = more := by
        rw [← List.drop_drop, hdrop]
        rfl
      rw [hdrop] at hinbound
      have hsplit : w.inbound =
          request.text ++ '\n' :: LineBuffer.frame '\n' (more.map RequestLine.text) := by
        rw [hinbound]
        simp [LineBuffer.frame]
      rw [nextLine, hsplit, LineBuffer.takeLine_line request.one_line] at hnext
      obtain ⟨rfl, rfl⟩ := Prod.mk.inj (Option.some.inj hnext)
      refine ⟨request, hget, rfl, ?_, ?_, ?_, ?_, h.responses, h.answers, h.named⟩
      · have hasked := h.asked
        rw [htaken, hidle] at hasked
        simp only [taken, Option.toList_some, List.length_singleton, List.take_add_one, hget,
          List.map_append, ← hasked]
        simp
      · simpa [taken] using Nat.succ_le_of_lt hlt
      · simp [taken, hmore]
      · intro line p hp
        obtain ⟨rfl, rfl⟩ := Prod.mk.inj (Option.some.inj hp)
        rfl

theorem Answering.respond (h : Answering fromStr w) {line : List Char}
    {parsed : Except String Request} (hline : w.dispatching = some (line, parsed))
    (resp : Response) : Answering fromStr { w.write showFloat (.response (answer parsed resp)) with
      dispatching := none
      answered := w.answered ++ [(line, answer parsed resp)] } := by
  have htaken : w.taken = w.answered.length + 1 := by simp [taken, hline]
  have hasked := h.asked
  have hle := h.taken_le
  have hinbound := h.inbound
  rw [htaken] at hasked hle hinbound
  rw [hline] at hasked
  have hnow : ∀ w' : Connection, w'.answered = w.answered ++ [(line, answer parsed resp)] →
      w'.dispatching = none → w'.taken = w.answered.length + 1 := by
    intro w' hanswered hidle
    simp [taken, hanswered, hidle]
  refine ⟨?_, ?_, ?_, by simp, ?_, ?_, ?_⟩
  · rw [hnow _ rfl rfl]
    simpa [Connection.write] using hasked
  · rw [hnow _ rfl rfl]
    exact hle
  · rw [hnow _ rfl rfl]
    exact hinbound
  · simp [Connection.write, Commmon.responses, Message.response?, h.responses]
  · intro line' resp' hmem
    obtain hmem | ⟨rfl, rfl⟩ : (line', resp') ∈ w.answered ∨
        (line' = line ∧ resp' = answer parsed resp) := by simpa using hmem
    · exact h.answers line' resp' hmem
    · exact ⟨resp, by rw [h.parsed _ _ hline]⟩
  · intro m hm
    obtain hm | rfl : m ∈ w.written ∨ m = .response (answer parsed resp) := by
      simpa [Connection.write] using hm
    · exact h.named m hm
    · trivial

/-- The lines that a chunk completes are the next messages. -/
theorem Hearing.lines (h : Hearing showFloat start n w) (k : ℕ) :
    ∃ j, j ≤ w.written.length - n ∧
      (LineBuffer.split '\n' (w.client.buffer ++ w.outbound.take k)).1 =
        ((w.written.drop n).take j).map (fun m => (m.toJson showFloat).print) ∧
      (LineBuffer.split '\n' (w.client.buffer ++ w.outbound.take k)).2 ++ w.outbound.drop k =
        LineBuffer.frame '\n'
          ((w.written.drop (n + j)).map fun m => (m.toJson showFloat).print) := by
  have hframe : (w.client.buffer ++ w.outbound.take k) ++ w.outbound.drop k =
      LineBuffer.frame '\n' ((w.written.drop n).map fun m => (m.toJson showFloat).print) := by
    rw [List.append_assoc, List.take_append_drop, h.outbound]
  have hfree : ∀ line ∈ (w.written.drop n).map fun m => (m.toJson showFloat).print,
      '\n' ∉ line := by
    intro line hline
    obtain ⟨m, -, rfl⟩ := List.mem_map.mp hline
    exact newline_not_mem_print _
  obtain ⟨j, hj, hlines, hrest⟩ := LineBuffer.split_of_frame hfree hframe
  rw [List.length_map, List.length_drop] at hj
  rw [← List.map_take] at hlines
  rw [← List.map_drop, List.drop_drop] at hrest
  exact ⟨j, hj, hlines, hrest⟩

private theorem responses_take_add (messages : List Message) (n j : ℕ) :
    Commmon.responses (messages.take (n + j)) =
      Commmon.responses (messages.take n) ++ Commmon.responses ((messages.drop n).take j) := by
  rw [List.take_add, Commmon.responses, List.filterMap_append]
  rfl

/-- Every response that is on its way has its promise in the queue. -/
theorem Hearing.responses_le_pending (h : Hearing showFloat start n w) (ha : Answering fromStr w)
    (j : ℕ) :
    (Commmon.responses ((w.written.drop n).take j)).length ≤ w.client.pending.length := by
  have hall : (Commmon.responses (w.written.take (n + j))).length ≤ w.sends.length := by
    have hsub : (Commmon.responses (w.written.take (n + j))).length ≤
        (Commmon.responses w.written).length :=
      ((List.take_sublist _ w.written).filterMap _).length_le
    have htaken := ha.taken_le
    have hlength := congrArg List.length ha.responses
    rw [taken] at htaken
    simp only [List.length_map] at hlength
    omega
  have hsettled := congrArg List.length h.values
  simp only [List.length_map] at hsettled
  rw [responses_take_add, List.length_append, ← hsettled] at hall
  rw [h.pending, List.length_drop, List.length_range]
  omega

/-- A chunk arrives. -/
theorem Hearing.data (h : Hearing showFloat start n w) (ha : Answering fromStr w) (k : ℕ) :
    ∃ n', Hearing showFloat start n' { w with
      client := (w.client.onData (w.outbound.take k)).1
      settled := w.settled ++ (w.client.onData (w.outbound.take k)).2
      outbound := w.outbound.drop k } := by
  obtain ⟨j, hj, hlines, hrest⟩ := h.lines k
  -- the responses belong to the promises at the front of the queue
  have hpending := h.responses_le_pending ha j
  have hresponses := responses_take_add w.written n j
  have hwritten : w.written.take (n + j) = w.written.take n ++ (w.written.drop n).take j :=
    List.take_add
  generalize hmsgs : (w.written.drop n).take j = msgs at hlines hwritten hresponses hpending
  have hnamed : ∀ m ∈ msgs, m.Named := fun m hm =>
    ha.named m (List.mem_of_mem_drop (List.mem_of_mem_take (hmsgs ▸ hm)))
  have hdata : w.client.onData (w.outbound.take k) =
      ({ msgs.foldl (DaemonClient.note showFloat) { w.client with
            buffer := (LineBuffer.split '\n' (w.client.buffer ++ w.outbound.take k)).2 } with
          pending := w.client.pending.drop (Commmon.responses msgs).length },
        (w.client.pending.take (Commmon.responses msgs).length).zip
          ((Commmon.responses msgs).map fun resp => resp.toJson showFloat)) := by
    rw [DaemonClient.onData, hlines]
    exact DaemonClient.onLines_messages showFloat msgs hnamed _ hpending
  have hids : (List.range w.sends.length).take w.settled.length ++
      ((List.range w.sends.length).drop w.settled.length).take (Commmon.responses msgs).length =
      (List.range w.sends.length).take (w.settled.length + (Commmon.responses msgs).length) :=
    List.take_add.symm
  have hfront : (w.client.pending.take (Commmon.responses msgs).length).length =
      (Commmon.responses msgs).length := List.length_take_of_le hpending
  have hhandled := h.handled_le
  refine ⟨n + j, ?_, ?_, ?_, ?_, ?_, ?_, ?_⟩
  all_goals rw [hdata]
  · exact Nat.add_le_of_le_sub' hhandled hj
  · rw [DaemonClient.buffer_foldl_note]
    exact hrest
  · rw [DaemonClient.buffer_foldl_note]
    exact LineBuffer.not_mem_split _
  · rw [List.map_append, h.values, hresponses, List.map_append, List.map_snd_zip]
    rw [List.length_map, hfront]
  · rw [List.map_append, List.length_append, List.length_zip, List.length_map, hfront,
      Nat.min_self, ← hids, ← h.ids, ← h.pending, List.map_fst_zip]
    rw [List.length_map, hfront]
  · rw [List.length_append, List.length_zip, List.length_map, hfront, Nat.min_self,
      ← List.drop_drop, ← h.pending]
  · have hbuffers : DaemonClient.SameBuffers { w.client with
        buffer := (LineBuffer.split '\n' (w.client.buffer ++ w.outbound.take k)).2 }
        ((w.written.take n).foldl (DaemonClient.note showFloat) start) :=
      ⟨h.buffers.rxStreamBuffers, h.buffers.filterHits⟩
    have hnoted := hbuffers.foldl_note showFloat msgs
    rw [hwritten, List.foldl_append]
    exact ⟨hnoted.rxStreamBuffers, hnoted.filterHits⟩

private theorem Push.notify_ne (p : Push) : p.notification.notify ≠ "" := by
  cases p <;> simp [Push.notification]

/-- What a step preserves. -/
theorem step_keeps {w' : Connection} {e : ConnectionEvent} (ha : Answering fromStr w)
    (hh : Hearing showFloat start n w) (hstep : w.step showFloat fromStr e = some w') :
    Answering fromStr w' ∧ ∃ n', Hearing showFloat start n' w' := by
  cases e with
  | send line =>
      obtain rfl := Option.some.inj hstep
      exact ⟨ha.send line _, n, hh.send ha line⟩
  | readLine =>
      simp only [step] at hstep
      split at hstep
      · rename_i line rest hidle hnext
        obtain ⟨request, -, htrim, hread⟩ := ha.readLine hidle hnext
        rw [htrim, if_neg request.trimmed_ne_nil] at hstep
        obtain rfl := Option.some.inj hstep
        exact ⟨hread, n, hh.handled_le, hh.outbound, hh.buffer, hh.values, hh.ids, hh.pending,
          hh.buffers⟩
      · simp at hstep
  | respond resp =>
      simp only [step] at hstep
      split at hstep
      · rename_i line parsed hline
        obtain rfl := Option.some.inj hstep
        have hwrite := hh.write (.response (answer parsed resp))
        exact ⟨ha.respond hline resp, n, hwrite.handled_le, hwrite.outbound, hwrite.buffer,
          hwrite.values, hwrite.ids, hwrite.pending, hwrite.buffers⟩
      · simp at hstep
  | notifyTask note =>
      simp only [step] at hstep
      split_ifs at hstep with hname
      obtain rfl := Option.some.inj hstep
      exact ⟨ha.note (by rw [hname]; decide), n, hh.write _⟩
  | streamTask p =>
      obtain rfl := Option.some.inj hstep
      exact ⟨ha.note (Push.notify_ne p), n, hh.write _⟩
  | data k =>
      simp only [step] at hstep
      split_ifs at hstep
      obtain rfl := Option.some.inj hstep
      exact ⟨⟨ha.asked, ha.taken_le, ha.inbound, ha.parsed, ha.responses, ha.answers, ha.named⟩,
        hh.data ha k⟩

/-- What holds in every run. -/
theorem invariant_of_run {es : List ConnectionEvent}
    (hrun : (connection showFloat fromStr start).run es = some w) :
    Answering fromStr w ∧ ∃ n, Hearing showFloat start n w := by
  refine (connection showFloat fromStr start).run_invariant
    (P := fun w => Answering fromStr w ∧ ∃ n, Hearing showFloat start n w) ?_ ?_ hrun
  · refine ⟨⟨rfl, Nat.zero_le _, rfl, by simp [connection], rfl, by simp [connection],
      by simp [connection]⟩, 0, ⟨Nat.zero_le _, rfl, by simp [connection], rfl, rfl, rfl,
      ⟨rfl, rfl⟩⟩⟩
  · rintro s e t ⟨ha, n, hh⟩ hstep
    exact step_keeps ha hh hstep

variable (showFloat) (fromStr) (start)

/-- The promise of the `k`-th request has the `k`-th response, which is the
daemon's answer to the `k`-th line, and every notification has gone to the
buffers. -/
structure Paired (w : Connection) : Prop where
  /-- A promise is resolved with the response of its number and nothing else. -/
  resolved : ∀ (k : ℕ) i msg, w.settled[k]? = some (i, msg) → i = k ∧
    ∃ line resp, w.answered[k]? = some (line, resp) ∧ msg = resp.toJson showFloat
  /-- Every line is answered once, in order. -/
  answers : ∀ (k : ℕ) line resp, w.answered[k]? = some (line, resp) →
    ∃ request r, w.sends[k]? = some request ∧ line = request.trimmed ∧
      resp = answer (fromStr line) r
  responses : w.answered.map Prod.snd = Commmon.responses w.written
  /-- What has been handled is a part of what was written: its responses have
  resolved promises, and its notifications have gone to the buffers. -/
  handled : ∃ n ≤ w.written.length,
    w.settled.map Prod.snd =
      (Commmon.responses (w.written.take n)).map (fun resp => resp.toJson showFloat) ∧
    w.client.SameBuffers ((w.written.take n).foldl (DaemonClient.note showFloat) start)
  /-- With nothing under way, all promises have been resolved. -/
  complete : w.inbound = [] → w.dispatching = none → w.outbound = [] →
    w.settled.length = w.sends.length ∧ w.client.pending = [] ∧
    w.client.SameBuffers (w.written.foldl (DaemonClient.note showFloat) start)

variable {showFloat} {fromStr} {start}

private theorem Answering.all_answered (ha : Answering fromStr w) (hinbound : w.inbound = [])
    (hidle : w.dispatching = none) : w.answered.length = w.sends.length := by
  have hdrop := ha.inbound
  rw [hinbound] at hdrop
  have hnil : w.sends.drop w.taken = [] := by
    cases hsends : w.sends.drop w.taken with
    | nil => rfl
    | cons line lines => simp [hsends, LineBuffer.frame] at hdrop
  have hle := List.drop_eq_nil_iff.mp hnil
  have hge := ha.taken_le
  simp only [taken, hidle, Option.toList_none, List.length_nil, Nat.add_zero] at hle hge
  exact Nat.le_antisymm hge hle

private theorem Hearing.all_handled (hh : Hearing showFloat start n w)
    (houtbound : w.outbound = []) : n = w.written.length := by
  refine Nat.le_antisymm hh.handled_le (List.drop_eq_nil_iff.mp ?_)
  have hframe := hh.outbound
  rw [houtbound, List.append_nil] at hframe
  cases hdrop : w.written.drop n with
  | nil => rfl
  | cons m msgs =>
      refine absurd ?_ hh.buffer
      rw [hframe, hdrop]
      simp [LineBuffer.frame]

private theorem Answering.responses_length (ha : Answering fromStr w) :
    (Commmon.responses w.written).length = w.answered.length := by
  rw [← ha.responses, List.length_map]

end Connection

/-- Requests and responses are paired. Whatever is sent, notified and pushed
meanwhile, and however the daemon's output is cut. -/
theorem responses_paired (showFloat : Rat → NumLit) (fromStr : List Char → Except String Request)
    (start : DaemonClient) {es : List ConnectionEvent} {w : Connection}
    (hrun : (connection showFloat fromStr start).run es = some w) :
    w.Paired showFloat fromStr start := by
  obtain ⟨ha, n, hh⟩ := Connection.invariant_of_run hrun
  refine ⟨?_, ?_, ha.responses, ⟨n, hh.handled_le, hh.values, hh.buffers⟩, ?_⟩
  · intro k i msg hget
    have hk := (List.getElem?_eq_some_iff.mp hget).1
    have hids := congrArg (fun ids => ids[k]?) hh.ids
    have hvalues := congrArg (fun values => values[k]?) hh.values
    have hsends := Nat.lt_of_lt_of_le hk (hh.settled_le ha)
    simp only [List.getElem?_map, hget, Option.map_some, List.getElem?_take_of_lt hk,
      List.getElem?_range hsends, Option.some.injEq] at hids hvalues
    refine ⟨hids, ?_⟩
    obtain ⟨resp, hresp, rfl⟩ := Option.map_eq_some_iff.mp hvalues.symm
    obtain ⟨later, hlater⟩ : responses (w.written.take n) <+: responses w.written :=
      (List.take_prefix n w.written).filterMap _
    have hall : (responses w.written)[k]? = some resp := by
      rw [← hlater, List.getElem?_append_left (List.getElem?_eq_some_iff.mp hresp).1, hresp]
    rw [← ha.responses, List.getElem?_map] at hall
    obtain ⟨⟨line, resp'⟩, hanswered, rfl⟩ := Option.map_eq_some_iff.mp hall
    exact ⟨line, resp', hanswered, rfl⟩
  · intro k line resp hget
    have hk := (List.getElem?_eq_some_iff.mp hget).1
    have hasked := congrArg (fun lines => lines[k]?) ha.asked
    obtain ⟨r, hr⟩ := ha.answers line resp (List.mem_of_getElem? hget)
    have hlt : k < w.taken := Nat.lt_of_lt_of_le hk (Nat.le_add_right _ _)
    simp only [List.getElem?_map, List.getElem?_take_of_lt hlt] at hasked
    rw [List.getElem?_append_left (by simpa using hk), List.getElem?_map, hget] at hasked
    obtain ⟨request, hrequest, heq⟩ := Option.map_eq_some_iff.mp hasked.symm
    exact ⟨request, r, hrequest, heq.symm, hr⟩
  · intro hinbound hidle houtbound
    obtain rfl := hh.all_handled houtbound
    have hanswered := ha.all_answered hinbound hidle
    have hvalues := congrArg List.length hh.values
    rw [List.take_length, List.length_map, List.length_map, ha.responses_length, hanswered]
      at hvalues
    refine ⟨hvalues, ?_, by simpa using hh.buffers⟩
    rw [hh.pending, hvalues]
    exact List.drop_eq_nil_of_le (by rw [List.length_range])

def unknownLine : RequestLine := .ofSend "reboot" (.obj [])

def parseUnknown (line : List Char) : Except String Request :=
  if line = unknownLine.trimmed then .ok ⟨"reboot", .object []⟩
  else .error "expected value at line 1 column 1"

/-- Two unknown commands, with a line of data and a notification that looks like
a response in between. The chunks end within lines. -/
def unknownTwice : List ConnectionEvent :=
  [.send unknownLine, .send unknownLine, .readLine,
    .streamTask (.rxData "P" ⟨0, 0, ⟨"t", [10, 123, 34]⟩⟩),
    .respond (.ofError "알 수 없는 명령: reboot"), .data 30, .readLine,
    .notifyTask ⟨"log_stopped", .object [("file", .string "\x7b\"ok\":true\x7d\n")]⟩, .data 70,
    .respond (.ofError "알 수 없는 명령: reboot"), .data 1, .data 128]

theorem responses_paired_unknown :
    ∃ w, (connection (fun _ => .ofNat 0) parseUnknown .new).run unknownTwice = some w ∧
      w.settled.map Prod.fst = [0, 1] ∧
      w.Paired (fun _ => .ofNat 0) parseUnknown .new := by
  have hruns : ((connection (fun _ => .ofNat 0) parseUnknown .new).run unknownTwice).any
      (fun w => w.settled.map Prod.fst = [0, 1]) = true := by decide +kernel
  obtain ⟨w, hrun, hsettled⟩ := (Option.any_eq_true _ _).mp hruns
  exact ⟨w, hrun, by simpa using hsettled, responses_paired _ _ _ hrun⟩

end Commmon

/-
# The buffers of the MCP server

The server keeps a buffer of the pushes for each port that a tool has subscribed to, and
one for each port that has a filter. A push that is handled goes to the buffer of its port, if
there is one, and the oldest go. The tools make the buffers, empty them and drop them, when
their promises have been resolved.

The data handler turns every chunk into text by itself and appends that to what it
has kept.
-/

import Commmon.Lib.StepSystem
import Commmon.Lib.Window
import Commmon.DaemonClient

set_option autoImplicit false

namespace Commmon

inductive BufferKind
  | rxStream
  | filterHits
  deriving DecidableEq

def BufferKind.notify : BufferKind → String
  | rxStream => "rx_data"
  | filterHits => "filter_hit"

/-- The port that a message's data names. -/
def portOf (data : Json) : Option String :=
  match data.get "port" with
  | some (.str port) => some port
  | _ => none

theorem portOf_eq_some {data : Json} {port : String} :
    portOf data = some port ↔ data.get "port" = some (.str port) := by
  unfold portOf
  cases data.get "port" with
  | none => simp
  | some v => cases v <;> simp

/-- The data of a message that is a push of a kind for a port. -/
def pushFor (kind : BufferKind) (port : String) (msg : Json) : Option Json :=
  match msg.get "notify", msg.get "data" with
  | some (.str name), some data =>
      if name = kind.notify ∧ portOf data = some port then some data else none
  | _, _ => none

/-- The messages of a chunk's lines. What is no JSON text is dropped. -/
def messagesOf (lines : List (List Char)) : List Json :=
  lines.filterMap fun line => Json.parse (trim isJsSpace line)

namespace DaemonClient

/-- The data handler, as it gets its chunk. -/
def onBytes (c : DaemonClient) (chunk : List UInt8) : DaemonClient × List (SendId × Json) :=
  c.onData (Utf8Lossy.chars chunk)

def bufferOf (c : DaemonClient) : BufferKind → String → Option (List Json)
  | .rxStream, port => c.rxStreamBuffers.lookup port
  | .filterHits, port => c.filterHits.lookup port

variable {c : DaemonClient} {kind : BufferKind} {port : String}

private theorem lookup_pushTo (buffers : Table String (List Json)) (data : Json)
    (hport : port ≠ "") : (pushTo buffers data).lookup port = (buffers.lookup port).map fun buf =>
      if portOf data = some port then (buf ++ [data]).rtake maxRxStreamEntries else buf := by
  cases hdata : portOf data with
  | none =>
      have hsame : pushTo buffers data = buffers := by
        unfold pushTo
        split
        · rename_i hget
          simp [portOf_eq_some.mpr hget] at hdata
        · rfl
      simp [hsame]
  | some q =>
      have hget := portOf_eq_some.mp hdata
      simp only [pushTo, hget]
      by_cases heq : q = port
      · subst heq
        cases hbuf : buffers.lookup q with
        | none => simp [hbuf]
        | some buf => simp [hport]
      · have hother : (buffers.lookup port).map (fun buf =>
            if some q = some port then (buf ++ [data]).rtake maxRxStreamEntries else buf) =
              buffers.lookup port := by
          simp [heq]
        rw [hother]
        cases buffers.lookup q with
        | none => rfl
        | some buf =>
            simp only
            split_ifs
            · rw [Table.lookup_insert, if_neg (Ne.symm heq)]
            · rfl

/-- What a notification with data does to the buffer of a port. -/
theorem bufferOf_onNotify (notify : Json) (data : Option Json) (hport : port ≠ "") :
    (c.onNotify notify data).bufferOf kind port = (c.bufferOf kind port).map fun buf =>
      match notify, data with
      | .str name, some data =>
          if name = kind.notify ∧ portOf data = some port then
            (buf ++ [data]).rtake maxRxStreamEntries
          else buf
      | _, _ => buf := by
  have hfalsy : ∀ data, truthy data ≠ true → portOf data ≠ some port := by
    intro data hdata hdataPort
    cases data with
    | obj fields => exact hdata rfl
    | null | bool | num | str | arr => simp [portOf, Json.get] at hdataPort
  unfold onNotify
  split
  · rename_i data
    by_cases hdata : truthy data = true
    · rw [if_pos hdata]
      cases kind with
      | rxStream => simp [bufferOf, lookup_pushTo _ _ hport, BufferKind.notify]
      | filterHits => simp [bufferOf, BufferKind.notify]
    · rw [if_neg hdata]
      simp [hfalsy data hdata]
  · rename_i data
    by_cases hdata : truthy data = true
    · rw [if_pos hdata]
      cases kind with
      | rxStream => simp [bufferOf, BufferKind.notify]
      | filterHits => simp [bufferOf, lookup_pushTo _ _ hport, BufferKind.notify]
    · rw [if_neg hdata]
      simp [hfalsy data hdata]
  · rename_i hrx hhits
    split
    · rename_i name data
      have hname : name ≠ kind.notify := by
        rintro rfl
        cases kind with
        | rxStream => exact hrx data rfl rfl
        | filterHits => exact hhits data rfl rfl
      simp [hname]
    · simp

/-- A message touches the buffer of a port only by a push for the port. -/
theorem bufferOf_handle (msg : Json) (hport : port ≠ "") :
    (c.handle msg).1.bufferOf kind port = (c.bufferOf kind port).map fun buf =>
      Window.keep maxRxStreamEntries buf (pushFor kind port msg).toList := by
  have hkeep : ∀ buf, Window.keep maxRxStreamEntries buf (pushFor kind port msg).toList =
      match msg.get "notify", msg.get "data" with
      | some (.str name), some data =>
          if name = kind.notify ∧ portOf data = some port then
            (buf ++ [data]).rtake maxRxStreamEntries
          else buf
      | _, _ => buf := by
    intro buf
    unfold pushFor
    split
    · split_ifs
      · exact Window.keep_singleton _ _ _
      · rfl
    · rfl
  simp only [hkeep]
  unfold handle
  split
  · simp [Json.get]
  · split
    · rename_i notify hnotify
      obtain ⟨hget, -⟩ := Option.filter_eq_some_iff.mp hnotify
      rw [bufferOf_onNotify _ _ hport, hget]
      cases notify <;> cases msg.get "data" <;> rfl
    · rename_i hnotify
      have hsame : ∀ buf : List Json, (match msg.get "notify", msg.get "data" with
          | some (.str name), some data =>
              if name = kind.notify ∧ portOf data = some port then
                (buf ++ [data]).rtake maxRxStreamEntries
              else buf
          | _, _ => buf) = buf := by
        intro buf
        split
        · rename_i name data hget hdata
          have hname : name ≠ kind.notify := by
            rintro rfl
            rw [hget] at hnotify
            cases kind <;> simp [truthy, BufferKind.notify] at hnotify
          simp [hname]
        · rfl
      simp only [hsame]
      split <;> cases kind <;> simp [bufferOf]

theorem bufferOf_onLines (lines : List (List Char)) (hport : port ≠ "") :
    ∀ c : DaemonClient, (c.onLines lines).1.bufferOf kind port =
      (c.bufferOf kind port).map fun buf => Window.keep maxRxStreamEntries buf
        ((messagesOf lines).filterMap (pushFor kind port)) := by
  induction lines with
  | nil =>
      intro c
      simp [onLines, messagesOf, Window.keep]
  | cons line lines ih =>
      intro c
      have hempty : Json.parse [] = none := rfl
      have hcons : messagesOf (line :: lines) =
          (Json.parse (trim isJsSpace line)).toList ++ messagesOf lines := by
        rw [messagesOf, messagesOf, List.filterMap_cons]
        cases Json.parse (trim isJsSpace line) <;> rfl
      have hline : (c.onLine line).1.bufferOf kind port = (c.bufferOf kind port).map fun buf =>
          Window.keep maxRxStreamEntries buf
            ((Json.parse (trim isJsSpace line)).toList.filterMap (pushFor kind port)) := by
        by_cases htrim : trim isJsSpace line = []
        · simp [onLine, htrim, hempty, Window.keep]
        · cases hparse : Json.parse (trim isJsSpace line) with
          | none => simp [onLine, htrim, hparse, Window.keep]
          | some msg =>
              have hmsg : c.onLine line = c.handle msg := by simp [onLine, htrim, hparse]
              rw [hmsg, bufferOf_handle msg hport, Option.toList_some, List.filterMap_cons]
              cases pushFor kind port msg <;> rfl
      rw [onLines, ih, hline, Option.map_map, hcons, List.filterMap_append]
      simp only [Function.comp_def, Window.keep_append]

end DaemonClient

/-- The server's client with the calls of its tools; the `i`-th call is the
`i`-th send. `resumed` is how many of the calls whose promises were resolved have
gone on. -/
structure McpServer where
  client : DaemonClient
  calls : List ToolCall
  settled : List (SendId × Json)
  resumed : ℕ

/-- What is resolved is resumed before anything else arrives. -/
inductive McpEvent
  | call (tool : ToolCall)
  | data (chunk : List UInt8)
  | resume
  | readRxStream (port : String) (clear : Bool)
  | readFilterHits (port : String) (clear : Bool)

namespace McpServer

/-- The call that goes on next, with its response. -/
def turn (s : McpServer) : Option (ToolCall × Json) :=
  match s.settled[s.resumed]? with
  | some (i, resp) => s.calls[i]?.map fun tool => (tool, resp)
  | none => none

def step (s : McpServer) : McpEvent → Option McpServer
  | .call tool => some { s with
      client := s.client.push s.calls.length
      calls := s.calls ++ [tool] }
  | .data chunk =>
      if s.resumed = s.settled.length then
        let r := s.client.onBytes chunk
        some { s with client := r.1, settled := s.settled ++ r.2 }
      else none
  | .resume => s.turn.map fun (tool, resp) =>
      { s with client := tool.resume s.client resp, resumed := s.resumed + 1 }
  | .readRxStream port clear => some { s with client := (s.client.readRxStream port clear).1 }
  | .readFilterHits port clear => some { s with client := (s.client.readFilterHits port clear).1 }

end McpServer

/-- All runs of the server over one connection. -/
def mcpServer : StepSystem McpServer McpEvent where
  init := ⟨.new, [], [], 0⟩
  step := McpServer.step

namespace ToolCall

/-- The buffer that a call may make, empty or drop. -/
def target : ToolCall → Option (BufferKind × String)
  | subscribeRx port | unsubscribeRx port => some (.rxStream, port)
  | filterRx port _ | addFilterRx port _ | unfilterRx port => some (.filterHits, port)
  | openPort .. | closePort _ | forward .. => none

/-- The buffer that a call makes. -/
def makes : ToolCall → Option (BufferKind × String)
  | subscribeRx port => some (.rxStream, port)
  | filterRx port _ | addFilterRx port _ => some (.filterHits, port)
  | unsubscribeRx _ | unfilterRx _ | openPort .. | closePort _ | forward .. => none

/-- Whether a call leaves a buffer that is there. -/
def keeps : ToolCall → Bool
  | addFilterRx _ _ => true
  | _ => false

variable {tool : ToolCall} {c : DaemonClient} {resp : Json} {kind : BufferKind} {port : String}

@[simp]
theorem pending_resume (tool : ToolCall) (c : DaemonClient) (resp : Json) :
    (tool.resume c resp).pending = c.pending := by
  unfold resume
  split_ifs
  · cases tool with
    | addFilterRx port keywords =>
        simp only
        split_ifs <;> rfl
    | subscribeRx | unsubscribeRx | filterRx | unfilterRx | openPort | closePort | forward => rfl
  · rfl

theorem buffer_resume (tool : ToolCall) (client : DaemonClient) (resp : Json) :
    (tool.resume client resp).buffer = client.buffer := by
  unfold resume
  split_ifs
  · cases tool with
    | addFilterRx port keywords =>
        dsimp only
        split_ifs <;> rfl
    | subscribeRx | unsubscribeRx | filterRx | unfilterRx | openPort | closePort | forward => rfl
  · rfl

theorem bufferOf_resume_of_ne (h : tool.target ≠ some (kind, port)) :
    (tool.resume c resp).bufferOf kind port = c.bufferOf kind port := by
  unfold resume
  split_ifs
  · cases tool with
    | subscribeRx p =>
        cases kind with
        | rxStream =>
            have hne : port ≠ p := fun heq => h (heq ▸ rfl)
            simp [DaemonClient.bufferOf, hne]
        | filterHits => rfl
    | unsubscribeRx p =>
        cases kind with
        | rxStream =>
            have hne : port ≠ p := fun heq => h (heq ▸ rfl)
            simp [DaemonClient.bufferOf, hne]
        | filterHits => rfl
    | filterRx p =>
        cases kind with
        | rxStream => rfl
        | filterHits =>
            have hne : port ≠ p := fun heq => h (heq ▸ rfl)
            simp [DaemonClient.bufferOf, hne]
    | unfilterRx p =>
        cases kind with
        | rxStream => rfl
        | filterHits =>
            have hne : port ≠ p := fun heq => h (heq ▸ rfl)
            simp [DaemonClient.bufferOf, hne]
    | addFilterRx p =>
        cases kind with
        | rxStream =>
            simp only
            split_ifs <;> rfl
        | filterHits =>
            have hne : port ≠ p := fun heq => h (heq ▸ rfl)
            simp only
            split_ifs
            · rfl
            · simp [DaemonClient.bufferOf, hne]
    | openPort | closePort | forward => rfl
  · rfl

theorem bufferOf_resume (h : tool.makes = some (kind, port)) (hok : succeeded resp = true) :
    (tool.resume c resp).bufferOf kind port =
      some (if tool.keeps then (c.bufferOf kind port).getD [] else []) := by
  unfold resume
  rw [if_pos hok]
  cases tool with
  | subscribeRx p | filterRx p =>
      obtain ⟨rfl, rfl⟩ : _ ∧ _ := by simpa [makes] using h
      simp [DaemonClient.bufferOf, keeps]
  | addFilterRx p =>
      obtain ⟨rfl, rfl⟩ : _ ∧ _ := by simpa [makes] using h
      simp only [DaemonClient.bufferOf, keeps]
      cases hbuf : c.filterHits.lookup p with
      | none => simp
      | some buf => simp [hbuf]
  | unsubscribeRx | unfilterRx | openPort | closePort | forward => simp [makes] at h

end ToolCall

namespace DaemonClient

theorem bufferOf_readRxStream (c : DaemonClient) {p : String} {clear : Bool} {kind : BufferKind}
    {port : String} (h : clear = true → (BufferKind.rxStream, p) ≠ (kind, port)) :
    (c.readRxStream p clear).1.bufferOf kind port = c.bufferOf kind port := by
  simp only [readRxStream, readBuffer]
  split
  · cases kind <;> rfl
  · split_ifs with hclear
    · cases kind with
      | rxStream =>
          have hne : port ≠ p := fun heq => h hclear (by rw [heq])
          simp [bufferOf, hne]
      | filterHits => rfl
    · cases kind <;> rfl

theorem bufferOf_readFilterHits (c : DaemonClient) {p : String} {clear : Bool} {kind : BufferKind}
    {port : String} (h : clear = true → (BufferKind.filterHits, p) ≠ (kind, port)) :
    (c.readFilterHits p clear).1.bufferOf kind port = c.bufferOf kind port := by
  simp only [readFilterHits, readBuffer]
  split
  · cases kind <;> rfl
  · split_ifs with hclear
    · cases kind with
      | rxStream => rfl
      | filterHits =>
          have hne : port ≠ p := fun heq => h hclear (by rw [heq])
          simp [bufferOf, hne]
    · cases kind <;> rfl

/-- The two tools that read a buffer. -/
def read (c : DaemonClient) (kind : BufferKind) (port : String) (clear : Bool) :
    DaemonClient × Except String (List Json) :=
  match kind with
  | .rxStream => c.readRxStream port clear
  | .filterHits => c.readFilterHits port clear

/-- A tool that empties a buffer answers with it. -/
theorem read_eq_ok {c : DaemonClient} {kind : BufferKind} {port : String} {b : List Json}
    (hb : c.bufferOf kind port = some b) :
    (c.read kind port true).2 = .ok b ∧
      (c.read kind port true).1.bufferOf kind port = some [] := by
  cases kind with
  | rxStream =>
      have hlookup : c.rxStreamBuffers.lookup port = some b := hb
      simp [read, readRxStream, readBuffer, hlookup, bufferOf]
  | filterHits =>
      have hlookup : c.filterHits.lookup port = some b := hb
      simp [read, readFilterHits, readBuffer, hlookup, bufferOf]

end DaemonClient

namespace McpServer

variable {s t : McpServer} {kind : BufferKind} {port : String}

/-- The buffer that a tool may make, empty or drop in a step. -/
def touches (s : McpServer) : McpEvent → Option (BufferKind × String)
  | .resume => s.turn.bind fun r => r.1.target
  | .readRxStream port clear => if clear then some (.rxStream, port) else none
  | .readFilterHits port clear => if clear then some (.filterHits, port) else none
  | .call _ | .data _ => none

/-- The pushes of a kind for a port that a step handles. -/
def pushes (s : McpServer) (kind : BufferKind) (port : String) : McpEvent → List Json
  | .data chunk =>
      (messagesOf (LineBuffer.split '\n' (s.client.buffer ++ Utf8Lossy.chars chunk)).1).filterMap
        (pushFor kind port)
  | .call _ | .resume | .readRxStream _ _ | .readFilterHits _ _ => []

/-- The pushes that a run handles, in order. -/
def pushesOn (kind : BufferKind) (port : String) : McpServer → List McpEvent → List Json
  | _, [] => []
  | s, e :: es =>
      match s.step e with
      | some t => s.pushes kind port e ++ pushesOn kind port t es
      | none => []

/-- While no tool touches the buffer of a port, a step appends what it handles
for the port. -/
theorem bufferOf_step {e : McpEvent} (hport : port ≠ "") (h : s.touches e ≠ some (kind, port))
    (hstep : s.step e = some t) :
    t.client.bufferOf kind port = (s.client.bufferOf kind port).map fun buf =>
      Window.keep maxRxStreamEntries buf (s.pushes kind port e) := by
  have hsame : ∀ o : Option (List Json),
      o = o.map fun buf => Window.keep maxRxStreamEntries buf [] := by
    intro o
    cases o <;> rfl
  cases e with
  | call tool =>
      obtain rfl := Option.some.inj hstep
      exact hsame _
  | data chunk =>
      simp only [step] at hstep
      split_ifs at hstep
      obtain rfl := Option.some.inj hstep
      exact DaemonClient.bufferOf_onLines _ hport _
  | resume =>
      obtain ⟨⟨tool, resp⟩, hturn, rfl⟩ := Option.map_eq_some_iff.mp hstep
      have hne : tool.target ≠ some (kind, port) := by simpa [touches, hturn] using h
      rw [pushes, ← hsame]
      exact ToolCall.bufferOf_resume_of_ne hne
  | readRxStream p clear =>
      obtain rfl := Option.some.inj hstep
      rw [pushes, ← hsame]
      refine s.client.bufferOf_readRxStream fun hclear heq => h ?_
      rw [touches, if_pos hclear, heq]
  | readFilterHits p clear =>
      obtain rfl := Option.some.inj hstep
      rw [pushes, ← hsame]
      refine s.client.bufferOf_readFilterHits fun hclear heq => h ?_
      rw [touches, if_pos hclear, heq]

theorem bufferOf_runFrom (hport : port ≠ "") {es : List McpEvent} :
    ∀ {s : McpServer}, mcpServer.Along (fun s e _ => s.touches e ≠ some (kind, port)) s es →
      mcpServer.runFrom s es = some t →
      t.client.bufferOf kind port = (s.client.bufferOf kind port).map fun buf =>
        Window.keep maxRxStreamEntries buf (s.pushesOn kind port es) := by
  induction es with
  | nil =>
      intro s _ hrun
      obtain rfl := Option.some.inj hrun
      cases s.client.bufferOf kind port <;> rfl
  | cons e es ih =>
      intro s halong hrun
      obtain ⟨m, hstep, hrest⟩ := mcpServer.runFrom_cons_eq_some.mp hrun
      obtain ⟨hfirst, hafter⟩ := halong m hstep
      have hpushes : s.pushesOn kind port (e :: es) =
          s.pushes kind port e ++ m.pushesOn kind port es := by
        rw [pushesOn, show s.step e = some m from hstep]
      rw [ih hafter hrest, bufferOf_step hport hfirst hstep, Option.map_map, hpushes]
      simp only [Function.comp_def, Window.keep_append]

end McpServer

end Commmon

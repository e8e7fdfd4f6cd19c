/-
# Reading a stream piece by piece

What the daemon pushes for a port comes to a buffer of the server, and the tools
`read_rx_stream` and `read_filter_hits` answer with what has come in since they were last
called, as JSON text. Between two calls at most 500 messages are kept. So the calls cut the
pushes into windows, and each of them shows the end of its window: what is missing from an
answer is older than all of it, and nothing is in two answers.

A character that a data event cuts is lost. The push that it stands in comes all the same, with
other text in its strings.
-/

import Commmon.Lib.Window
import Commmon.ToolSession

set_option autoImplicit false

namespace Commmon

open Json (Blurred)
open Utf8Lossy (Whole)

/-- The text of a tool's answer. -/
structure ToolResult where
  text : List Char
  isError : Bool

/-- The answer of the tools that read a buffer. -/
def readResult : Except String (List Json) → ToolResult
  | .ok data => ⟨Json.printWith Json.pretty (.arr data) 0, false⟩
  | .error message => ⟨message.toList, true⟩

/-- The elements that an answer shows. -/
def ToolResult.shown (r : ToolResult) : Option (List Json) :=
  match r.isError, Json.parse r.text with
  | false, some (.arr data) => some data
  | _, _ => none

private theorem shown_readResult (data : List Json) :
    (readResult (.ok data)).shown = some data := by
  simp [ToolResult.shown, readResult, Json.parse_printWith]

/-- The push is for the buffer of a port. -/
def Push.isFor (kind : BufferKind) (port : String) (p : Push) : Bool :=
  match kind, p with
  | .rxStream, .rxData q _ => q = port
  | .filterHits, .filterHit q _ => q = port
  | _, _ => false

def Push.port : Push → String
  | .rxData port _ => port
  | .filterHit port _ => port

def Outgoing.push? : Outgoing → Option Push
  | .response _ _ => none
  | .push p => some p

section

variable (showFloat : Rat → NumLit) {kind : BufferKind} {port : String}

/-- What a push adds to a buffer. -/
def Push.data (p : Push) : Json := p.notification.data.toJson showFloat

/-- The port is what the data names. -/
theorem portOf_data (p : Push) : portOf (p.data showFloat) = some p.port := by
  cases p <;>
    simp [Push.data, Push.port, Push.notification, Value.toJson, fieldsToJson, portOf, Json.get,
      List.insertionSort, List.orderedInsert, List.lookup_cons]

private theorem pushFor_toJson (line : Outgoing) :
    pushFor kind port (line.message.toJson showFloat) =
    (line.push?.filter (Push.isFor kind port)).map (Push.data showFloat) := by
  cases line with
  | response req resp =>
      have hnotify := resp.get_notify showFloat
      rw [Outgoing.message, Message.toJson, pushFor, hnotify]
      rfl
  | push p =>
      have hnotify := p.notification.get_notify showFloat
      have hdata := p.notification.get_data showFloat
      have hport := portOf_data showFloat p
      rw [Push.data] at hport
      rw [Outgoing.message, Message.toJson, pushFor, hnotify, hdata]
      simp only [hport]
      cases p <;> cases kind <;>
        simp [Outgoing.push?, Push.isFor, Push.notification, BufferKind.notify,
          Option.filter_some, Push.data, Push.port]

end

/-- The pushes for a port that the daemon has written to a client. -/
def World.pushesTo (w : World) (c : ClientId) (kind : BufferKind) (port : String) : List Push :=
  ((w.writtenTo c).filterMap Outgoing.push?).filter (Push.isFor kind port)

section

variable {showFloat : Rat → NumLit} {showNumber : ℚ → Option NumLit} {readFloat : NumLit → Rat}
  {c : ClientId} {kind : BufferKind} {port : String}

private theorem filterMap_filter_map {α β γ : Type} (g : α → Option β) (p : β → Bool) (f : β → γ)
    (l : List α) : (l.filterMap fun a => ((g a).filter p).map f) =
      ((l.filterMap g).filter p).map f := by
  induction l with
  | nil => rfl
  | cons a l ih =>
      cases hg : g a with
      | none => simp [hg, ih]
      | some b => cases hp : p b <;> simp [hg, hp, ih, Option.filter_some]

/-- A line of the daemon is a push if a task has written it as one. -/
theorem pushFor_message {l : DaemonLine} (hname : ∀ n, l = .notice n → n.notify = "log_stopped") :
    pushFor kind port (l.message.toJson showFloat) =
      ((l.out?.bind Outgoing.push?).filter (Push.isFor kind port)).map (Push.data showFloat) := by
  cases l with
  | out o => exact pushFor_toJson showFloat o
  | refusal err =>
      have hnotify := (DaemonLine.refused err).get_notify showFloat
      rw [DaemonLine.message, Message.toJson, pushFor, hnotify]
      rfl
  | notice n =>
      rw [DaemonLine.message, Message.toJson, pushFor, n.get_notify, n.get_data, hname n rfl]
      cases kind <;> rfl

theorem Attachment.Wired.pushes {w : Attachment (toolPeer showNumber readFloat)}
    (h : w.Wired showFloat c) (kind : BufferKind) (port : String) :
    (w.written.map (Message.toJson showFloat)).filterMap (pushFor kind port) =
      (w.world.pushesTo c kind port).map (Push.data showFloat) := by
  have hline : ∀ l ∈ w.lines,
      (pushFor kind port ∘ Message.toJson showFloat ∘ DaemonLine.message) l =
        ((l.out?.bind Outgoing.push?).filter (Push.isFor kind port)).map (Push.data showFloat) := by
    intro l hl
    exact pushFor_message fun n hn => h.notices n (hn ▸ hl)
  rw [written, List.map_map, List.filterMap_map, List.filterMap_congr hline, filterMap_filter_map,
    World.pushesTo, ← h.outgoing, List.filterMap_filterMap]

/-- A push comes as it was written, or with other text in its strings where a data event has cut
a character. -/
def ToolSession.Came (showFloat : Rat → NumLit) (s : ToolSession showNumber readFloat) (p : Push)
    (data : Json) : Prop :=
  Blurred (p.data showFloat) data ∧
    ((∀ chunk ∈ s.wire.chunks, Whole chunk) → data = p.data showFloat)

variable {s : ToolSession showNumber readFloat} {es : List ToolSessionEvent}

private theorem forall₂_came {pushes : List Push} {data : List Json}
    (hblurred : List.Forall₂ Blurred (pushes.map (Push.data showFloat)) data)
    (hexact : (∀ chunk ∈ s.wire.chunks, Whole chunk) → data = pushes.map (Push.data showFloat)) :
    List.Forall₂ (s.Came showFloat) pushes data := by
  rw [List.forall₂_map_left_iff] at hblurred
  by_cases hwhole : ∀ chunk ∈ s.wire.chunks, Whole chunk
  · obtain rfl := hexact hwhole
    rw [List.forall₂_map_right_iff, List.forall₂_same] at hblurred ⊢
    exact fun p hp => ⟨hblurred p hp, fun _ => rfl⟩
  · exact hblurred.imp fun p d h => ⟨h, fun hall => absurd hall hwhole⟩

private theorem exact_of_came {pushes : List Push} {data : List Json}
    (h : List.Forall₂ (s.Came showFloat) pushes data)
    (hwhole : ∀ chunk ∈ s.wire.chunks, Whole chunk) : data = pushes.map (Push.data showFloat) := by
  induction h with
  | nil => rfl
  | cons hcame _ ih => rw [List.map_cons, hcame.2 hwhole, ih]

/-- The pushes that the data handler has been handed are the first that were written, if the
port's name is in ASCII or no character has been cut. -/
theorem ToolSession.Kept.pushes_came (h : s.Kept showFloat c) (kind : BufferKind) {port : String}
    (hname : Json.Ascii port.toList ∨ ∀ chunk ∈ s.wire.chunks, Whole chunk) :
    ∃ m, List.Forall₂ (s.Came showFloat) ((s.wire.world.pushesTo c kind port).take m)
        (s.messages.filterMap (pushFor kind port)) ∧
      (s.wire.outbound = [] → (s.wire.world.pushesTo c kind port).length ≤ m) := by
  obtain ⟨n, hhanded, hall⟩ := h.wired.handedOn
  have hpushes := h.wired.pushes kind port
  generalize s.wire.world.pushesTo c kind port = pushes at hpushes ⊢
  -- the pushes of which the lines have come
  have hprefix : ((s.wire.written.take n).map (Message.toJson showFloat)).filterMap
      (pushFor kind port) <+: pushes.map (Push.data showFloat) :=
    hpushes ▸ ((List.take_prefix n _).map _).filterMap _
  have hfirst := List.prefix_iff_eq_take.mp hprefix
  generalize hm : (((s.wire.written.take n).map (Message.toJson showFloat)).filterMap
    (pushFor kind port)).length = m at hfirst
  have hexact : (∀ chunk ∈ s.wire.chunks, Whole chunk) →
      s.messages.filterMap (pushFor kind port) = (pushes.take m).map (Push.data showFloat) := by
    intro hwhole
    rw [ToolSession.messages, hhanded.exact hwhole, hfirst, List.map_take]
  refine ⟨m, forall₂_came ?_ hexact, fun hnone => ?_⟩
  · rw [List.map_take, ← hfirst]
    obtain hascii | hwhole := hname
    · exact List.rel_filterMap (fun _ _ hmsg => pushFor_blurred hascii hmsg) hhanded.blurred
    · rw [hexact hwhole, hfirst, ← List.map_take, List.forall₂_same]
      exact fun data _ => Json.Blurred.refl data
  · rw [hall hnone, List.take_length, hpushes, List.length_map] at hm
    exact hm.le

/-- A buffer holds what was pushed for its port, in that order and without a gap, wherever the
stream is cut: nothing of another port, nothing twice. It is the end of it once nothing is on
its way, and exact where no character has been cut. -/
theorem tool_buffers_pushed
    (hrun : (toolSession showFloat c showNumber readFloat).run es = some s) {kind : BufferKind}
    {port : String} (hport : port ≠ "") (hascii : Json.Ascii port.toList) {buf : List Json}
    (hbuf : s.server.client.bufferOf kind port = some buf) :
    ∃ pushes : List Push, pushes <:+: s.wire.world.pushesTo c kind port ∧
      List.Forall₂ Blurred (pushes.map (Push.data showFloat)) buf ∧
      ((∀ chunk ∈ s.wire.chunks, Whole chunk) → buf = pushes.map (Push.data showFloat)) ∧
      (s.wire.outbound = [] → pushes <:+ s.wire.world.pushesTo c kind port) := by
  have hkept := ToolSession.kept_of_run hrun
  obtain ⟨m, hcame, hall⟩ := hkept.pushes_came kind (Or.inl hascii)
  have hlast := List.suffix_iff_eq_drop.mp (hkept.buffers kind port buf hport hbuf)
  generalize (s.messages.filterMap (pushFor kind port)).length - buf.length = d at hlast
  generalize s.wire.world.pushesTo c kind port = pushes at hcame hall ⊢
  have hbuffer : List.Forall₂ (s.Came showFloat) ((pushes.take m).drop d) buf := by
    rw [hlast]
    exact List.forall₂_drop d hcame
  refine ⟨(pushes.take m).drop d, ?_, ?_, fun hwhole => ?_, fun hnone => ?_⟩
  · exact (List.drop_suffix d _).isInfix.trans (List.take_prefix m _).isInfix
  · rw [List.forall₂_map_left_iff]
    exact hbuffer.imp fun _ _ h => h.1
  · exact exact_of_came hbuffer hwhole
  · rw [List.take_of_length_le (hall hnone)]
    exact List.drop_suffix d _

end

/-- The theorem for the push. -/
theorem tool_buffers_pushed_cut : ∃ (s : ToolSession showWhole fun _ => 0) (buf : List Json),
    (toolSession (fun _ => .ofNat 0) 0 showWhole fun _ => 0).run cutSession = some s ∧
      buf.map asciiOf = [some "\uFFFD\uFFFD\uFFFD"] ∧ ∃ pushes : List Push,
        pushes <:+ s.wire.world.pushesTo 0 .rxStream "COM3" ∧
          List.Forall₂ Blurred (pushes.map (Push.data fun _ => .ofNat 0)) buf := by
  obtain ⟨s, hrun, hhears⟩ := (Option.any_eq_true _ _).mp cutSession_hears
  simp only [Bool.and_eq_true, List.isEmpty_iff, beq_iff_eq, decide_eq_true_eq] at hhears
  obtain ⟨buf, hbuf, hascii⟩ := Option.map_eq_some_iff.mp hhears.2
  obtain ⟨pushes, -, hblurred, -, hall⟩ :=
    tool_buffers_pushed hrun (by decide) (by decide) hbuf
  exact ⟨s, buf, hrun, hascii, pushes, hall hhears.1.1, hblurred⟩

/-- The buffer that a tool empties. -/
def McpEvent.empties : McpEvent → Option (BufferKind × String)
  | .readRxStream port true => some (.rxStream, port)
  | .readFilterHits port true => some (.filterHits, port)
  | _ => none

/-- The answer of a tool that empties a port's buffer. -/
def McpServer.emptied (kind : BufferKind) (port : String) (s : McpServer) (e : McpEvent) :
    List ToolResult :=
  if e.empties = some (kind, port) then [readResult (s.client.read kind port true).2] else []

/-- What a step makes of a buffer: it takes the pushes that come in, if any, or is read and
emptied. -/
inductive McpServer.Moves (kind : BufferKind) (port : String) (b : List Json) (s : McpServer)
    (e : McpEvent) (t : McpServer) : Prop
  | took (hemptied : s.emptied kind port e = [])
      (hbuffer : t.client.bufferOf kind port =
        some (Window.keep maxRxStreamEntries b (s.pushes kind port e)))
  | emptied (hemptied : s.emptied kind port e = [readResult (.ok b)])
      (hpushes : s.pushes kind port e = []) (hbuffer : t.client.bufferOf kind port = some [])

/-- Every step is one of these, unless a response that goes on changes the buffer. -/
theorem McpServer.step_moves {s t : McpServer} {e : McpEvent} {kind : BufferKind} {port : String}
    {b : List Json} (hport : port ≠ "") (hb : s.client.bufferOf kind port = some b)
    (hstep : s.step e = some t)
    (hkept : e = .resume → t.client.bufferOf kind port = s.client.bufferOf kind port) :
    Moves kind port b s e t := by
  by_cases hempties : e.empties = some (kind, port)
  · have hemptied : s.emptied kind port e = [readResult (.ok b)] := by
      rw [McpServer.emptied, if_pos hempties, (DaemonClient.read_eq_ok hb).1]
    have hbuffer := (DaemonClient.read_eq_ok hb).2
    cases e with
    | readRxStream q clear =>
        cases clear with
        | false => cases hempties
        | true =>
            obtain ⟨rfl, rfl⟩ := Prod.mk.inj (Option.some.inj hempties)
            obtain rfl := Option.some.inj hstep
            exact .emptied hemptied rfl hbuffer
    | readFilterHits q clear =>
        cases clear with
        | false => cases hempties
        | true =>
            obtain ⟨rfl, rfl⟩ := Prod.mk.inj (Option.some.inj hempties)
            obtain rfl := Option.some.inj hstep
            exact .emptied hemptied rfl hbuffer
    | call | data | resume => cases hempties
  · refine .took (if_neg hempties) ?_
    by_cases hresume : e = .resume
    · obtain rfl := hresume
      rw [hkept rfl, hb]
      rfl
    · have htouches : s.touches e ≠ some (kind, port) := by
        cases e with
        | resume => exact absurd rfl hresume
        | call | data => simp [touches]
        | readRxStream q clear | readFilterHits q clear => cases clear <;> exact hempties
      rw [bufferOf_step hport htouches hstep, hb, Option.map_some]

section

variable {showFloat : Rat → NumLit} {showNumber : ℚ → Option NumLit} {readFloat : NumLit → Rat}
  {c : ClientId} {kind : BufferKind} {port : String} {s t : ToolSession showNumber readFloat}
  {e : ToolSessionEvent}

namespace ToolSession

/-- What an event is for the server. -/
def mcp (s : ToolSession showNumber readFloat) : ToolSessionEvent → Option McpEvent
  | .call use => some (.call use.call)
  | .receive n => some (.data (s.wire.outbound.take n))
  | .resume => some .resume
  | .readRxStream port clear => some (.readRxStream port clear)
  | .readFilterHits port clear => some (.readFilterHits port clear)
  | .serve _ _ | .daemon _ | .notify _ => none

/-- The answer of a tool that empties a port's buffer. -/
def emptied (kind : BufferKind) (port : String) (s : ToolSession showNumber readFloat)
    (e : ToolSessionEvent) : List ToolResult :=
  ((s.mcp e).map (s.server.emptied kind port)).getD []

/-- No response that goes on makes the buffer anew or drops it. -/
def Undisturbed (kind : BufferKind) (port : String) (s : ToolSession showNumber readFloat)
    (e : ToolSessionEvent) (t : ToolSession showNumber readFloat) : Prop :=
  e = .resume → t.server.client.bufferOf kind port = s.server.client.bufferOf kind port

/-- The server takes its part of a step. -/
theorem server_step (hstep : s.step showFloat c e = some t) :
    (∃ e', s.mcp e = some e' ∧ s.server.step e' = some t.server) ∨
      s.mcp e = none ∧ t.server = s.server := by
  obtain ⟨-, hserver⟩ := step_eq_some.mp hstep
  cases e with
  | serve | daemon | notify => exact Or.inr ⟨rfl, (Option.some.inj hserver).symm⟩
  | call | receive | resume | readRxStream | readFilterHits => exact Or.inl ⟨_, rfl, hserver⟩

/-- The messages that come are those that the server handles. -/
theorem Kept.messages_step (h : s.Kept showFloat c) (kind : BufferKind) (port : String)
    (hstep : s.step showFloat c e = some t) :
    t.messages.filterMap (pushFor kind port) = s.messages.filterMap (pushFor kind port) ++
      ((s.mcp e).map (s.server.pushes kind port)).getD [] := by
  obtain ⟨wire, server⟩ := t
  obtain ⟨hwire, -⟩ := step_eq_some.mp hstep
  have hsame : ∀ e' : AttachmentEvent ToolUse, s.wire.step showFloat c e' = some wire →
      (∀ n, e' ≠ .receive n) → handed [] wire.chunks = s.messages := fun _ hwire hreceive =>
    congrArg (handed []) (Attachment.chunks_of_step hwire hreceive)
  cases e with
  | receive n =>
      rw [messages, (h.messages_receive hwire).1, List.filterMap_append]
      rfl
  | resume | readRxStream | readFilterHits =>
      obtain rfl := Option.some.inj hwire
      exact (List.append_nil _).symm
  | call use =>
      rw [messages, hsame (.call use) hwire (by simp)]
      exact (List.append_nil _).symm
  | serve env err =>
      rw [messages, hsame (.serve env err) hwire (by simp)]
      exact (List.append_nil _).symm
  | daemon e =>
      rw [messages, hsame (.daemon e) hwire (by simp)]
      exact (List.append_nil _).symm
  | notify n =>
      rw [messages, hsame (.notify n) hwire (by simp)]
      exact (List.append_nil _).symm

/-- What a step does to a buffer that no response changes: what comes goes in, or a tool reads
and empties it. -/
theorem Kept.step_moves (h : s.Kept showFloat c) (hport : port ≠ "") {b : List Json}
    (hb : s.server.client.bufferOf kind port = some b) (hstep : s.step showFloat c e = some t)
    (hkept : s.Undisturbed kind port e t) :
    (s.emptied kind port e = [] ∧ ∃ more,
      t.messages.filterMap (pushFor kind port) = s.messages.filterMap (pushFor kind port) ++ more ∧
      t.server.client.bufferOf kind port = some (Window.keep maxRxStreamEntries b more)) ∨
    s.emptied kind port e = [readResult (.ok b)] ∧
      t.messages.filterMap (pushFor kind port) = s.messages.filterMap (pushFor kind port) ∧
      t.server.client.bufferOf kind port = some [] := by
  have hmessages := h.messages_step kind port hstep
  obtain ⟨e', he', hserver⟩ | ⟨hnone, hserver⟩ := server_step hstep
  · have hresume : e' = .resume → t.server.client.bufferOf kind port =
        s.server.client.bufferOf kind port := by
      rintro rfl
      cases e with
      | resume => exact hkept rfl
      | call | receive | readRxStream | readFilterHits | serve | daemon | notify => cases he'
    rw [he', Option.map_some, Option.getD_some] at hmessages
    have hemptied : s.emptied kind port e = s.server.emptied kind port e' := by
      rw [emptied, he', Option.map_some, Option.getD_some]
    rw [hemptied]
    cases McpServer.step_moves hport hb hserver hresume with
    | took hempty hbuffer => exact Or.inl ⟨hempty, _, hmessages, hbuffer⟩
    | emptied hempty hpushes hbuffer =>
        rw [hpushes, List.append_nil] at hmessages
        exact Or.inr ⟨hempty, hmessages, hbuffer⟩
  · rw [hnone] at hmessages
    refine Or.inl ⟨?_, [], hmessages, ?_⟩
    · rw [emptied, hnone]
      rfl
    · rw [hserver, hb]
      rfl

/-- What a buffer holds after some pushes. -/
private theorem keep_rtake (values more : List Json) :
    Window.keep maxRxStreamEntries (values.rtake maxRxStreamEntries) more =
      (values ++ more).rtake maxRxStreamEntries := by
  rw [← Window.keep_nil, ← Window.keep_append, Window.keep_nil]

/-- What the data handler is handed for a buffer falls into the windows of the calls. -/
theorem windows_of_run {s₀ : ToolSession showNumber readFloat} {es : List ToolSessionEvent}
    (hport : port ≠ "") (h : s₀.Kept showFloat c)
    (hempty : s₀.server.client.bufferOf kind port = some [])
    (hkept : (toolSession showFloat c showNumber readFloat).Along (Undisturbed kind port) s₀ es)
    (hrun : (toolSession showFloat c showNumber readFloat).runFrom s₀ es = some s) :
    s.Kept showFloat c ∧ ∃ (windows : List (List Json)) (rest : List Json),
      s.messages.filterMap (pushFor kind port) =
          s₀.messages.filterMap (pushFor kind port) ++ (windows.flatten ++ rest) ∧
        ((toolSession showFloat c showNumber readFloat).collect (emptied kind port) s₀ es).map
            ToolResult.shown =
          windows.map (fun window => some (window.rtake maxRxStreamEntries)) ∧
        s.server.client.bufferOf kind port = some (rest.rtake maxRxStreamEntries) := by
  induction es using List.reverseRecOn generalizing s with
  | nil =>
      obtain rfl := Option.some.inj hrun
      exact ⟨h, [], [], (List.append_nil _).symm, rfl, by rw [hempty, List.rtake_nil]⟩
  | append_singleton es e ih =>
      rw [StepSystem.runFrom_append, Option.bind_eq_some_iff] at hrun
      obtain ⟨u, hu, hlast⟩ := hrun
      obtain ⟨t, hstep, hlast⟩ :=
        (toolSession showFloat c showNumber readFloat).runFrom_cons_eq_some.mp hlast
      obtain rfl := Option.some.inj hlast
      obtain ⟨hbefore, hafter⟩ :=
        ((toolSession showFloat c showNumber readFloat).along_append hu).mp hkept
      obtain ⟨hkept, windows, rest, hmessages, hshown, hbuffer⟩ := ih hbefore hu
      refine ⟨hkept.step hstep, ?_⟩
      rw [(toolSession showFloat c showNumber readFloat).collect_snoc hu hstep, List.map_append,
        hshown]
      obtain ⟨hnone, more, hmore, hnext⟩ | ⟨hread, hsame, hnext⟩ :=
        hkept.step_moves hport hbuffer hstep (hafter t hstep).1
      · refine ⟨windows, rest ++ more, ?_, ?_, ?_⟩
        · rw [hmore, hmessages, List.append_assoc, List.append_assoc]
        · rw [hnone, List.map_nil, List.append_nil]
        · rw [hnext, keep_rtake]
      · refine ⟨windows ++ [rest], [], ?_, ?_, by rw [hnext, List.rtake_nil]⟩
        · rw [hsame, hmessages, List.flatten_append, List.flatten_singleton, List.append_nil]
        · rw [hread, List.map_singleton, shown_readResult, List.map_append, List.map_singleton]

end ToolSession

private theorem forall₂_append {α β : Type} {R : α → β → Prop} {l : List α} {l₁ l₂ : List β}
    (h : List.Forall₂ R l (l₁ ++ l₂)) :
    ∃ m₁ m₂, l = m₁ ++ m₂ ∧ List.Forall₂ R m₁ l₁ ∧ List.Forall₂ R m₂ l₂ :=
  ⟨l.take l₁.length, l.drop l₁.length, (List.take_append_drop _ _).symm,
    List.forall₂_take_append l l₁ l₂ h, List.forall₂_drop_append l l₁ l₂ h⟩

private theorem forall₂_flatten {α β : Type} {R : α → β → Prop} {ls : List (List β)} :
    ∀ {l : List α}, List.Forall₂ R l ls.flatten →
      ∃ ms, l = ms.flatten ∧ List.Forall₂ (List.Forall₂ R) ms ls := by
  induction ls with
  | nil =>
      intro l h
      obtain rfl := List.forall₂_nil_right_iff.mp h
      exact ⟨[], rfl, .nil⟩
  | cons first ls ih =>
      intro l h
      obtain ⟨m, ms, rfl, hfirst, hrest⟩ := forall₂_append h
      obtain ⟨ms, rfl, hms⟩ := ih hrest
      exact ⟨m :: ms, rfl, .cons hfirst hms⟩

private theorem forall₂_rtake {α β : Type} {R : α → β → Prop} {l : List α} {l' : List β}
    (h : List.Forall₂ R l l') (n : ℕ) : List.Forall₂ R (l.rtake n) (l'.rtake n) := by
  rw [List.rtake, List.rtake, h.length_eq]
  exact List.forall₂_drop _ h

/-- The calls that read a buffer cut the pushes into windows. From the making of a buffer on, as
long as it is not made anew or dropped, what the daemon pushes for it and the server handles
falls into consecutive windows, one for each call that empties it and the one that has begun;
and the call shows the last 500 entries of its window, in the order in which they were
pushed. -/
theorem reads_cut_windows {s₀ : ToolSession showNumber readFloat} {es₀ es : List ToolSessionEvent}
    (hport : port ≠ "")
    (hreached : (toolSession showFloat c showNumber readFloat).run es₀ = some s₀)
    (hempty : s₀.server.client.bufferOf kind port = some [])
    (hkept : (toolSession showFloat c showNumber readFloat).Along
      (ToolSession.Undisturbed kind port) s₀ es)
    (hrun : (toolSession showFloat c showNumber readFloat).runFrom s₀ es = some s)
    (hname : Json.Ascii port.toList ∨ ∀ chunk ∈ s.wire.chunks, Whole chunk) :
    ∃ (before : List Push) (windows : List (List Push)) (rest : List Push),
      List.Forall₂ (s.Came showFloat) before (s₀.messages.filterMap (pushFor kind port)) ∧
        before ++ (windows.flatten ++ rest) <+: s.wire.world.pushesTo c kind port ∧
        (s.wire.outbound = [] →
          before ++ (windows.flatten ++ rest) = s.wire.world.pushesTo c kind port) ∧
        List.Forall₂ (fun window shown => ∃ data, shown = some data ∧
            List.Forall₂ (s.Came showFloat) (window.rtake maxRxStreamEntries) data) windows
          (((toolSession showFloat c showNumber readFloat).collect
            (ToolSession.emptied kind port) s₀ es).map ToolResult.shown) ∧
        ∃ buf, s.server.client.bufferOf kind port = some buf ∧
          List.Forall₂ (s.Came showFloat) (rest.rtake maxRxStreamEntries) buf := by
  obtain ⟨hlast, windows, rest, hmessages, hshown, hbuffer⟩ :=
    ToolSession.windows_of_run hport (ToolSession.kept_of_run hreached) hempty hkept hrun
  obtain ⟨m, hcame, hall⟩ := hlast.pushes_came kind hname
  rw [hmessages] at hcame
  obtain ⟨before, after, htake, hbefore, hafter⟩ := forall₂_append hcame
  obtain ⟨during, rest', rfl, hduring, hrest⟩ := forall₂_append hafter
  obtain ⟨windows', rfl, hwindows⟩ := forall₂_flatten hduring
  refine ⟨before, windows', rest', hbefore, htake ▸ List.take_prefix m _, fun hnone => ?_, ?_,
    _, hbuffer, forall₂_rtake hrest _⟩
  · rw [← htake, List.take_of_length_le (hall hnone)]
  · rw [hshown, List.forall₂_map_right_iff]
    exact hwindows.imp fun _ _ h => ⟨_, rfl, forall₂_rtake h _⟩

end

/-- A port that another client has opened is subscribed. -/
def subscribedSession : List ToolSessionEvent :=
  [.daemon (.connect 0), .daemon (.connect 1)] ++
    (issue 1 (portRequest "open_port" "COM3") 2).map .daemon ++
    [.call subscribeUse, .serve ⟨.ok (), .successMsg ""⟩ ""] ++
    List.replicate 3 (.daemon (.client 0 .dispatch)) ++
    [.daemon (stream 0 []), .receive 30, .receive 23, .resume]

/-- Between two entries the buffer is read. The first comes with its character cut. -/
def readBetween : List ToolSessionEvent :=
  [.daemon (.deliver 0 ⟨"2026:01:01 12:00:00", [0xED, 0x95, 0x9C]⟩),
    .daemon (stream 0 ["COM3"]), .daemon (stream 0 []), .daemon (stream 0 []), .receive 38,
    .receive 69, .readRxStream "COM3" true, .daemon (.deliver 0 ⟨"2026:01:01 12:00:01", [0x41]⟩),
    .daemon (stream 0 []), .daemon (stream 0 []), .receive 101]

private theorem readBetween_windows :
    ((toolSession (fun _ => .ofNat 0) 0 showWhole fun _ => 0).run subscribedSession).any
      (fun s₀ => (s₀.server.client.bufferOf .rxStream "COM3").any List.isEmpty &&
        (((toolSession (fun _ => .ofNat 0) 0 showWhole fun _ => 0).collect
          (ToolSession.emptied .rxStream "COM3") s₀ readBetween).length == 1) &&
        ((toolSession (fun _ => .ofNat 0) 0 showWhole fun _ => 0).runFrom s₀ readBetween).any
          fun s => s.wire.outbound.isEmpty &&
            ((s.wire.world.pushesTo 0 .rxStream "COM3").length == 2)) = true := by
  decide +kernel

/-- The theorem for this run: one window, and one push for the next. -/
theorem reads_cut_windows_between : ∃ s₀ s,
    (toolSession (fun _ => .ofNat 0) 0 showWhole fun _ => 0).run subscribedSession = some s₀ ∧
      (toolSession (fun _ => .ofNat 0) 0 showWhole fun _ => 0).runFrom s₀ readBetween = some s ∧
      ∃ (before : List Push) (windows : List (List Push)) (rest : List Push),
        windows.length = 1 ∧ (before ++ (windows.flatten ++ rest)).length = 2 ∧
        ∃ buf, s.server.client.bufferOf .rxStream "COM3" = some buf ∧
          List.Forall₂ (s.Came fun _ => .ofNat 0) (rest.rtake maxRxStreamEntries) buf := by
  obtain ⟨s₀, hs₀, hwindows⟩ := (Option.any_eq_true _ _).mp readBetween_windows
  simp only [Bool.and_eq_true, beq_iff_eq] at hwindows
  obtain ⟨⟨hempty, hone⟩, hlast⟩ := hwindows
  obtain ⟨s, hs, hnone, htwo⟩ : ∃ s, (toolSession (fun _ => .ofNat 0) 0 showWhole fun _ =>
      0).runFrom s₀ readBetween = some s ∧ s.wire.outbound = [] ∧
        (s.wire.world.pushesTo 0 .rxStream "COM3").length = 2 := by
    obtain ⟨s, hs, hboth⟩ := (Option.any_eq_true _ _).mp hlast
    rw [Bool.and_eq_true, List.isEmpty_iff, beq_iff_eq] at hboth
    exact ⟨s, hs, hboth⟩
  have hbuffer : s₀.server.client.bufferOf .rxStream "COM3" = some [] := by
    obtain ⟨b, hb, hnil⟩ := (Option.any_eq_true _ _).mp hempty
    rw [hb, List.isEmpty_iff.mp hnil]
  have hkept : (toolSession (fun _ => .ofNat 0) 0 showWhole fun _ => 0).Along
      (ToolSession.Undisturbed .rxStream "COM3") s₀ readBetween := by
    refine (toolSession (fun _ => .ofNat 0) 0 showWhole fun _ => 0).along_of_labels
      (fun e he s t hresume => ?_) s₀
    subst hresume
    simp [readBetween] at he
  obtain ⟨before, windows, rest, -, -, hall, hshown, hrest⟩ :=
    reads_cut_windows (by decide) hs₀ hbuffer hkept hs (Or.inl (by decide))
  refine ⟨s₀, s, hs₀, hs, before, windows, rest, ?_, hall hnone ▸ htwo, hrest⟩
  have hlengths := hshown.length_eq
  rwa [List.length_map, hone] at hlengths

end Commmon

/-
# The MCP server on its connection

Here the server, with its queue of promises, its tools and its buffers, is joined to the
daemon by bytes that are cut anywhere. Each call is answered by the daemon's own reply to its
line: the response to the request, or the error for a line that was refused.

A connection is looked at from its beginning on, for as long as it lasts.
-/

import Commmon.CutLines
import Commmon.ToolRequests

set_option autoImplicit false

namespace Commmon

open Json (Blurred)
open Utf8Lossy (Whole)

/-- The data handler takes the message for a notification. -/
def isNotification (msg : Json) : Bool := ((msg.get "notify").filter truthy).isSome

private theorem truthy_blurred {v v' : Json} (h : Blurred v v') : truthy v' = truthy v := by
  cases h with
  | str h =>
      rename_i s s'
      have hempty : s' = "" ↔ s = "" := Json.eq_iff_of_garbled h (by decide)
      simp [truthy, hempty]
  | _ => rfl

private theorem isNotification_blurred {msg msg' : Json} (h : Blurred msg msg') :
    isNotification msg' = isNotification msg := by
  have hget : Option.Rel Blurred (msg.get "notify") (msg'.get "notify") := h.get (by decide)
  unfold isNotification
  generalize msg.get "notify" = notify at hget
  generalize msg'.get "notify" = notify' at hget
  cases hget with
  | none => rfl
  | some hv =>
      rw [Option.filter_some, Option.filter_some, truthy_blurred hv]
      split_ifs <;> rfl

/-- The messages that are no notification resolve the promises at the front of the
queue. -/
theorem handleAll_settles {msgs : List Json} (hobj : ∀ msg ∈ msgs, ∃ fields, msg = .obj fields) :
    ∀ {c : DaemonClient},
      (msgs.filter fun msg => !isNotification msg).length ≤ c.pending.length →
        (c.handleAll msgs).2 =
            (c.pending.take (msgs.filter fun msg => !isNotification msg).length).zip
              (msgs.filter fun msg => !isNotification msg) ∧
          (c.handleAll msgs).1.pending =
            c.pending.drop (msgs.filter fun msg => !isNotification msg).length := by
  induction msgs with
  | nil => exact fun _ => ⟨rfl, rfl⟩
  | cons msg msgs ih =>
      obtain ⟨⟨fields, rfl⟩, hmsgs⟩ := List.forall_mem_cons.mp hobj
      intro c hlength
      rw [DaemonClient.handleAll]
      cases hnotify : ((Json.obj fields).get "notify").filter truthy with
      | some notify =>
          have his : isNotification (.obj fields) = true := by rw [isNotification, hnotify]; rfl
          have hhandle : c.handle (.obj fields) =
              (c.onNotify notify ((Json.obj fields).get "data"), none) := by
            simp [DaemonClient.handle, hnotify]
          rw [List.filter_cons_of_neg (by simp [his])] at hlength ⊢
          have hpending := DaemonClient.pending_onNotify (c := c) notify
            ((Json.obj fields).get "data")
          obtain ⟨hsettled, hrest⟩ := ih hmsgs (hpending.symm ▸ hlength)
          rw [hpending] at hsettled hrest
          rw [hhandle]
          exact ⟨hsettled, hrest⟩
      | none =>
          have hisnt : isNotification (.obj fields) = false := by
            rw [isNotification, hnotify]
            rfl
          rw [List.filter_cons_of_pos (by simp [hisnt])] at hlength ⊢
          cases hpending : c.pending with
          | nil => simp [hpending] at hlength
          | cons i rest =>
              rw [hpending, List.length_cons, List.length_cons] at hlength
              have hhandle : c.handle (.obj fields) =
                  ({ c with pending := rest }, some (i, .obj fields)) := by
                simp [DaemonClient.handle, hnotify, hpending]
              obtain ⟨hsettled, hrest⟩ := ih hmsgs (c := { c with pending := rest })
                (Nat.le_of_succ_le_succ hlength)
              rw [hhandle]
              exact ⟨by rw [hsettled]; rfl, hrest⟩

section Session

variable (showFloat : Rat → NumLit) {showNumber : ℚ → Option NumLit} {readFloat : NumLit → Rat}
  (c : ClientId)

/-- The connection, and the server at its end. -/
structure ToolSession (showNumber : ℚ → Option NumLit) (readFloat : NumLit → Rat) where
  wire : Attachment (toolPeer showNumber readFloat)
  server : McpServer

inductive ToolSessionEvent
  | call (use : ToolUse)
  | receive (n : ℕ)
  | resume
  | readRxStream (port : String) (clear : Bool)
  | readFilterHits (port : String) (clear : Bool)
  | serve (env : Env) (err : String)
  | daemon (e : Event)
  | notify (n : Notification)

namespace ToolSession

def stepWire (s : ToolSession showNumber readFloat) :
    ToolSessionEvent → Option (Attachment (toolPeer showNumber readFloat))
  | .call use => s.wire.step showFloat c (.call use)
  | .receive n => s.wire.step showFloat c (.receive n)
  | .serve env err => s.wire.step showFloat c (.serve env err)
  | .daemon e => s.wire.step showFloat c (.daemon e)
  | .notify n => s.wire.step showFloat c (.notify n)
  | .resume | .readRxStream _ _ | .readFilterHits _ _ => some s.wire

def stepServer (s : ToolSession showNumber readFloat) : ToolSessionEvent → Option McpServer
  | .call use => s.server.step (.call use.call)
  | .receive n => s.server.step (.data (s.wire.outbound.take n))
  | .resume => s.server.step .resume
  | .readRxStream port clear => s.server.step (.readRxStream port clear)
  | .readFilterHits port clear => s.server.step (.readFilterHits port clear)
  | .serve _ _ | .daemon _ | .notify _ => some s.server

def step (s : ToolSession showNumber readFloat) (e : ToolSessionEvent) :
    Option (ToolSession showNumber readFloat) := do
  let wire ← s.stepWire showFloat c e
  let server ← s.stepServer e
  return ⟨wire, server⟩

end ToolSession

/-- All runs of the daemon with the MCP server on one of its connections. -/
def toolSession (showNumber : ℚ → Option NumLit) (readFloat : NumLit → Rat) :
    StepSystem (ToolSession showNumber readFloat) ToolSessionEvent where
  init := ⟨(attachment showFloat (toolPeer showNumber readFloat) c).init, mcpServer.init⟩
  step := ToolSession.step showFloat c

end Session

/-- The messages that resolve promises. -/
def answers (msgs : List Json) : List Json := msgs.filter fun msg => !isNotification msg

private theorem answers_append (msgs more : List Json) :
    answers (msgs ++ more) = answers msgs ++ answers more := List.filter_append _ _

private theorem isNotification_message (showFloat : Rat → NumLit) {m : Message} (h : m.Named) :
    isNotification (m.toJson showFloat) = m.response?.isNone := by
  cases m with
  | response resp => rw [isNotification, Message.toJson, resp.get_notify]; rfl
  | notification n =>
      have hname : n.notify ≠ "" := h
      rw [isNotification, Message.toJson, n.get_notify]
      simp [Option.filter_some, truthy, hname, Message.response?]

private theorem answers_messages (showFloat : Rat → NumLit) {msgs : List Message}
    (h : ∀ m ∈ msgs, m.Named) : answers (msgs.map (Message.toJson showFloat)) =
      (responses msgs).map fun resp => resp.toJson showFloat := by
  induction msgs with
  | nil => rfl
  | cons m msgs ih =>
      obtain ⟨hm, hmsgs⟩ := List.forall_mem_cons.mp h
      have his := isNotification_message showFloat hm
      cases m with
      | response resp =>
          rw [List.map_cons, answers, List.filter_cons_of_pos (by simp [his, Message.response?])]
          exact congrArg (_ :: ·) (ih hmsgs)
      | notification n =>
          rw [List.map_cons, answers, List.filter_cons_of_neg (by simp [his, Message.response?])]
          exact ih hmsgs

namespace Attachment

variable {showFloat : Rat → NumLit} {showNumber : ℚ → Option NumLit} {readFloat : NumLit → Rat}
  {c : ClientId} {w : Attachment (toolPeer showNumber readFloat)}

/-- No message that is written has an empty name. -/
theorem Wired.named (h : w.Wired showFloat c) : ∀ m ∈ w.written, m.Named := by
  intro m hm
  obtain ⟨l, hl, rfl⟩ := List.mem_map.mp hm
  cases l with
  | out o =>
      cases o with
      | response req resp => trivial
      | push p => cases p <;> simp [DaemonLine.message, Outgoing.message, Message.Named,
          Push.notification]
  | refusal err => trivial
  | notice n => simp [DaemonLine.message, Message.Named, h.notices n hl]

/-- The calls that have been made. -/
def uses (w : Attachment (toolPeer showNumber readFloat)) : List ToolUse := w.calls

/-- The data events that have come. -/
def chunks (w : Attachment (toolPeer showNumber readFloat)) : List (List UInt8) := w.client

/-- Nothing comes but by receiving. -/
theorem chunks_of_step {e : AttachmentEvent ToolUse}
    {w' : Attachment (toolPeer showNumber readFloat)} (hstep : w.step showFloat c e = some w')
    (hreceive : ∀ n, e ≠ .receive n) : w'.chunks = w.chunks := by
  cases e with
  | receive n => exact absurd rfl (hreceive n)
  | call use =>
      simp only [Attachment.step, Option.ite_none_right_eq_some, Option.some.injEq] at hstep
      exact hstep.2 ▸ rfl
  | serve env err =>
      simp only [Attachment.step, Attachment.serve, Option.ite_none_right_eq_some] at hstep
      obtain ⟨-, hstep⟩ := hstep
      split at hstep
      · cases hstep
      · split at hstep
        · cases hstep
        · exact Option.some.inj hstep ▸ rfl
        · exact Option.some.inj hstep ▸ rfl
        · obtain ⟨world, -, rfl⟩ := Option.map_eq_some_iff.mp hstep
          rfl
  | daemon e =>
      simp only [Attachment.step, Option.ite_none_right_eq_some, Option.map_eq_some_iff] at hstep
      obtain ⟨-, world, -, rfl⟩ := hstep
      rfl
  | notify n =>
      simp only [Attachment.step, Option.ite_none_right_eq_some, Option.some.injEq] at hstep
      exact hstep.2 ▸ rfl

/-- What the server has been handed. -/
theorem Wired.handedOn (h : w.Wired showFloat c) : ∃ n,
    HandedOn showFloat w.written w.chunks n ∧ (w.outbound = [] → n = w.written.length) := by
  have hconcat : ∀ pieces chunks : List (List UInt8),
      pieces.foldl (fun chunks chunk => chunks ++ [chunk]) chunks = chunks ++ pieces := by
    intro pieces
    induction pieces with
    | nil => exact fun chunks => (List.append_nil chunks).symm
    | cons piece pieces ih =>
        intro chunks
        rw [List.foldl_cons, ih, List.append_assoc, List.singleton_append]
  obtain ⟨pieces, hclient, hbytes⟩ := h.arrived
  have hsame : w.chunks = pieces := hclient.trans (hconcat pieces [])
  rw [hsame]
  exact exists_handedOn hbytes

/-- The answers that have come are the first of the daemon's, blurred. -/
theorem Wired.answered (h : w.Wired showFloat c) : ∃ k ≤ w.replies.length,
    List.Forall₂ Blurred ((w.replies.take k).map fun x => x.2.toJson showFloat)
        (answers (handed [] w.chunks)) ∧
      ((∀ chunk ∈ w.chunks, Whole chunk) → answers (handed [] w.chunks) =
        (w.replies.take k).map fun x => x.2.toJson showFloat) ∧
      (w.outbound = [] → k = w.replies.length) := by
  obtain ⟨n, hhanded, hall⟩ := h.handedOn
  have hnamed : ∀ m ∈ w.written.take n, m.Named :=
    fun m hm => h.named m (List.mem_of_mem_take hm)
  have hcome : responses (w.written.take n) <+: w.replies.map Prod.snd :=
    responses_written w ▸ (List.take_prefix n w.written).filterMap _
  have hwritten : answers ((w.written.take n).map (Message.toJson showFloat)) =
      (w.replies.take (responses (w.written.take n)).length).map
        fun x => x.2.toJson showFloat := by
    have hprefix := hcome.map fun resp => resp.toJson showFloat
    rw [answers_messages showFloat hnamed, List.prefix_iff_eq_take.mp hprefix, List.length_map,
      List.map_map, ← List.map_take]
    rfl
  refine ⟨(responses (w.written.take n)).length, ?_, ?_, fun hwhole => ?_, fun hnone => ?_⟩
  · have hlength := hcome.length_le
    rwa [List.length_map] at hlength
  · rw [← hwritten]
    refine List.rel_filter (fun msg msg' hmsg => ?_) hhanded.blurred
    dsimp only
    rw [isNotification_blurred hmsg]
  · rw [hhanded.exact hwhole, hwritten]
  · rw [hall hnone, List.take_length, responses_written, List.length_map]

end Attachment

namespace ToolSession

variable {showFloat : Rat → NumLit} {showNumber : ℚ → Option NumLit} {readFloat : NumLit → Rat}
  {c : ClientId} {s t : ToolSession showNumber readFloat}

/-- The messages that the data handler has been handed. -/
def messages (s : ToolSession showNumber readFloat) : List Json := handed [] s.wire.chunks

/-- The queue of promises, and the buffers, go with the messages. -/
structure Kept (showFloat : Rat → NumLit) (c : ClientId) (s : ToolSession showNumber readFloat) :
    Prop where
  wired : s.wire.Wired showFloat c
  calls : s.server.calls = s.wire.uses.map ToolUse.call
  text : s.server.client.buffer = kept [] s.wire.chunks
  ids : s.server.settled.map Prod.fst = List.range s.server.settled.length
  values : s.server.settled.map Prod.snd = answers s.messages
  pending : s.server.client.pending =
    (List.range s.server.calls.length).drop s.server.settled.length
  buffers : ∀ kind port buf, port ≠ "" → s.server.client.bufferOf kind port = some buf →
    buf <:+ s.messages.filterMap (pushFor kind port)

theorem step_eq_some {e : ToolSessionEvent} : s.step showFloat c e = some t ↔
    s.stepWire showFloat c e = some t.wire ∧ s.stepServer e = some t.server := by
  obtain ⟨wire, server⟩ := t
  simp only [step, Option.bind_eq_bind, Option.bind_eq_some_iff, Option.pure_def,
    Option.some.injEq, ToolSession.mk.injEq]
  constructor
  · rintro ⟨wire', hwire, server', hserver, rfl, rfl⟩
    exact ⟨hwire, hserver⟩
  · rintro ⟨hwire, hserver⟩
    exact ⟨wire, hwire, server, hserver, rfl, rfl⟩

/-- No more has been answered than called. -/
theorem Kept.settled_le (h : s.Kept showFloat c) :
    s.server.settled.length ≤ s.server.calls.length := by
  obtain ⟨k, hk, hblurred, -, -⟩ := h.wired.answered
  have hvalues := congrArg List.length h.values
  have hlength := hblurred.length_eq
  have hexchanges := h.wired.replies_prefix.length_le
  have hcalls : s.server.calls.length = s.wire.calls.length :=
    (congrArg List.length h.calls).trans (List.length_map _)
  simp only [List.length_map, List.length_take, messages] at hvalues hlength hexchanges
  omega

/-- What goes on at the daemon alone. -/
theorem Kept.elsewhere (h : s.Kept showFloat c) {e : AttachmentEvent ToolUse}
    {wire : Attachment (toolPeer showNumber readFloat)}
    (hstep : s.wire.step showFloat c e = some wire) (hcall : ∀ use, e ≠ .call use)
    (hreceive : ∀ n, e ≠ .receive n) :
    (⟨wire, s.server⟩ : ToolSession showNumber readFloat).Kept showFloat c := by
  obtain ⟨hcalls, -, -⟩ := Attachment.step_later hstep hcall
  have hchunks := Attachment.chunks_of_step hstep hreceive
  have hmessages : (⟨wire, s.server⟩ : ToolSession showNumber readFloat).messages = s.messages :=
    congrArg (handed []) hchunks
  exact
    { wired := h.wired.step hstep
      calls := h.calls.trans (congrArg (List.map ToolUse.call) hcalls.symm)
      text := h.text.trans (congrArg (kept []) hchunks.symm)
      ids := h.ids
      values := hmessages ▸ h.values
      pending := h.pending
      buffers := hmessages ▸ h.buffers }

/-- A tool goes on, or reads a buffer. -/
theorem Kept.tool (h : s.Kept showFloat c) {server : McpServer}
    (hcalls : server.calls = s.server.calls) (hsettled : server.settled = s.server.settled)
    (hpending : server.client.pending = s.server.client.pending)
    (htext : server.client.buffer = s.server.client.buffer)
    (hbuffers : ∀ kind port buf, server.client.bufferOf kind port = some buf →
      buf = [] ∨ s.server.client.bufferOf kind port = some buf) :
    ({ s with server := server } : ToolSession _ _).Kept showFloat c where
  wired := h.wired
  calls := hcalls.trans h.calls
  text := htext.trans h.text
  ids := by rw [hsettled]; exact h.ids
  values := by rw [hsettled]; exact h.values
  pending := by rw [hpending, hcalls, hsettled]; exact h.pending
  buffers kind port buf hport hbuf := by
    obtain rfl | hbuf := hbuffers kind port buf hbuf
    · exact List.nil_suffix
    · exact h.buffers kind port buf hport hbuf

/-- A call goes out. -/
theorem Kept.call (h : s.Kept showFloat c) {use : ToolUse}
    (hstep : s.step showFloat c (.call use) = some t) : t.Kept showFloat c := by
  obtain ⟨wire, server⟩ := t
  obtain ⟨hwire, hserver⟩ := step_eq_some.mp hstep
  obtain rfl := Option.some.inj hserver
  have hwire : s.wire.step showFloat c (.call use) = some wire := hwire
  have hchunks := Attachment.chunks_of_step hwire fun n h => by cases h
  have hcalls : wire.uses = s.wire.uses ++ [use] := by
    simp only [Attachment.step, Option.ite_none_right_eq_some, Option.some.injEq] at hwire
    exact hwire.2 ▸ rfl
  have hle : s.server.settled.length ≤ s.server.calls.length := h.settled_le
  refine
    { wired := h.wired.step hwire
      calls := by rw [hcalls, List.map_append, ← h.calls]; rfl
      text := h.text.trans (congrArg (kept []) hchunks.symm)
      ids := h.ids
      values := h.values.trans (congrArg (fun chunks => answers (handed [] chunks)) hchunks.symm)
      pending := ?_
      buffers := fun kind port buf hport hbuf => ?_ }
  · change s.server.client.pending ++ [s.server.calls.length] =
      (List.range (s.server.calls ++ [use.call]).length).drop s.server.settled.length
    rw [h.pending, List.length_append, List.length_singleton, List.range_succ,
      List.drop_append_of_le_length (by rwa [List.length_range])]
  · have hbuf' : s.server.client.bufferOf kind port = some buf := hbuf
    rw [messages, hchunks]
    exact h.buffers kind port buf hport hbuf'

/-- The messages that a data event brings. -/
def brought (s : ToolSession showNumber readFloat) (n : ℕ) : List Json :=
  messagesOf (LineBuffer.split '\n'
    (s.server.client.buffer ++ Utf8Lossy.chars (s.wire.outbound.take n))).1

/-- Promises that are resolved in turn leave those behind them. -/
theorem settled_append {n : ℕ} {settled : List (SendId × Json)} {new : List Json}
    (hids : settled.map Prod.fst = List.range settled.length)
    (hlength : settled.length + new.length ≤ n) :
    (settled ++ (((List.range n).drop settled.length).take new.length).zip new).map Prod.fst =
        List.range (settled.length + new.length) ∧
      (settled ++ (((List.range n).drop settled.length).take new.length).zip new).map Prod.snd =
        settled.map Prod.snd ++ new ∧
      (settled ++ (((List.range n).drop settled.length).take new.length).zip new).length =
        settled.length + new.length := by
  have htake : (((List.range n).drop settled.length).take new.length).length = new.length := by
    rw [List.length_take, List.length_drop, List.length_range]
    omega
  refine ⟨?_, ?_, ?_⟩
  · have hall : List.range (settled.length + new.length) =
        (List.range n).take (settled.length + new.length) := by
      rw [List.take_range, Nat.min_eq_left hlength]
    rw [List.map_append, hids, List.map_fst_zip htake.le, hall, List.take_add, List.take_range,
      Nat.min_eq_left (Nat.le_of_add_right_le hlength)]
  · rw [List.map_append, List.map_snd_zip htake.ge]
  · rw [List.length_append, List.length_zip, htake, Nat.min_self]

/-- The data handler is handed what the data event brings. -/
theorem Kept.messages_receive (h : s.Kept showFloat c) {n : ℕ}
    {wire : Attachment (toolPeer showNumber readFloat)}
    (hwire : s.wire.step showFloat c (.receive n) = some wire) :
    handed [] wire.chunks = s.messages ++ s.brought n ∧
      kept [] wire.chunks = (LineBuffer.split '\n'
        (s.server.client.buffer ++ Utf8Lossy.chars (s.wire.outbound.take n))).2 := by
  have hchunks : wire.chunks = s.wire.chunks ++ [s.wire.outbound.take n] := by
    simp only [Attachment.step, Option.ite_none_right_eq_some, Option.some.injEq] at hwire
    exact hwire.2 ▸ rfl
  obtain ⟨hhanded, hkept⟩ := handed_append s.wire.chunks [s.wire.outbound.take n] []
  rw [← hchunks, ← h.text] at hhanded hkept
  exact ⟨hhanded.trans (congrArg (s.messages ++ ·) (List.append_nil _)), hkept⟩

/-- It is handed objects, and no more answers than there are calls that wait. -/
theorem Kept.brought (h : s.Kept showFloat c) {n : ℕ}
    {wire : Attachment (toolPeer showNumber readFloat)}
    (hwire : s.wire.step showFloat c (.receive n) = some wire) :
    (∀ msg ∈ s.brought n, ∃ fields, msg = .obj fields) ∧
      s.server.settled.length + (answers (s.brought n)).length ≤ s.server.calls.length := by
  have hwired := h.wired.step hwire
  have hmessages := (h.messages_receive hwire).1
  constructor
  · obtain ⟨m, hm, -⟩ := hwired.handedOn
    intro msg hmsg
    refine objects_of_blurred hm.blurred ?_ msg ?_
    · intro msg' hmsg'
      obtain ⟨m', -, rfl⟩ := List.mem_map.mp hmsg'
      exact m'.toJson_obj showFloat
    · rw [hmessages]
      exact List.mem_append_right _ hmsg
  · obtain ⟨hcalls, -, -⟩ := Attachment.step_later hwire (by simp)
    obtain ⟨k, hk, hblurred, -, -⟩ := hwired.answered
    have hcount := hblurred.length_eq
    have hreplies := hwired.replies_prefix.length_le
    have hvalues := congrArg List.length h.values
    have hsame : s.server.calls.length = wire.calls.length :=
      (congrArg List.length h.calls).trans
        ((List.length_map _).trans (congrArg List.length hcalls.symm))
    rw [hmessages, answers_append, List.length_append] at hcount
    simp only [List.length_map, List.length_take] at hvalues hcount hreplies
    omega

/-- The promises at the front of the queue are resolved with the answers. -/
theorem Kept.resolved (h : s.Kept showFloat c) {n : ℕ}
    {wire : Attachment (toolPeer showNumber readFloat)}
    (hwire : s.wire.step showFloat c (.receive n) = some wire) :
    (s.server.client.onBytes (s.wire.outbound.take n)).2 =
        (((List.range s.server.calls.length).drop s.server.settled.length).take
          (answers (s.brought n)).length).zip (answers (s.brought n)) ∧
      (s.server.client.onBytes (s.wire.outbound.take n)).1.pending =
        (List.range s.server.calls.length).drop
          (s.server.settled.length + (answers (s.brought n)).length) := by
  obtain ⟨hobj, hlength⟩ := h.brought hwire
  have hqueue : (answers (s.brought n)).length ≤ s.server.client.pending.length := by
    rw [h.pending, List.length_drop, List.length_range]
    omega
  obtain ⟨hresolved, hpending⟩ := handleAll_settles hobj hqueue
  rw [h.pending] at hresolved hpending
  rw [List.drop_drop] at hpending
  rw [DaemonClient.onBytes, DaemonClient.onData, DaemonClient.onLines_eq,
    DaemonClient.handleAll_withBuffer]
  exact ⟨hresolved, hpending⟩

/-- A data event, cut wherever it is. -/
theorem Kept.receive (h : s.Kept showFloat c) {n : ℕ}
    (hstep : s.step showFloat c (.receive n) = some t) : t.Kept showFloat c := by
  obtain ⟨wire, server⟩ := t
  obtain ⟨hreceive, hserver⟩ := step_eq_some.mp hstep
  have hwire : s.wire.step showFloat c (.receive n) = some wire := hreceive
  obtain ⟨hcalls, -, -⟩ := Attachment.step_later hwire (by simp)
  obtain ⟨hmessages, hkept⟩ := h.messages_receive hwire
  obtain ⟨hresolved, hpending⟩ := h.resolved hwire
  obtain ⟨hids, hvalues, hcount⟩ := settled_append h.ids (h.brought hwire).2
  rw [← hresolved] at hids hvalues hcount
  simp only [stepServer, McpServer.step, Option.ite_none_right_eq_some, Option.some.injEq]
    at hserver
  obtain ⟨-, rfl⟩ := hserver
  refine
    { wired := h.wired.step hwire
      calls := h.calls.trans (congrArg (List.map ToolUse.call) hcalls.symm)
      text := (s.server.client.buffer_onBytes _).trans hkept.symm
      ids := hids.trans (congrArg List.range hcount.symm)
      values := ?_
      pending := hpending.trans (congrArg (List.range s.server.calls.length).drop hcount.symm)
      buffers := fun kind port buf hport hbuf => ?_ }
  · rw [messages, hmessages, answers_append, ← h.values]
    exact hvalues
  · have hbuf' : (s.server.client.onBytes (s.wire.outbound.take n)).1.bufferOf kind port =
        some buf := hbuf
    rw [DaemonClient.onBytes, DaemonClient.onData, DaemonClient.bufferOf_onLines _ hport] at hbuf'
    obtain ⟨old, hold, rfl⟩ := Option.map_eq_some_iff.mp hbuf'
    rw [messages, hmessages, List.filterMap_append]
    exact Window.keep_suffix _ (h.buffers kind port old hport hold) _

/-- A response that goes on makes a buffer empty, drops it, or leaves it. -/
theorem bufferOf_resume_cases {tool : ToolCall} {client : DaemonClient} {resp : Json}
    {kind : BufferKind} {port : String} {buf : List Json}
    (h : (tool.resume client resp).bufferOf kind port = some buf) :
    buf = [] ∨ client.bufferOf kind port = some buf := by
  by_cases htarget : tool.target = some (kind, port)
  · unfold ToolCall.resume at h
    split_ifs at h
    · cases tool with
      | subscribeRx p | filterRx p =>
          obtain ⟨rfl, rfl⟩ : _ ∧ _ := by simpa [ToolCall.target] using htarget
          exact Or.inl (by simpa [DaemonClient.bufferOf] using h.symm)
      | unsubscribeRx p | unfilterRx p =>
          obtain ⟨rfl, rfl⟩ : _ ∧ _ := by simpa [ToolCall.target] using htarget
          simp [DaemonClient.bufferOf] at h
      | addFilterRx p =>
          obtain ⟨rfl, rfl⟩ : _ ∧ _ := by simpa [ToolCall.target] using htarget
          dsimp only at h
          split_ifs at h
          · exact Or.inr h
          · exact Or.inl (by simpa [DaemonClient.bufferOf] using h.symm)
      | openPort | closePort | forward => simp [ToolCall.target] at htarget
    · exact Or.inr h
  · exact Or.inr (ToolCall.bufferOf_resume_of_ne htarget ▸ h)

private theorem bufferOf_read_cases {client : DaemonClient} {kind k : BufferKind} {port q : String}
    {clear : Bool} {buf : List Json} (h : (client.read k q clear).1.bufferOf kind port = some buf) :
    buf = [] ∨ client.bufferOf kind port = some buf := by
  by_cases hhere : clear = true ∧ (k, q) = (kind, port)
  · obtain ⟨rfl, heq⟩ := hhere
    obtain ⟨rfl, rfl⟩ := Prod.mk.inj heq
    cases hb : client.bufferOf k q with
    | some b =>
        rw [(DaemonClient.read_eq_ok hb).2] at h
        exact Or.inl (Option.some.inj h).symm
    | none =>
        cases k <;> simp_all [DaemonClient.bufferOf, DaemonClient.read, DaemonClient.readRxStream,
          DaemonClient.readFilterHits, readBuffer]
  · refine Or.inr (Eq.trans ?_ h)
    cases k with
    | rxStream =>
        exact (client.bufferOf_readRxStream fun hclear heq => hhere ⟨hclear, heq⟩).symm
    | filterHits =>
        exact (client.bufferOf_readFilterHits fun hclear heq => hhere ⟨hclear, heq⟩).symm

/-- What a step preserves. -/
theorem Kept.step (h : s.Kept showFloat c) {e : ToolSessionEvent}
    (hstep : s.step showFloat c e = some t) : t.Kept showFloat c := by
  cases e with
  | call use => exact h.call hstep
  | receive n => exact h.receive hstep
  | resume =>
      obtain ⟨wire, server⟩ := t
      obtain ⟨hwire, hserver⟩ := step_eq_some.mp hstep
      obtain rfl := Option.some.inj hwire
      obtain ⟨⟨tool, resp⟩, -, rfl⟩ := Option.map_eq_some_iff.mp hserver
      exact h.tool rfl rfl (ToolCall.pending_resume tool s.server.client resp)
        (ToolCall.buffer_resume tool s.server.client resp) fun kind port buf hbuf =>
          bufferOf_resume_cases hbuf
  | readRxStream port clear =>
      obtain ⟨wire, server⟩ := t
      obtain ⟨hwire, hserver⟩ := step_eq_some.mp hstep
      obtain rfl := Option.some.inj hwire
      obtain rfl := Option.some.inj hserver
      exact h.tool rfl rfl rfl rfl fun kind port buf hbuf =>
        bufferOf_read_cases (k := .rxStream) hbuf
  | readFilterHits port clear =>
      obtain ⟨wire, server⟩ := t
      obtain ⟨hwire, hserver⟩ := step_eq_some.mp hstep
      obtain rfl := Option.some.inj hwire
      obtain rfl := Option.some.inj hserver
      exact h.tool rfl rfl rfl rfl fun kind port buf hbuf =>
        bufferOf_read_cases (k := .filterHits) hbuf
  | serve env err =>
      obtain ⟨wire, server⟩ := t
      obtain ⟨hwire, hserver⟩ := step_eq_some.mp hstep
      obtain rfl := Option.some.inj hserver
      exact h.elsewhere (e := .serve env err) hwire (by simp) (by simp)
  | daemon e =>
      obtain ⟨wire, server⟩ := t
      obtain ⟨hwire, hserver⟩ := step_eq_some.mp hstep
      obtain rfl := Option.some.inj hserver
      exact h.elsewhere (e := .daemon e) hwire (by simp) (by simp)
  | notify n =>
      obtain ⟨wire, server⟩ := t
      obtain ⟨hwire, hserver⟩ := step_eq_some.mp hstep
      obtain rfl := Option.some.inj hserver
      exact h.elsewhere (e := .notify n) hwire (by simp) (by simp)

theorem kept_init : (toolSession showFloat c showNumber readFloat).init.Kept showFloat c := by
  have hbuffer : ∀ kind port, DaemonClient.new.bufferOf kind port = none := by
    intro kind port
    cases kind <;> rfl
  exact
    { wired := Attachment.wired_init
      calls := rfl
      text := rfl
      ids := rfl
      values := rfl
      pending := rfl
      buffers := fun kind port buf _ hbuf => by
        have hnone := hbuffer kind port
        rw [show DaemonClient.new.bufferOf kind port = some buf from hbuf] at hnone
        cases hnone }

theorem kept_of_run {es : List ToolSessionEvent}
    (hrun : (toolSession showFloat c showNumber readFloat).run es = some s) :
    s.Kept showFloat c :=
  (toolSession showFloat c showNumber readFloat).run_invariant
    (P := fun s => s.Kept showFloat c) kept_init (fun _ _ _ h => h.step) hrun

end ToolSession

section

variable {showFloat : Rat → NumLit} {showNumber : ℚ → Option NumLit} {readFloat : NumLit → Rat}
  {c : ClientId} {s : ToolSession showNumber readFloat} {es : List ToolSessionEvent}

end

def subscribeUse : ToolUse :=
  ⟨.subscribeRx, linuxWorkplace, isoMidnight, .object [("port", .string "COM3")], _, rfl⟩

/-- The server subscribes to a port that another client has opened. Its response comes in
two pieces, and so does the push of an entry with one character, which is cut. -/
def cutSession : List ToolSessionEvent :=
  [.daemon (.connect 0), .daemon (.connect 1)] ++
    (issue 1 (portRequest "open_port" "COM3") 2).map .daemon ++
    [.call subscribeUse, .serve ⟨.ok (), .successMsg ""⟩ ""] ++
    List.replicate 3 (.daemon (.client 0 .dispatch)) ++
    [.daemon (stream 0 []), .receive 30, .receive 23, .resume,
      .daemon (.deliver 0 ⟨"2026:01:01 12:00:00", [0xED, 0x95, 0x9C]⟩),
      .daemon (stream 0 ["COM3"]), .daemon (stream 0 []), .daemon (stream 0 []), .receive 38,
      .receive 69]

/-- The text that a message has under its key `ascii`. -/
def asciiOf (data : Json) : Option String :=
  match data.get "ascii" with
  | some (.str s) => some s
  | _ => none

theorem cutSession_hears :
    ((toolSession (fun _ => .ofNat 0) 0 showWhole fun _ => 0).run cutSession).any (fun s =>
      s.wire.outbound.isEmpty && s.server.settled.length == 1 &&
        decide ((s.server.client.bufferOf .rxStream "COM3").map (List.map asciiOf) =
          some [some "\uFFFD\uFFFD\uFFFD"])) = true := by
  decide +kernel

end Commmon

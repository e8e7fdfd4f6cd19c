/-
# Subscriptions on both sides

The server is in step with the session of its connection: what the session has
registered is what the server will have once it has handled the responses on
their way, and the requests it waits for are those that are answered, under way
or not yet read. Without a connection it has no buffers.
-/

import Commmon.Answers

set_option autoImplicit false

namespace Commmon

/-- What a command under way leads to, or what is left of the last one. -/
def Follows (key : BufferKind × String) (b now : Bool) : Option (Request × Pc) → Prop
  | none => now = b
  | some (req, pc) => pc.Leads key b req now

/-- The server is in step with the daemon's client at the other end. -/
structure Synced (s : McpServer) (outbox : List Request) (seen : ℕ) (cl : Client) : Prop where
  seen_le : seen ≤ cl.written.length
  fifo : s.asked =
    ((cl.answers seen).map Prod.fst ++ cl.dispatch.toList.map Prod.fst ++ outbox).map some
  follows : ∀ key, Follows key ((cl.answers seen).foldl (noted key) (s.willHave key))
    (cl.session.registered key.1 key.2) cl.dispatch

namespace Synced

variable {s t : McpServer} {outbox : List Request} {seen : ℕ} {cl cl' : Client}
  {m m' : SerialManager}

theorem of_same (h : Synced s outbox seen cl) (hasked : t.asked = s.asked)
    (hwill : ∀ key, t.willHave key = s.willHave key) : Synced t outbox seen cl := by
  refine ⟨h.seen_le, hasked.trans h.fifo, fun key => ?_⟩
  rw [hwill]
  exact h.follows key

theorem call (h : Synced s outbox seen cl) {req : Request}
    (hasked : t.asked = s.asked ++ [some req]) (hwill : ∀ key, t.willHave key = s.willHave key) :
    Synced t (outbox ++ [req]) seen cl := by
  refine ⟨h.seen_le, ?_, fun key => ?_⟩
  · rw [hasked, h.fifo]
    simp
  · rw [hwill]
    exact h.follows key

private theorem answers_push {p : Push} (hline : cl.written[seen]? = some (.push p)) :
    cl.answers seen = cl.answers (seen + 1) := by
  obtain ⟨hlt, hget⟩ := List.getElem?_eq_some_iff.mp hline
  rw [Client.answers, List.drop_eq_getElem_cons hlt, hget]
  rfl

private theorem answers_response {req : Request} {resp : Response}
    (hline : cl.written[seen]? = some (.response req resp)) :
    cl.answers seen = (req, resp.ok) :: cl.answers (seen + 1) := by
  obtain ⟨hlt, hget⟩ := List.getElem?_eq_some_iff.mp hline
  rw [Client.answers, List.drop_eq_getElem_cons hlt, hget]
  rfl

theorem push (h : Synced s outbox seen cl) {p : Push}
    (hline : cl.written[seen]? = some (.push p)) (hasked : t.asked = s.asked)
    (hwill : ∀ key, t.willHave key = s.willHave key) : Synced t outbox (seen + 1) cl := by
  have hanswers := answers_push hline
  obtain ⟨hlt, -⟩ := List.getElem?_eq_some_iff.mp hline
  refine ⟨hlt, ?_, fun key => ?_⟩
  · rw [hasked, h.fifo, hanswers]
  · rw [hwill, ← hanswers]
    exact h.follows key

theorem response (h : Synced s outbox seen cl) {req : Request} {resp : Response}
    (hline : cl.written[seen]? = some (.response req resp))
    (hasked : s.asked = some req :: t.asked)
    (hwill : ∀ key, t.willHave key = noted key (s.willHave key) (req, resp.ok)) :
    Synced t outbox (seen + 1) cl := by
  have hanswers := answers_response hline
  obtain ⟨hlt, -⟩ := List.getElem?_eq_some_iff.mp hline
  refine ⟨hlt, ?_, fun key => ?_⟩
  · have hfifo := h.fifo
    rw [hasked, hanswers, List.map_cons, List.cons_append, List.cons_append, List.map_cons] at hfifo
    exact List.tail_eq_of_cons_eq hfifo
  · have hfollows := h.follows key
    rw [hanswers, List.foldl_cons, ← hwill] at hfollows
    exact hfollows

/-- What is written first is asked for first. -/
theorem asked_of_response (h : Synced s outbox seen cl) {req : Request} {resp : Response}
    (hline : cl.written[seen]? = some (.response req resp)) :
    ∃ rest, s.asked = some req :: rest := by
  rw [h.fifo, answers_response hline]
  exact ⟨_, rfl⟩

theorem began (h : Synced s outbox seen cl) {req : Request} {rest : List Request}
    (houtbox : outbox = req :: rest) {s' : ClientSession} {pc : Pc} (hidle : cl.dispatch = none)
    (hbegins : Dispatch.Begins m cl.session req m' s' pc) :
    Synced s rest seen { cl with session := s', dispatch := some (req, pc) } := by
  refine ⟨h.seen_le, ?_, fun key => ?_⟩
  · rw [h.fifo, hidle, houtbox]
    simp [Client.answers]
  · have hfollows := h.follows key
    rw [hidle] at hfollows
    exact hbegins.leads hfollows

theorem streamed (h : Synced s outbox seen cl) (task : StreamTask) (queue : List RxSubCommand)
    (lines : List Push) : Synced s outbox seen
      { cl with task := task, queue := queue, written := cl.written ++ lines.map .push } := by
  have hanswers : Client.answers
      { cl with task := task, queue := queue, written := cl.written ++ lines.map .push } seen =
        cl.answers seen := by
    have hpushes : (lines.map Outgoing.push).filterMap Outgoing.answer = [] := by
      simp [List.filterMap_map, Function.comp_def, Outgoing.answer]
    rw [Client.answers, List.drop_append_of_le_length h.seen_le, List.filterMap_append, hpushes,
      List.append_nil, Client.answers]
  refine ⟨?_, ?_, fun key => ?_⟩
  · simpa using Nat.le_add_right_of_le h.seen_le
  · rw [hanswers]
    exact h.fifo
  · rw [hanswers]
    exact h.follows key

theorem advanced (h : Synced s outbox seen cl) {req : Request} {pc : Pc}
    (hpc : cl.dispatch = some (req, pc)) (hadvances : cl.Advances m req pc cl')
    (hforgot : ∀ port resp, pc = .onPortClosed port resp →
      port ∉ cl.session.rxSubscriptions ∧ cl.session.filterSubscriptions.lookup port = none)
    (hfailed : ∀ cmd success, pc = .send cmd success → cl.task.isEnded = true →
      ∀ key, cmd.registers = some key →
        (cl.answers seen).foldl (noted key) (s.willHave key) = true) :
    Synced s outbox seen cl' := by
  have hleads : ∀ key, pc.Leads key ((cl.answers seen).foldl (noted key) (s.willHave key)) req
      (cl.session.registered key.1 key.2) := by
    intro key
    have hfollows := h.follows key
    rwa [hpc] at hfollows
  have hstep := fun key => hadvances.leads (hleads key) hforgot
    fun cmd success hcmd hended => hfailed cmd success hcmd hended key
  -- Whether the command has written its response does not depend on the key.
  obtain ⟨pc', hpc', -, hwritten⟩ | ⟨resp, hidle, hwritten, -⟩ := hstep (.rxStream, "")
  · have hanswers : cl'.answers seen = cl.answers seen := by
      rw [Client.answers, hwritten, Client.answers]
    refine ⟨hwritten ▸ h.seen_le, ?_, fun key => ?_⟩
    · rw [h.fifo, hanswers, hpc, hpc']
      rfl
    · rw [hanswers, hpc']
      obtain ⟨pc'', hpc'', hnow, -⟩ | ⟨resp, hnone, -⟩ := hstep key
      · obtain ⟨-, rfl⟩ := Prod.mk.inj (Option.some.inj (hpc'.symm.trans hpc''))
        exact hnow
      · simp [hpc'] at hnone
  · have hanswers : cl'.answers seen = cl.answers seen ++ [(req, resp.ok)] := by
      rw [Client.answers, hwritten, List.drop_append_of_le_length h.seen_le,
        List.filterMap_append, Client.answers]
      rfl
    refine ⟨?_, ?_, fun key => ?_⟩
    · rw [hwritten, List.length_append]
      exact Nat.le_add_right_of_le h.seen_le
    · rw [h.fifo, hanswers, hpc, hidle]
      simp
    · rw [hanswers, hidle, List.foldl_append]
      obtain ⟨pc'', hpc'', -⟩ | ⟨resp', -, hwritten', hnow⟩ := hstep key
      · simp [hidle] at hpc''
      · obtain ⟨-, hlast⟩ := List.append_inj' (hwritten.symm.trans hwritten') rfl
        obtain rfl : resp = resp' := by simpa using hlast
        exact hnow

end Synced

namespace McpDaemon

variable {showFloat : Rat → NumLit} {w w' : McpDaemon}

/-- The server is in step with the session of its connection, and without one it
has no buffers. -/
structure Following (w : McpDaemon) : Prop where
  sound : w.mcp.Sound
  idle : w.link = .down → w.outbox = []
  apart : (∀ c, w.link ≠ .up c) →
    w.mcp.asked = w.outbox.map some ∧ ∀ key, w.mcp.willHave key = false
  synced : ∀ c, w.link = .up c →
    ∃ cl, w.world.clients c = some cl ∧ Synced w.mcp w.outbox w.seen cl

private theorem current_of_up {c : ClientId} (hlink : w.link = .up c) :
    w.current = w.world.clients c := by
  rw [current, hlink]

private theorem current_of_apart (hlink : ∀ c, w.link ≠ .up c) : w.current = none := by
  unfold current
  split
  · rename_i c hup
    exact absurd hup (hlink c)
  · rfl
  · rfl

private theorem has_of_keys (hrx : w.mcp.client.rxStreamBuffers.keys = [])
    (hhits : w.mcp.client.filterHits.keys = []) (key : BufferKind × String) :
    w.mcp.has key = false := by
  obtain ⟨kind, port⟩ := key
  have hnone : ∀ {ν : Type} (buffers : Table String ν), buffers.keys = [] →
      (buffers.lookup port).isSome = false := by
    intro ν buffers hkeys
    rw [Bool.eq_false_iff]
    intro hsome
    have hmem := AList.mem_keys.mp (AList.lookup_isSome.mp hsome)
    simp [hkeys] at hmem
  cases kind with
  | rxStream => exact hnone _ hrx
  | filterHits => exact hnone _ hhits

/-- What only changes the server, and nothing that is noted here. -/
theorem Following.of_mcp (h : w.Following) {mcp : McpServer} (hsound : mcp.Sound)
    (hasked : mcp.asked = w.mcp.asked) (hwill : ∀ key, mcp.willHave key = w.mcp.willHave key) :
    Following { w with mcp := mcp } where
  sound := hsound
  idle := h.idle
  apart hlink := by
    obtain ⟨hfifo, hnone⟩ := h.apart hlink
    exact ⟨hasked.trans hfifo, fun key => (hwill key).trans (hnone key)⟩
  synced c hlink := by
    obtain ⟨cl, hcl, hsynced⟩ := h.synced c hlink
    exact ⟨cl, hcl, hsynced.of_same hasked hwill⟩

private theorem following_lose (h : w.Following) {w' : McpDaemon} (world : World)
    (hrx : w.mcp.client.rxStreamBuffers.keys = []) (hhits : w.mcp.client.filterHits.keys = [])
    (hlose : w.lose = some w') : Following { w' with world := world } := by
  unfold lose at hlose
  split_ifs at hlose with hresumed
  obtain rfl := Option.some.inj hlose
  obtain ⟨hsound, hasked, hwill⟩ := McpServer.close_spec h.sound hresumed
  refine ⟨hsound, fun _ => rfl, fun _ => ⟨hasked, fun key => ?_⟩, fun c hlink => ?_⟩
  · exact (hwill key).trans (has_of_keys hrx hhits key)
  · simp at hlink

private theorem following_init : Following (mcpDaemon showFloat).init := by
  refine ⟨⟨?_, ?_, ?_, le_rfl⟩, fun _ => rfl, fun _ => ⟨rfl, fun key => ?_⟩, fun c hlink => ?_⟩
  · exact fun tool hmem => absurd hmem List.not_mem_nil
  · exact fun i hmem => absurd hmem List.not_mem_nil
  · exact fun x hmem => absurd hmem List.not_mem_nil
  · obtain ⟨kind, port⟩ := key
    cases kind <;> rfl
  · simp [mcpDaemon] at hlink

private theorem succeeded_toJson (showFloat : Rat → NumLit) (resp : Response) :
    ToolCall.succeeded (resp.toJson showFloat) = resp.ok := by
  rw [ToolCall.succeeded, resp.get_ok showFloat]
  rfl

theorem Following.receive (h : w.Following) {c : ClientId} (hlink : w.link = .up c)
    {cl : Client} (hcl : w.world.clients c = some cl) {line : Outgoing}
    (hline : cl.written[w.seen]? = some line) :
    Following { w with mcp := w.mcp.receive (line.toJson showFloat), seen := w.seen + 1 } := by
  obtain ⟨cl', hcl', hsynced⟩ := h.synced c hlink
  obtain rfl := Option.some.inj (hcl.symm.trans hcl')
  suffices hreceived : (w.mcp.receive (line.toJson showFloat)).Sound ∧
      Synced (w.mcp.receive (line.toJson showFloat)) w.outbox (w.seen + 1) cl by
    refine ⟨hreceived.1, h.idle, fun hapart => absurd hlink (hapart c), fun d hup => ?_⟩
    obtain rfl := Link.up.inj (hlink.symm.trans hup)
    exact ⟨cl, hcl, hreceived.2⟩
  cases line with
  | response req resp =>
      obtain ⟨rest, hasked⟩ := hsynced.asked_of_response hline
      obtain ⟨hsound, hrest, hwill⟩ := McpServer.receive_response h.sound hasked
        (DaemonClient.handle_response showFloat resp)
      refine ⟨hsound, hsynced.response hline (hasked.trans (by rw [← hrest]; rfl)) fun key => ?_⟩
      rw [← succeeded_toJson showFloat]
      exact hwill key
  | push p =>
      have hname : p.notification.notify ≠ "" := by cases p <;> simp [Push.notification]
      obtain ⟨hsound, hasked, hwill⟩ := McpServer.receive_push h.sound
        (DaemonClient.handle_notification showFloat hname) (DaemonClient.pending_onNotify _ _)
      exact ⟨hsound, hsynced.push hline hasked hwill⟩

/-- A step of the daemon that is none of its client here, or before there is
one. -/
theorem Following.of_world (h : w.Following) {world : World}
    (hclient : ∀ c cl, w.link = .up c → w.world.clients c = some cl →
      Synced w.mcp w.outbox w.seen cl →
      ∃ cl', world.clients c = some cl' ∧ Synced w.mcp w.outbox w.seen cl') :
    Following { w with world := world } where
  sound := h.sound
  idle := h.idle
  apart := h.apart
  synced c hlink := by
    obtain ⟨cl, hcl, hsynced⟩ := h.synced c hlink
    exact hclient c cl hlink hcl hsynced

theorem Following.take (h : w.Following) {c : ClientId} (hlink : w.link = .up c)
    {req : Request} {rest : List Request} (houtbox : w.outbox = req :: rest) {env : Env}
    {world : World} (hworld : w.world.step (.client c (.request req env)) = some world) :
    Following { w with outbox := rest, world := world } := by
  obtain ⟨cl, hcl, hsynced⟩ := h.synced c hlink
  suffices htaken : ∃ cl', world.clients c = some cl' ∧ Synced w.mcp rest w.seen cl' by
    refine ⟨h.sound, fun hdown => ?_, fun hapart => absurd hlink (hapart c), fun d hup => ?_⟩
    · simp [show w.link = .down from hdown] at hlink
    · obtain rfl := Link.up.inj (hlink.symm.trans hup)
      exact htaken
  cases World.step_seen hworld c with
  | joined he => exact absurd he (by simp)
  | left cl he => exact absurd he (by simp)
  | own cl' cl'' ce he hclient hconnected hsteps hclient' =>
      obtain ⟨-, rfl⟩ := Event.client.inj he
      obtain rfl := Option.some.inj (hcl.symm.trans hclient)
      cases hsteps with
      | began _ _ _ s' pc hidle hbegins => exact ⟨_, hclient', hsynced.began houtbox hidle hbegins⟩
  | elsewhere hclient hchanges hevent =>
      obtain ⟨d, ce, hne, he⟩ | ⟨-, he⟩ := hevent
      · exact absurd (Event.client.inj he).1.symm hne
      · exact absurd rfl (he _)

theorem Following.daemon (h : w.Following) {e : Event} (hfree : w.Free e)
    (hharmless : w.Harmless (.daemon e)) {world : World} (hworld : w.world.step e = some world) :
    Following { w with world := world } := by
  apply h.of_world
  intro c cl hlink hcl hsynced
  cases World.step_seen hworld c with
  | joined he hclient => simp [hcl] at hclient
  | left cl' he =>
      subst he
      exact absurd hlink hfree
  | own cl' cl'' ce he hclient hconnected hsteps hclient' =>
      subst he
      obtain rfl := Option.some.inj (hcl.symm.trans hclient)
      refine ⟨cl'', hclient', ?_⟩
      generalize world.serial = m' at hsteps
      cases hsteps with
      | began req env m' s' pc hidle hbegins => exact absurd hlink hfree
      | streamed order writeOk task queue lines hrunning hmoves =>
          exact hsynced.streamed task queue lines
      | advanced req pc cl'' hpc hadvances =>
          have hpcHarmless : w.HarmlessPc cl pc := hharmless hlink cl hcl (req, pc) hpc
          refine hsynced.advanced hpc hadvances ?_ ?_
          · rintro port resp rfl
            exact hpcHarmless
          · rintro cmd success rfl hended key hkey
            have hmirrored := hpcHarmless hended key hkey
            rwa [mirrored, current_of_up hlink, hcl] at hmirrored
  | elsewhere hclient hchanges hevent => exact ⟨cl, hclient.trans hcl, hsynced⟩

theorem Following.dial (h : w.Following) (hdown : w.link = .down) :
    Following { w with link := .dialing } := by
  have hapart : ∀ c, w.link ≠ .up c := by simp [hdown]
  refine ⟨h.sound, fun hlink => ?_, fun _ => h.apart hapart, fun c hup => ?_⟩
  · simp at hlink
  · simp at hup

/-- The session of a new connection has registered nothing. -/
theorem Following.connected (h : w.Following) (hdialing : w.link = .dialing) {c : ClientId}
    {world : World} (hworld : w.world.step (.connect c) = some world) :
    Following { w with link := .up c, seen := 0, world := world } := by
  have hapart : ∀ c, w.link ≠ .up c := by simp [hdialing]
  obtain ⟨hasked, hnone⟩ := h.apart hapart
  refine ⟨h.sound, fun hlink => ?_, fun hlink => absurd rfl (hlink c), fun d hup => ?_⟩
  · simp at hlink
  · obtain rfl := Link.up.inj hup
    simp only [World.step] at hworld
    split at hworld
    · simp at hworld
    · obtain rfl := Option.some.inj hworld
      refine ⟨.new, by simp [World.setClient], Nat.zero_le _, hasked, fun key => ?_⟩
      rw [show Client.answers .new 0 = [] from rfl, List.foldl_nil, hnone key]
      obtain ⟨kind, port⟩ := key
      cases kind <;> rfl

theorem Following.dialFailed (h : w.Following) (hdialing : w.link = .dialing)
    (hpending : w.mcp.client.pending = []) :
    Following { w with link := .down, outbox := [] } := by
  have hapart : ∀ c, w.link ≠ .up c := by simp [hdialing]
  refine ⟨h.sound, fun _ => rfl, fun _ => ⟨?_, (h.apart hapart).2⟩, fun c hup => ?_⟩
  · rw [McpServer.asked, hpending]
    rfl
  · simp at hup

theorem Following.call (h : w.Following) (hlink : w.link ≠ .down) {tool : ToolCall}
    (hlisted : tool.Listed) {mcp : McpServer} (hmcp : w.mcp.step (.call tool) = some mcp) :
    Following { w with mcp := mcp, outbox := w.outbox ++ [tool.request] } := by
  obtain ⟨hsound, hasked, hwill⟩ := McpServer.step_call h.sound hlisted hmcp
  refine ⟨hsound, fun hdown => absurd hdown hlink, fun hapart => ?_, fun c hup => ?_⟩
  · obtain ⟨hfifo, hnone⟩ := h.apart hapart
    refine ⟨?_, fun key => (hwill key).trans (hnone key)⟩
    rw [hasked, hfifo]
    simp
  · obtain ⟨cl, hcl, hsynced⟩ := h.synced c hup
    exact ⟨cl, hcl, hsynced.call hasked hwill⟩

theorem Following.step {e : McpDaemonEvent} (h : w.Following) (hharmless : w.Harmless e)
    (hstep : w.step showFloat e = some w') : w'.Following := by
  cases e with
  | dial =>
      simp only [McpDaemon.step] at hstep
      split_ifs at hstep with hdown
      exact Option.some.inj hstep ▸ h.dial hdown
  | connected c =>
      simp only [McpDaemon.step] at hstep
      split_ifs at hstep with hdialing
      obtain ⟨world, hworld, rfl⟩ := Option.map_eq_some_iff.mp hstep
      exact h.connected hdialing hworld
  | dialFailed =>
      simp only [McpDaemon.step] at hstep
      split_ifs at hstep with hdialing
      exact Option.some.inj hstep ▸ h.dialFailed hdialing hharmless
  | call tool =>
      simp only [McpDaemon.step] at hstep
      split_ifs at hstep with hcall
      obtain ⟨mcp, hmcp, rfl⟩ := Option.map_eq_some_iff.mp hstep
      exact h.call hcall.1 hcall.2 hmcp
  | receive =>
      simp only [McpDaemon.step] at hstep
      obtain ⟨line, hline, rfl⟩ := Option.map_eq_some_iff.mp hstep
      obtain ⟨cl, hcurrent, hline⟩ := Option.bind_eq_some_iff.mp hline
      unfold current at hcurrent
      split at hcurrent
      · exact h.receive ‹_› hcurrent hline
      · simp at hcurrent
      · simp at hcurrent
  | resume =>
      obtain ⟨mcp, hmcp, rfl⟩ := Option.map_eq_some_iff.mp hstep
      obtain ⟨hsound, hasked, hwill⟩ := McpServer.step_resume h.sound hmcp
      exact h.of_mcp hsound hasked hwill
  | readRxStream port clear =>
      obtain rfl := Option.some.inj hstep
      obtain ⟨hsound, hasked, hwill⟩ := McpServer.readRxStream_spec h.sound port clear
      exact h.of_mcp hsound hasked hwill
  | readFilterHits port clear =>
      obtain rfl := Option.some.inj hstep
      obtain ⟨hsound, hasked, hwill⟩ := McpServer.readFilterHits_spec h.sound port clear
      exact h.of_mcp hsound hasked hwill
  | lost =>
      obtain ⟨hrx, hhits⟩ := hharmless
      simp only [McpDaemon.step] at hstep
      split at hstep
      · exact following_lose h w'.world hrx hhits hstep
      · simp at hstep
      · simp at hstep
  | restart =>
      simp only [McpDaemon.step] at hstep
      split at hstep
      · rename_i c hlink
        obtain ⟨lost, hlose, rfl⟩ := Option.map_eq_some_iff.mp hstep
        obtain ⟨cl, hcl, -⟩ := h.synced c hlink
        obtain ⟨hrx, hhits⟩ := hharmless (by simp [current_of_up hlink, hcl])
        exact following_lose h _ hrx hhits hlose
      all_goals
        rename_i hlink
        obtain rfl := Option.some.inj hstep
        exact h.of_world fun c cl hup => absurd (hlink.symm.trans hup) (by simp)
  | take env =>
      simp only [McpDaemon.step] at hstep
      split at hstep
      · rename_i c req rest hlink houtbox
        obtain ⟨world, hworld, rfl⟩ := Option.map_eq_some_iff.mp hstep
        exact h.take hlink houtbox hworld
      · simp at hstep
  | daemon e =>
      simp only [McpDaemon.step] at hstep
      split_ifs at hstep with hfree
      obtain ⟨world, hworld, rfl⟩ := Option.map_eq_some_iff.mp hstep
      exact h.daemon hfree hharmless hworld

/-- When nothing is in flight, the two sides agree. -/
theorem Following.has_eq (h : w.Following) (hquiet : w.Quiet) (kind : BufferKind)
    (port : String) : w.mcp.has (kind, port) = w.registered kind port := by
  obtain ⟨hpending, hresumed⟩ := hquiet
  have hasked : w.mcp.asked = [] := by rw [McpServer.asked, hpending, List.map_nil]
  have hwill : w.mcp.willHave (kind, port) = w.mcp.has (kind, port) := by
    rw [McpServer.willHave, McpServer.unresumed, hresumed, List.drop_length]
    rfl
  by_cases hlink : ∃ c, w.link = .up c
  · obtain ⟨c, hlink⟩ := hlink
    obtain ⟨cl, hcl, hsynced⟩ := h.synced c hlink
    have hfifo := hsynced.fifo.symm.trans hasked
    rw [List.map_eq_nil_iff, List.append_eq_nil_iff, List.append_eq_nil_iff,
      List.map_eq_nil_iff, List.map_eq_nil_iff, Option.toList_eq_nil_iff] at hfifo
    obtain ⟨⟨hanswers, hidle⟩, -⟩ := hfifo
    have hfollows := hsynced.follows (kind, port)
    rw [hanswers, hidle, List.foldl_nil, hwill] at hfollows
    rw [registered, current_of_up hlink, hcl]
    exact hfollows.symm
  · have hapart : ∀ c, w.link ≠ .up c := fun c hup => hlink ⟨c, hup⟩
    rw [registered, current_of_apart hapart, ← hwill]
    exact (h.apart hapart).2 (kind, port)

private theorem readBuffer_eq_error {buffers : Table String (List Json)} {missing port : String}
    {clear : Bool} : (∃ message, (readBuffer buffers missing port clear).2 = .error message) ↔
      (buffers.lookup port).isSome = false := by
  unfold readBuffer
  cases buffers.lookup port with
  | none => simp
  | some buf => simp

private theorem Following.agrees (h : w.Following) (hquiet : w.Quiet) : w.Agrees where
  rxStream := h.has_eq hquiet .rxStream
  filterHits := h.has_eq hquiet .filterHits
  readRxStream port clear := by
    rw [← h.has_eq hquiet]
    exact readBuffer_eq_error
  readFilterHits port clear := by
    rw [← h.has_eq hquiet]
    exact readBuffer_eq_error

end McpDaemon

/-- Subscriptions on both sides. In a run of steps that harm nothing, the
server has a buffer exactly for the ports that the session of its connection has
registered, whenever no request is in flight. -/
theorem subscriptions_mirrored (showFloat : Rat → NumLit) {es : List McpDaemonEvent}
    {w : McpDaemon} (hrun : (mcpDaemon showFloat).run es = some w)
    (hharmless : (mcpDaemon showFloat).Along (fun w e _ => w.Harmless e)
      (mcpDaemon showFloat).init es) (hquiet : w.Quiet) : w.Agrees := by
  have hfollowing : w.Following :=
    (mcpDaemon showFloat).runFrom_invariant_along (P := McpDaemon.Following)
      (A := fun _ => True) (fun w e w' _ hharmless hw hstep => hw.step hharmless hstep)
      (fun _ _ => trivial) hharmless McpDaemon.following_init hrun
  exact hfollowing.agrees hquiet

/-- A call whose request takes `n` steps of the daemon. -/
def answered (tool : ToolCall) (n : ℕ) : List McpDaemonEvent :=
  [.call tool, .take ⟨.ok (), .successMsg ""⟩] ++
    List.replicate n (.daemon (.client 0 .dispatch)) ++ [.receive, .resume]

/-- A port is opened, subscribed and filtered. -/
def subscribed : List McpDaemonEvent :=
  [.dial, .connected 0] ++ answered (.openPort "COM3" (.posInt 9600) "8" "1" "none") 2 ++
    answered (.subscribeRx "COM3") 3 ++ answered (.addFilterRx "COM3" ["ok"]) 3

theorem subscriptions_mirrored_subscribed :
    ∃ w, (mcpDaemon fun _ => .ofNat 0).run subscribed = some w ∧
      w.registered .rxStream "COM3" = true ∧ w.registered .filterHits "COM3" = true ∧
      w.Agrees := by
  have hruns : ((mcpDaemon fun _ => .ofNat 0).run subscribed).any (fun w =>
      w.registered .rxStream "COM3" && w.registered .filterHits "COM3" &&
        decide w.Quiet) = true := by
    decide +kernel
  obtain ⟨w, hrun, htest⟩ := (Option.any_eq_true _ _).mp hruns
  obtain ⟨hregistered, hquiet⟩ := (Bool.and_eq_true _ _).mp htest
  obtain ⟨hrx, hfilter⟩ := (Bool.and_eq_true _ _).mp hregistered
  refine ⟨w, hrun, hrx, hfilter, ?_⟩
  exact subscriptions_mirrored _ hrun (by decide +kernel) (of_decide_eq_true hquiet)

/-- A subscribed port is closed. The session forgets the port, and the server
keeps its buffer. -/
theorem subscriptions_not_always_mirrored :
    ¬ ∀ (es : List McpDaemonEvent) (w : McpDaemon),
      (mcpDaemon fun _ => .ofNat 0).run es = some w → w.Quiet → w.Agrees := by
  intro hmirrored
  have hruns : ((mcpDaemon fun _ => .ofNat 0).run
      ([.dial, .connected 0] ++ answered (.openPort "COM3" (.posInt 9600) "8" "1" "none") 2 ++
        answered (.subscribeRx "COM3") 3 ++ answered (.closePort "COM3") 3)).any (fun w =>
      (w.mcp.client.rxStreamBuffers.lookup "COM3").isSome && !w.registered .rxStream "COM3" &&
        decide w.Quiet) = true := by
    decide +kernel
  obtain ⟨w, hrun, htest⟩ := (Option.any_eq_true _ _).mp hruns
  obtain ⟨hdiffer, hquiet⟩ := (Bool.and_eq_true _ _).mp htest
  obtain ⟨hsome, hnot⟩ := (Bool.and_eq_true _ _).mp hdiffer
  have hsame := (hmirrored _ w hrun (of_decide_eq_true hquiet)).rxStream "COM3"
  rw [hsome] at hsame
  simp [← hsame] at hnot

end Commmon

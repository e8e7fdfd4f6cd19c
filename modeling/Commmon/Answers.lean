/-
# What a response tells

A response with its request says how a registration has changed. The server's
tools follow it when they go on, and the daemon has followed it when the response
is written: each command leads its session to what its response will tell, step
by step, if it neither forgets a registered port nor fails after it has
registered one.
-/

import Commmon.McpDaemon

set_option autoImplicit false

namespace Commmon

section Server

variable {key : BufferKind × String}

private theorem Request.target_of_port {req : Request} {port : String}
    (hport : req.args.strArg "port" = some port) : req.target =
      if req.cmd ∈ ["subscribe_rx", "unsubscribe_rx"] then some (.rxStream, port)
      else if req.cmd ∈ ["filter_rx", "add_filter_rx", "unfilter_rx"] then
        some (.filterHits, port)
      else none := by
  rw [target, hport, Option.bind_some]

private theorem noted_of_target {req : Request} {ok b : Bool} (h : req.target = some key) :
    noted key b (req, ok) = if ok then req.registers else b := by
  simp [noted, h]

private theorem noted_of_ne {req : Request} {ok b : Bool} (h : req.target ≠ some key) :
    noted key b (req, ok) = b := by
  simp [noted, h]

@[simp]
theorem noted_refused (key : BufferKind × String) (b : Bool) (req : Request) :
    noted key b (req, false) = b := by
  simp [noted]

private theorem foldl_noted_refused {answers : List (Request × Bool)} {b : Bool}
    (h : ∀ x ∈ answers, x.2 = false) : answers.foldl (noted key) b = b := by
  induction answers with
  | nil => rfl
  | cons x answers ih =>
      have hx : x = (x.1, false) := Prod.ext rfl (h x List.mem_cons_self)
      rw [List.foldl_cons, hx, noted_refused]
      exact ih fun y hy => h y (List.mem_cons_of_mem x hy)

namespace ToolCall

private theorem target_request {tool : ToolCall} (h : tool.Listed) :
    tool.request.target = tool.target := by
  cases tool with
  | forward cmd args =>
      have hcmd : cmd ∉ ["subscribe_rx", "unsubscribe_rx"] ∧
          cmd ∉ ["filter_rx", "add_filter_rx", "unfilter_rx"] := by
        have hall : ∀ c ∈ forwardedCommands, c ∉ ["subscribe_rx", "unsubscribe_rx"] ∧
            c ∉ ["filter_rx", "add_filter_rx", "unfilter_rx"] := by decide
        exact hall cmd h
      cases hport : args.strArg "port" with
      | none =>
          rw [request, Request.target, hport]
          rfl
      | some port =>
          rw [request, Request.target_of_port hport, if_neg hcmd.1, if_neg hcmd.2]
          rfl
  | openPort port baudRate dataBits stopBits parity => rfl
  | closePort port | subscribeRx port | unsubscribeRx port | unfilterRx port => rfl
  | filterRx port keywords | addFilterRx port keywords => rfl

private theorem registers_request {tool : ToolCall} (h : tool.target = some key) :
    tool.request.registers = tool.makes.isSome := by
  cases tool with
  | openPort | closePort | forward => simp [target] at h
  | subscribeRx | unsubscribeRx | filterRx | addFilterRx | unfilterRx => rfl

variable {tool : ToolCall} {c : DaemonClient} {resp : Json} {kind : BufferKind} {port : String}

private theorem bufferOf_resume_drop (h : tool.target = some (kind, port))
    (hmakes : tool.makes = none)
    (hok : succeeded resp = true) : (tool.resume c resp).bufferOf kind port = none := by
  unfold resume
  rw [if_pos hok]
  cases tool with
  | unsubscribeRx p | unfilterRx p =>
      obtain ⟨rfl, rfl⟩ : _ ∧ _ := by simpa [target] using h
      simp [DaemonClient.bufferOf]
  | subscribeRx | filterRx | addFilterRx => simp [makes] at hmakes
  | openPort | closePort | forward => simp [target] at h

/-- What a call does to a buffer is what its response tells. -/
theorem isSome_bufferOf_resume (h : tool.Listed) :
    ((tool.resume c resp).bufferOf key.1 key.2).isSome =
      noted key (c.bufferOf key.1 key.2).isSome (tool.request, succeeded resp) := by
  have htarget := target_request h
  by_cases hkey : tool.target = some key
  · rw [noted_of_target (htarget.trans hkey), registers_request hkey]
    by_cases hok : succeeded resp = true
    · rw [if_pos hok]
      cases hmakes : tool.makes with
      | none =>
          rw [bufferOf_resume_drop hkey hmakes hok]
          rfl
      | some made =>
          have hsame : tool.makes = some key := by
            cases tool <;> simp_all [makes, target]
          rw [bufferOf_resume hsame hok]
          rfl
    · unfold resume
      rw [if_neg hok, if_neg hok]
  · rw [noted_of_ne (by rwa [htarget]), bufferOf_resume_of_ne hkey]

end ToolCall

namespace DaemonClient

private theorem isSome_lookup_pushTo (buffers : Table String (List Json)) (data : Json)
    (port : String) :
    ((pushTo buffers data).lookup port).isSome = (buffers.lookup port).isSome := by
  unfold pushTo
  split
  · split
    · rename_i q hq buf hbuf
      split_ifs
      · rw [Table.lookup_insert]
        split_ifs with heq
        · subst heq
          simp only [hbuf, Option.isSome_some]
        · rfl
      · rfl
    · rfl
  · rfl

/-- No message makes a buffer or drops one. -/
theorem isSome_bufferOf_handle (c : DaemonClient) (msg : Json) (kind : BufferKind)
    (port : String) :
    ((c.handle msg).1.bufferOf kind port).isSome = (c.bufferOf kind port).isSome := by
  have hnotify : ∀ notify data,
      ((c.onNotify notify data).bufferOf kind port).isSome = (c.bufferOf kind port).isSome := by
    intro notify data
    unfold onNotify
    split
    · split_ifs
      · cases kind with
        | rxStream => exact isSome_lookup_pushTo _ _ _
        | filterHits => rfl
      · rfl
    · split_ifs
      · cases kind with
        | rxStream => rfl
        | filterHits => exact isSome_lookup_pushTo _ _ _
      · rfl
    · rfl
  unfold handle
  split
  · rfl
  · split
    · exact hnotify _ _
    · split <;> cases kind <;> rfl

private theorem isSome_bufferOf_onClose (c : DaemonClient) (kind : BufferKind) (port : String) :
    (c.onClose.1.bufferOf kind port).isSome = (c.bufferOf kind port).isSome := by
  cases kind <;> rfl

private theorem isSome_readBuffer (buffers : Table String (List Json)) (missing p port : String)
    (clear : Bool) :
    ((readBuffer buffers missing p clear).1.lookup port).isSome = (buffers.lookup port).isSome := by
  unfold readBuffer
  split
  · rfl
  · rename_i buf hbuf
    cases clear with
    | false => rfl
    | true =>
        rw [if_pos rfl, Table.lookup_insert]
        split_ifs with heq
        · rw [heq, hbuf]
          rfl
        · rfl

end DaemonClient

end Server

namespace ClientSession

variable {s s' : ClientSession} {key : BufferKind × String}

private theorem SameRegistrations.registered_eq (h : SameRegistrations s s') :
    s'.registered key.1 key.2 = s.registered key.1 key.2 := by
  obtain ⟨kind, p⟩ := key
  cases kind with
  | rxStream => simp only [registered, h.rxSubscriptions]
  | filterHits => simp only [registered, h.filterSubscriptions]

private theorem registered_subscribed (s : ClientSession) (port : String) :
    ClientSession.registered { s with rxSubscriptions := insert port s.rxSubscriptions }
      key.1 key.2 =
      if some (.rxStream, port) = some key then true else s.registered key.1 key.2 := by
  obtain ⟨kind, p⟩ := key
  cases kind with
  | rxStream =>
      by_cases hp : port = p
      · simp [registered, hp]
      · simp [registered, hp, Ne.symm hp]
  | filterHits => simp [registered]

private theorem registered_unsubscribed (s : ClientSession) (port : String) :
    ClientSession.registered { s with rxSubscriptions := s.rxSubscriptions.erase port }
      key.1 key.2 =
      if some (.rxStream, port) = some key then false else s.registered key.1 key.2 := by
  obtain ⟨kind, p⟩ := key
  cases kind with
  | rxStream =>
      by_cases hp : port = p
      · simp [registered, hp]
      · simp [registered, hp, Ne.symm hp]
  | filterHits => simp [registered]

private theorem registered_filtered (s : ClientSession) (port : String) (keywords : List String) :
    ClientSession.registered
      { s with filterSubscriptions := s.filterSubscriptions.insert port keywords } key.1 key.2 =
      if some (.filterHits, port) = some key then true else s.registered key.1 key.2 := by
  obtain ⟨kind, p⟩ := key
  cases kind with
  | rxStream => simp [registered]
  | filterHits =>
      by_cases hp : port = p
      · simp [registered, hp]
      · simp [registered, hp, Ne.symm hp]

private theorem registered_unfiltered (s : ClientSession) (port : String) :
    ClientSession.registered
      { s with filterSubscriptions := s.filterSubscriptions.erase port } key.1 key.2 =
      if some (.filterHits, port) = some key then false else s.registered key.1 key.2 := by
  obtain ⟨kind, p⟩ := key
  cases kind with
  | rxStream => simp [registered]
  | filterHits =>
      by_cases hp : port = p
      · simp [registered, hp]
      · simp [registered, hp, Ne.symm hp]

/-- Forgetting a port that is not registered. -/
theorem registered_onPortClosed {port : String} (hrx : port ∉ s.rxSubscriptions)
    (hfilter : s.filterSubscriptions.lookup port = none) :
    (s.onPortClosed port).registered key.1 key.2 = s.registered key.1 key.2 := by
  obtain ⟨kind, p⟩ := key
  cases kind with
  | rxStream =>
      by_cases hp : p = port
      · subst hp
        simp [registered, hrx]
      · simp [registered, hp]
  | filterHits =>
      by_cases hp : p = port
      · subst hp
        simp [registered, hfilter]
      · simp [registered, hp]

end ClientSession

/-- The rest of a command leads to a registration that the response tells of.
`b` is the registration before the command, and `now` what it is now. -/
def Pc.Leads (key : BufferKind × String) (b : Bool) (req : Request) (now : Bool) : Pc → Prop
  | .reply resp => now = noted key b (req, resp.ok)
  | .openEnsure _ _ | .onPortClosed _ _ | .readEnsure _ _ | .drain _ _ =>
      now = b ∧ req.target = none
  | .subscribeTake port =>
      now = b ∧ req.target = some (.rxStream, port) ∧ req.registers = true
  | .filterTake port _ _ =>
      now = b ∧ req.target = some (.filterHits, port) ∧ req.registers = true
  | .send cmd _ =>
      now = noted key b (req, true) ∧
        (now = b ∨ cmd.registers = req.target ∧ req.registers = true)
  | .tell _ next => next.Leads key b req now

section Commands

variable {key : BufferKind × String} {m m' : SerialManager} {s s' : ClientSession}
  {req : Request} {pc : Pc} {b : Bool}

private theorem Dispatch.closeSends_leads (hnow : s.registered key.1 key.2 = b)
    (htarget : req.target = none) (port : String) (resp : Response) :
    (closeSends s port resp).Leads key b req (s.registered key.1 key.2) := by
  unfold closeSends
  split_ifs <;> exact ⟨hnow, htarget⟩

theorem Dispatch.Begins.leads (h : Begins m s req m' s' pc)
    (hnow : s.registered key.1 key.2 = b) :
    pc.Leads key b req (s'.registered key.1 key.2) := by
  cases h with
  | answered resp hresp =>
      by_cases hcmd : req.cmd ∈ sessionCommands
      · rw [Pc.Leads, (hresp hcmd).1, noted_refused]
        exact hnow
      · have htarget : req.target ≠ some key := by
          cases hport : req.args.strArg "port" with
          | none => simp [Request.target, hport]
          | some port =>
              rw [Request.target_of_port hport, if_neg, if_neg]
              · simp
              · exact fun hmem => hcmd (by simp [sessionCommands] at hmem ⊢; tauto)
              · exact fun hmem => hcmd (by simp [sessionCommands] at hmem ⊢; tauto)
        rw [Pc.Leads, noted_of_ne htarget]
        exact hnow
  | opened port resp hcmd hport hclosed hok =>
      exact ⟨hnow, by simp [Request.target_of_port hport, hcmd]⟩
  | closed port op resp hcmd hport hopen hok =>
      exact closeSends_leads hnow (by simp [Request.target_of_port hport, hcmd]) port resp
  | subscribing port hcmd hport hnew =>
      exact ⟨hnow, by simp [Request.target_of_port hport, hcmd], by simp [Request.registers, hcmd]⟩
  | unsubscribed port success hcmd hport hmem =>
      have htarget : req.target = some (.rxStream, port) := by
        simp [Request.target_of_port hport, hcmd]
      have hregisters : req.registers = false := by simp [Request.registers, hcmd]
      rw [Pc.Leads, Pc.Leads, ClientSession.registered_unsubscribed, hnow]
      simp [noted, htarget, hregisters]
  | filtering port keywords success hcmd hport hkeywords =>
      refine ⟨hnow, ?_, ?_⟩
      · obtain hcmd | hcmd := hcmd <;> simp [Request.target_of_port hport, hcmd]
      · obtain hcmd | hcmd := hcmd <;> simp [Request.registers, hcmd]
  | extended port existing keywords success hcmd hport hkeywords hexisting =>
      have htarget : req.target = some (.filterHits, port) := by
        simp [Request.target_of_port hport, hcmd]
      have hregisters : req.registers = true := by simp [Request.registers, hcmd]
      have hmem : s.registered .filterHits port = true := by
        simp [ClientSession.registered, hexisting]
      rw [Pc.Leads, ClientSession.registered_filtered, hnow]
      by_cases hkey : some (BufferKind.filterHits, port) = some key
      · obtain rfl := Option.some.inj hkey
        rw [if_pos rfl, noted_of_target htarget, if_pos rfl, hregisters, ← hnow, hmem]
        exact ⟨rfl, Or.inl rfl⟩
      · rw [if_neg hkey, noted_of_ne (by rwa [htarget])]
        exact ⟨rfl, Or.inl rfl⟩
  | unfiltered port success existing hcmd hport hexisting =>
      have htarget : req.target = some (.filterHits, port) := by
        simp [Request.target_of_port hport, hcmd]
      have hregisters : req.registers = false := by simp [Request.registers, hcmd]
      rw [Pc.Leads, Pc.Leads, ClientSession.registered_unfiltered, hnow]
      simp [noted, htarget, hregisters]
  | reading port hcmd hport => exact ⟨hnow, by simp [Request.target_of_port hport, hcmd]⟩

/-- A step of a command that harms nothing: the command goes on and leads where
it led, or it writes the response that tells of the registration. -/
theorem Client.Advances.leads {cl cl' : Client} (h : Advances m cl req pc cl')
    (hleads : pc.Leads key b req (cl.session.registered key.1 key.2))
    (hforgot : ∀ port resp, pc = .onPortClosed port resp →
      port ∉ cl.session.rxSubscriptions ∧ cl.session.filterSubscriptions.lookup port = none)
    (hfailed : ∀ cmd success, pc = .send cmd success → cl.task.isEnded = true →
      cmd.registers = some key → b = true) :
    (∃ pc', cl'.dispatch = some (req, pc') ∧
      pc'.Leads key b req (cl'.session.registered key.1 key.2) ∧ cl'.written = cl.written) ∨
    (∃ resp, cl'.dispatch = none ∧ cl'.written = cl.written ++ [.response req resp] ∧
      cl'.session.registered key.1 key.2 = noted key b (req, resp.ok)) := by
  have hreply : ∀ {now : Bool} (resp : Response), now = b ∧ req.target = none →
      (Pc.reply resp).Leads key b req now := by
    rintro now resp ⟨rfl, htarget⟩
    rw [Pc.Leads, noted_of_ne (by simp [htarget])]
  cases h with
  | ensured port resp =>
      rw [← (cl.session.ensureSubscribed_sameRegistrations m port).registered_eq] at hleads
      exact Or.inl ⟨_, rfl, hreply resp hleads, rfl⟩
  | forgot port resp =>
      obtain ⟨hrx, hfilter⟩ := hforgot port resp rfl
      rw [← ClientSession.registered_onPortClosed hrx hfilter] at hleads
      exact Or.inl ⟨_, rfl, hreply resp hleads, rfl⟩
  | missed port _ msg hpc hnone =>
      have hnow : cl.session.registered key.1 key.2 = b := by
        obtain rfl | ⟨keywords, success, rfl⟩ := hpc <;> exact hleads.1
      refine Or.inl ⟨_, rfl, ?_, rfl⟩
      rw [Pc.Leads, Response.ok_ofError, noted_refused]
      exact hnow
  | subscribed port success op hop =>
      obtain ⟨hnow, htarget, hregisters⟩ := hleads
      refine Or.inl ⟨_, rfl, ⟨?_, Or.inr ⟨htarget.symm, hregisters⟩⟩, rfl⟩
      rw [ClientSession.registered_subscribed, hnow]
      simp [noted, htarget, hregisters]
  | filtered port keywords success op hop =>
      obtain ⟨hnow, htarget, hregisters⟩ := hleads
      refine Or.inl ⟨_, rfl, ⟨?_, Or.inr ⟨htarget.symm, hregisters⟩⟩, rfl⟩
      rw [ClientSession.registered_filtered, hnow]
      simp [noted, htarget, hregisters]
  | readEnsured port clear =>
      rw [← (cl.session.ensureSubscribed_sameRegistrations m port).registered_eq] at hleads
      exact Or.inl ⟨_, rfl, hleads, rfl⟩
  | drained port clear s hround hpc =>
      have hsame := cl.session.drainOne_sameRegistrations m port
      rw [hround] at hsame
      rw [← hsame.registered_eq] at hleads
      exact Or.inl ⟨_, hpc, hleads, rfl⟩
  | answered port clear s hround =>
      have hsame := cl.session.drainOne_sameRegistrations m port
      rw [hround] at hsame
      rw [← hsame.registered_eq, ← (s.answerRead_sameRegistrations port clear).registered_eq]
        at hleads
      exact Or.inl ⟨_, rfl, hreply _ hleads, rfl⟩
  | failed cmd success hended =>
      obtain ⟨hnow, hkept⟩ := hleads
      refine Or.inl ⟨_, rfl, ?_, rfl⟩
      rw [Pc.Leads, show deliveryFailed.ok = false from rfl, noted_refused]
      obtain hsame | ⟨hregisters, htrue⟩ := hkept
      · exact hsame
      · by_cases htarget : req.target = some key
        · rw [hfailed cmd success rfl hended (hregisters.trans htarget), hnow,
            noted_of_target htarget, if_pos rfl, htrue]
        · rw [hnow, noted_of_ne htarget]
  | sent cmd success hlive => exact Or.inl ⟨_, rfl, hleads.1, rfl⟩
  | ignored cmd next hended => exact Or.inl ⟨_, rfl, hleads, rfl⟩
  | told cmd next hlive => exact Or.inl ⟨_, rfl, hleads, rfl⟩
  | wrote resp => exact Or.inr ⟨resp, rfl, rfl, hleads⟩

end Commands

namespace McpServer

variable {s t : McpServer} {key : BufferKind × String}

/-- The requests that wait for a response. -/
def asked (s : McpServer) : List (Option Request) :=
  s.client.pending.map fun i => s.calls[i]?.map ToolCall.request

/-- Every promise belongs to a call of one of the tools. -/
structure Sound (s : McpServer) : Prop where
  listed : ∀ tool ∈ s.calls, tool.Listed
  pending_lt : ∀ i ∈ s.client.pending, i < s.calls.length
  settled_lt : ∀ x ∈ s.settled, x.1 < s.calls.length
  resumed_le : s.resumed ≤ s.settled.length

private theorem getElem?_append_calls {i : ℕ} (hi : i < s.calls.length) (tool : ToolCall) :
    (s.calls ++ [tool])[i]? = s.calls[i]? := List.getElem?_append_left hi

theorem step_call (hs : s.Sound) {tool : ToolCall} (hlisted : tool.Listed)
    (hstep : s.step (.call tool) = some t) :
    t.Sound ∧ t.asked = s.asked ++ [some tool.request] ∧
      ∀ key, t.willHave key = s.willHave key := by
  obtain rfl := Option.some.inj hstep
  refine ⟨⟨?_, ?_, ?_, hs.resumed_le⟩, ?_, fun key => ?_⟩
  · intro other hmem
    obtain hmem | rfl : other ∈ s.calls ∨ other = tool := by simpa using hmem
    · exact hs.listed other hmem
    · exact hlisted
  · intro i hmem
    obtain hmem | rfl : i ∈ s.client.pending ∨ i = s.calls.length := by
      simpa [DaemonClient.push] using hmem
    · simpa using Nat.lt_succ_of_lt (hs.pending_lt i hmem)
    · simp
  · intro x hmem
    simpa using Nat.lt_succ_of_lt (hs.settled_lt x hmem)
  · simp only [asked, DaemonClient.push, List.map_append, List.map_cons, List.map_nil]
    congr 1
    · apply List.map_congr_left
      intro i hi
      rw [getElem?_append_calls (hs.pending_lt i hi)]
    · simp
  · have hunresumed : ({ s with
        client := s.client.push s.calls.length
        calls := s.calls ++ [tool] } : McpServer).unresumed = s.unresumed := by
      apply List.filterMap_congr
      intro x hx
      rw [getElem?_append_calls (hs.settled_lt x (List.mem_of_mem_drop hx))]
    rw [willHave, hunresumed, willHave]
    obtain ⟨kind, port⟩ := key
    cases kind <;> rfl

/-- A change of the client that neither makes nor drops a buffer. -/
theorem Sound.of_client (hs : s.Sound) {c : DaemonClient}
    (hpending : c.pending = s.client.pending)
    (hhas : ∀ key : BufferKind × String, (c.bufferOf key.1 key.2).isSome = s.has key) :
    Sound { s with client := c } ∧ asked { s with client := c } = s.asked ∧
      ∀ key, willHave { s with client := c } key = s.willHave key := by
  refine ⟨⟨hs.listed, ?_, hs.settled_lt, hs.resumed_le⟩, ?_, fun key => ?_⟩
  · rw [hpending]
    exact hs.pending_lt
  · rw [asked, asked, hpending]
  · rw [willHave, willHave, has, hhas]
    rfl

/-- A line that is no response. -/
theorem receive_push {c : DaemonClient} (hs : s.Sound) {msg : Json}
    (hhandle : s.client.handle msg = (c, none)) (hpending : c.pending = s.client.pending) :
    (s.receive msg).Sound ∧ (s.receive msg).asked = s.asked ∧
      ∀ key, (s.receive msg).willHave key = s.willHave key := by
  have hreceive : s.receive msg = { s with client := c } := by
    simp [receive, hhandle]
  rw [hreceive]
  apply hs.of_client hpending
  intro key
  have hhas := s.client.isSome_bufferOf_handle msg key.1 key.2
  rwa [hhandle] at hhas

/-- A response goes to the request that waits first. -/
theorem receive_response (hs : s.Sound) {msg : Json} {req : Request} {rest : List (Option Request)}
    (hasked : s.asked = some req :: rest)
    (hhandle : s.client.handle msg = match s.client.pending with
      | i :: rest => ({ s.client with pending := rest }, some (i, msg))
      | [] => (s.client, none)) :
    (s.receive msg).Sound ∧ (s.receive msg).asked = rest ∧
      ∀ key, (s.receive msg).willHave key =
        noted key (s.willHave key) (req, ToolCall.succeeded msg) := by
  obtain ⟨i, is, hpending, hfirst, hrest⟩ := List.map_eq_cons_iff.mp hasked
  obtain ⟨tool, htool, hreq⟩ := Option.map_eq_some_iff.mp hfirst
  rw [hpending] at hhandle
  have hreceive : s.receive msg = { s with
      client := { s.client with pending := is }
      settled := s.settled ++ [(i, msg)] } := by
    simp [receive, hhandle]
  have hhas : ∀ key, (s.receive msg).has key = s.has key := fun key =>
    s.client.isSome_bufferOf_handle msg key.1 key.2
  have hunresumed : (s.receive msg).unresumed =
      s.unresumed ++ [(req, ToolCall.succeeded msg)] := by
    rw [hreceive, unresumed, List.drop_append_of_le_length hs.resumed_le, List.filterMap_append]
    simp [unresumed, htool, hreq]
  refine ⟨?_, ?_, fun key => ?_⟩
  · rw [hreceive]
    refine ⟨hs.listed, fun j hj => hs.pending_lt j ?_, ?_, ?_⟩
    · rw [hpending]
      exact List.mem_cons_of_mem i hj
    · intro x hx
      obtain hx | rfl : x ∈ s.settled ∨ x = (i, msg) := by simpa using hx
      · exact hs.settled_lt x hx
      · exact hs.pending_lt i (by rw [hpending]; exact List.mem_cons_self)
    · simpa using Nat.le_succ_of_le hs.resumed_le
  · rw [hreceive, asked]
    exact hrest
  · rw [willHave, hhas, hunresumed, List.foldl_append]
    rfl

theorem readRxStream_spec (hs : s.Sound) (port : String) (clear : Bool) :
    Sound { s with client := (s.client.readRxStream port clear).1 } ∧
      asked { s with client := (s.client.readRxStream port clear).1 } = s.asked ∧
      ∀ key, willHave { s with client := (s.client.readRxStream port clear).1 } key =
        s.willHave key := by
  refine hs.of_client rfl fun key => ?_
  obtain ⟨kind, p⟩ := key
  cases kind with
  | rxStream => exact DaemonClient.isSome_readBuffer _ _ _ _ _
  | filterHits => rfl

theorem readFilterHits_spec (hs : s.Sound) (port : String) (clear : Bool) :
    Sound { s with client := (s.client.readFilterHits port clear).1 } ∧
      asked { s with client := (s.client.readFilterHits port clear).1 } = s.asked ∧
      ∀ key, willHave { s with client := (s.client.readFilterHits port clear).1 } key =
        s.willHave key := by
  refine hs.of_client rfl fun key => ?_
  obtain ⟨kind, p⟩ := key
  cases kind with
  | rxStream => rfl
  | filterHits => exact DaemonClient.isSome_readBuffer _ _ _ _ _

theorem step_resume (hs : s.Sound) (hstep : s.step .resume = some t) :
    t.Sound ∧ t.asked = s.asked ∧ ∀ key, t.willHave key = s.willHave key := by
  obtain ⟨⟨tool, resp⟩, hturn, rfl⟩ := Option.map_eq_some_iff.mp hstep
  unfold turn at hturn
  split at hturn
  · rename_i i resp' hsettled
    obtain ⟨tool', hcall, heq⟩ := Option.map_eq_some_iff.mp hturn
    obtain ⟨rfl, rfl⟩ := Prod.mk.inj heq
    have hlisted := hs.listed tool' (List.mem_of_getElem? hcall)
    obtain ⟨hlt, hget⟩ := List.getElem?_eq_some_iff.mp hsettled
    have hpending := tool'.pending_resume s.client resp'
    have hunresumed : s.unresumed = (tool'.request, ToolCall.succeeded resp') ::
        ({ s with
          client := tool'.resume s.client resp'
          resumed := s.resumed + 1 } : McpServer).unresumed := by
      rw [unresumed, List.drop_eq_getElem_cons hlt, hget]
      simp [unresumed, hcall]
    refine ⟨⟨hs.listed, by rw [hpending]; exact hs.pending_lt, hs.settled_lt, hlt⟩, ?_,
      fun key => ?_⟩
    · rw [asked, asked, hpending]
    · rw [willHave, willHave, hunresumed, List.foldl_cons, has,
        ToolCall.isSome_bufferOf_resume hlisted]
      rfl
  · simp at hturn

/-- Closing leaves the buffers, and refuses what waits. -/
theorem close_spec (hs : s.Sound) (hresumed : s.resumed = s.settled.length) :
    s.close.Sound ∧ s.close.asked = [] ∧ ∀ key, s.close.willHave key = s.has key := by
  have hhas : ∀ key, s.close.has key = s.has key := fun key =>
    s.client.isSome_bufferOf_onClose key.1 key.2
  have hsettled : s.close.settled =
      s.settled ++ s.client.pending.map fun i => (i, DaemonClient.connectionLost) := rfl
  refine ⟨⟨hs.listed, fun i hi => absurd hi List.not_mem_nil, ?_, ?_⟩, rfl, fun key => ?_⟩
  · intro x hx
    rw [hsettled, List.mem_append] at hx
    obtain hx | hx := hx
    · exact hs.settled_lt x hx
    · obtain ⟨i, hi, rfl⟩ := List.mem_map.mp hx
      exact hs.pending_lt i hi
  · rw [hsettled, List.length_append]
    exact Nat.le_add_right_of_le hs.resumed_le
  · have hrefused : ∀ x ∈ s.close.unresumed, x.2 = false := by
      intro x hx
      obtain ⟨y, hy, hmap⟩ := List.mem_filterMap.mp hx
      rw [hsettled, show s.close.resumed = s.settled.length from hresumed, List.drop_left] at hy
      obtain ⟨i, -, rfl⟩ := List.mem_map.mp hy
      obtain ⟨tool, -, rfl⟩ := Option.map_eq_some_iff.mp hmap
      rfl
    rw [willHave, hhas, foldl_noted_refused hrefused]

end McpServer

end Commmon

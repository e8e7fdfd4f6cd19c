/-
# A failed command in a run

While a command is under way, other connections, the tasks, the timers and the ports
go on. What is asked of them here is only that no other call on the manager takes a
step, since it may open and close ports and start and stop logs itself, and that the
connection reads no further request. Then a command that fails has left the session
and both tables as they were, unless it is one that acts first.
-/

import Commmon.CallOwners
import Commmon.FailedCommands

set_option autoImplicit false

namespace Commmon

namespace LogWorld

variable {w w' : LogWorld} {e : LogEvent}

/-- Only calls change the tables. -/
theorem tables_of_step (hstep : w.step e = some w') (he : ∀ i env, e ≠ .advance i env) :
    w'.serial.ports = w.serial.ports ∧ w'.logs.table = w.logs.table := by
  cases step_steps hstep with
  | called => exact ⟨rfl, rfl⟩
  | timedOut i port log closing hpc =>
      unfold endStop
      split <;> exact ⟨rfl, rfl⟩
  | moved id e task' hmove => exact ⟨rfl, rfl⟩
  | matched id ok entry kw lines l' hpc hmatched hl' =>
      subst hl'
      exact ⟨rfl, rfl⟩
  | expired t l' hexpire =>
      obtain ⟨-, rfl⟩ := Logs.expire_eq_some hexpire
      exact ⟨rfl, rfl⟩
  | delivered k entry m' hdeliver =>
      obtain rfl := SerialManager.deliver_eq_some hdeliver
      exact ⟨rfl, rfl⟩
  | readEnded k m' hend =>
      refine ⟨?_, rfl⟩
      unfold SerialManager.endReadTask at hend
      split_ifs at hend
      exact Option.some.inj hend ▸ rfl
  | answered | opened | subscribed | registered | updated | stopBegun | unlogged | stopEnded
  | portClosed | drained | portsDrained => exact absurd rfl (he _ _)

end LogWorld

namespace DaemonState

variable {w w' : DaemonState} {e : HostEvent} {i : CallId} {pc : CallPc}

/-- Only the calls on the manager change the tables. -/
theorem tables_of_step (hstep : w.step e = some w') (he : ∀ j env, e ≠ .serial (.advance j env)) :
    w'.serial.serial.ports = w.serial.serial.ports ∧
      w'.serial.logs.table = w.serial.logs.table := by
  obtain hsame | ⟨le, rfl, hs⟩ | ⟨j, cmd, hs⟩ := step_serial hstep
  · rw [hsame]
    exact ⟨rfl, rfl⟩
  · exact LogWorld.tables_of_step hs fun j env heq => he j env (by rw [heq])
  · exact LogWorld.tables_of_step hs (by simp)

/-- A call under way only takes its own steps. -/
theorem calls_of_step (hstep : w.step e = some w') (hpc : w.serial.calls i = some pc)
    (he : e.caller ≠ some (.manager, i)) : w'.serial.calls i = some pc := by
  have hnew : ∀ {v : LogWorld} {j cmd}, w.serial.step (.call j cmd) = some v →
      LogEvent.actor (.call j cmd) ≠ some i := by
    intro v j cmd hs hactor
    obtain rfl : j = i := Option.some.inj hactor
    simp [LogWorld.step, hpc] at hs
  obtain hsame | ⟨le, rfl, hs⟩ | ⟨j, cmd, hs⟩ := step_serial hstep
  · rw [hsame, hpc]
  · rw [← hpc]
    apply LogWorld.calls_of_step hs
    cases le with
    | call j cmd => exact hnew hs
    | advance j env | timeOut j => simpa [HostEvent.caller, LogEvent.actor] using he
    | _ => simp [LogEvent.actor]
  · rw [← hpc]
    exact LogWorld.calls_of_step hs (hnew hs)

/-- A free step is a call's only if it closes the ports. -/
theorem caller_eq_none_of_isFree (hfree : w.isFree e = true)
    (hadvance : ∀ i env, e ≠ .serial (.advance i env)) : e.caller = none := by
  unfold isFree at hfree
  replace hfree := (Bool.and_eq_true_iff.mp hfree).2
  split at hfree
  · exact absurd rfl (hadvance _ _)
  · simpa using hfree

/-- What is done on the manager. -/
theorem serial_of_step {le : LogEvent} (hstep : w.step (.serial le) = some w') :
    w.serial.step le = some w'.serial := by
  have hlive := live_of_step hstep
  simp only [live] at hlive
  split_ifs at hlive
  obtain ⟨v, hv, rfl⟩ := Option.map_eq_some_iff.mp hlive
  exact hv

end DaemonState

namespace Handler

variable {x x' : Handler} {m m' : SerialManager} {notices : Broadcast.Channel Notification}

/-- The tasks leave the session and the command to the request loop. -/
theorem task_keeps {e : HandlerEvent} (hinbound : ∀ i, e ≠ .inbound i)
    (hproceed : ∀ ok, e ≠ .proceed ok) (h : x.step m notices e = some (m', x')) :
    x'.client.session = x.client.session ∧ x'.client.dispatch = x.client.dispatch := by
  cases e with
  | inbound i => exact absurd rfl (hinbound i)
  | proceed ok => exact absurd rfl (hproceed ok)
  | stream order writeOk =>
      obtain ⟨y, hy, heq⟩ := Option.map_eq_some_iff.mp h
      obtain ⟨rfl, rfl⟩ := Prod.mk.inj heq
      unfold stream at hy
      split at hy
      · obtain rfl := Option.some.inj hy
        exact ⟨rfl, rfl⟩
      · obtain ⟨r, hr, rfl⟩ := Option.map_eq_some_iff.mp hy
        obtain ⟨q, -, rfl⟩ := Option.map_eq_some_iff.mp hr
        exact ⟨rfl, rfl⟩
  | recvNotice | writeNotice ok =>
      obtain ⟨y, -, heq⟩ := Option.map_eq_some_iff.mp h
      obtain ⟨rfl, rfl⟩ := Prod.mk.inj heq
      exact ⟨rfl, rfl⟩

/-- No command is under way when a line is read that is no request. -/
theorem receive_idle {i : Inbound} (hi : ∀ req env, i ≠ .request req env)
    (h : x.receive m i = some (m', x')) : x'.client.dispatch = none := by
  unfold receive at h
  split at h
  · rename_i hserving hidle
    cases i with
    | request req env => exact absurd rfl (hi req env)
    | blank | malformed reason | notUtf8 | readError | endOfFile =>
        obtain ⟨rfl, rfl⟩ := Prod.mk.inj (Option.some.inj h)
        first | exact hidle | rfl
  · exact absurd h (by simp)

/-- The loop goes on with its command, or it has none afterwards, or it is not
serving. -/
theorem proceed_cases {writeOk : Bool} (h : x.proceed m writeOk = some x') :
    x'.client = x.client ∨ x'.client.dispatch = none ∨
      ∃ r pc, x.client.dispatch = some (r, pc) ∧ x.client.advance m r pc = some x'.client := by
  unfold proceed at h
  split at h
  · split at h
    · obtain rfl := Option.some.inj h
      exact Or.inr (Or.inl rfl)
    · obtain ⟨q, hq, rfl⟩ := Option.map_eq_some_iff.mp h
      simp only [Client.step] at hq
      split at hq
      · simp at hq
      · rename_i r pc hpc
        obtain ⟨cl, hcl, rfl⟩ := Option.map_eq_some_iff.mp hq
        exact Or.inr (Or.inr ⟨r, pc, hpc, hcl⟩)
  · split_ifs at h
    · obtain rfl := Option.some.inj h
      exact Or.inl rfl
    · obtain rfl := Option.some.inj h
      exact Or.inr (Or.inl rfl)
  · simp at h

end Handler

/-- How far a connection has come with a request that it took when the shared state
was `w` and its session `s`. -/
inductive Conn.Standing (w : LogWorld) (s : ClientSession) (req : Request) (h : DaemonState)
    (x : Conn) : Prop
  | received (hstage : x.stage = .received req) (hsession : x.handler.client.session = s)
      (htables : w.SameTables h.serial)
  | calling (i : CallId) (cmd : LogCommand) (pc : CallPc) (hstage : x.stage = .calling req i)
      (hroute : route req = .manager cmd) (hsession : x.handler.client.session = s)
      (hpc : h.serial.calls i = some pc) (hstanding : CallPc.Standing w s req cmd h.serial pc)
  | apart (hready : x.stage ≠ .ready) (hreceived : ∀ r, x.stage ≠ .received r)
      (hcalling : ∀ i, x.stage.call ≠ some (.manager, i))
      (hsession : x.handler.client.session = s) (htables : w.SameTables h.serial)
      (hacts : ¬ req.ActsFirst w s)
  | working (r : Request) (pc : Pc) (hstage : x.stage = .ready)
      (hdispatch : x.handler.client.dispatch = some (r, pc))
      (hstanding : Pc.Standing w s req (w.SameTables h.serial) x.handler.client.session pc)
  | settled (hstage : x.stage = .ready) (hdispatch : x.handler.client.dispatch = none)

namespace Conn

variable {w : LogWorld} {s : ClientSession} {req : Request} {h h' : DaemonState} {x x' : Conn}

namespace Standing

/-- The tables are the same after a step of somebody else. -/
theorem of_host (hx : x.Standing w s req h)
    (htables : h'.serial.serial.ports = h.serial.serial.ports ∧
      h'.serial.logs.table = h.serial.logs.table)
    (hcalls : ∀ i pc, x.stage.call = some (.manager, i) → h.serial.calls i = some pc →
      h'.serial.calls i = some pc) : x.Standing w s req h' := by
  have hsame : w.SameTables h'.serial ↔ w.SameTables h.serial :=
    ⟨fun hv => hv.of_eq htables.1.symm htables.2.symm, fun hv => hv.of_eq htables.1 htables.2⟩
  cases hx with
  | received hstage hsession hv => exact .received hstage hsession (hsame.mpr hv)
  | calling i cmd pc hstage hroute hsession hpc hstanding =>
      have hcall : x.stage.call = some (.manager, i) := by simp [Stage.call, hstage, hroute]
      exact .calling i cmd pc hstage hroute hsession (hcalls i pc hcall hpc)
        (LogWorld.standing_of_eq hstanding htables.1 htables.2)
  | apart hready hreceived hcalling hsession hv hacts =>
      exact .apart hready hreceived hcalling hsession (hsame.mpr hv) hacts
  | working r pc hstage hdispatch hstanding =>
      exact .working r pc hstage hdispatch (propext hsame ▸ hstanding)
  | settled hstage hdispatch => exact .settled hstage hdispatch

/-- A request is answered that has changed nothing. -/
theorem answered (hsession : x.handler.client.session = s) (htables : w.SameTables h.serial)
    (hacts : ¬ req.ActsFirst w s) (r : Request) (resp : Response) :
    (x.respond r (.reply resp)).Standing w s req h := by
  apply working r (.reply resp) rfl rfl
  rw [show (x.respond r (.reply resp)).handler.client.session = s from hsession]
  exact .refused htables hacts resp

/-- What a request that is not routed to the connection's own session changes is not
in the session. -/
theorem not_actsFirst_of_route
    (hsession : route req ≠ .session) (hmanager : ∀ cmd, route req ≠ .manager cmd) :
    ¬ req.ActsFirst w s := by
  apply Request.not_actsFirst
  intro hcmd
  simp only [List.mem_cons, List.not_mem_nil, or_false] at hcmd
  obtain hcmd | hcmd | hcmd | hcmd := hcmd
  all_goals simp [route, hcmd] at hsession hmanager

/-- Nothing has happened yet. -/
theorem of_received (hx : x.Standing w s req h) {req' : Request}
    (hstage : x.stage = .received req') :
    req' = req ∧ x.handler.client.session = s ∧ w.SameTables h.serial := by
  cases hx with
  | received hstage' hsession htables =>
      exact ⟨Stage.received.inj (hstage.symm.trans hstage'), hsession, htables⟩
  | calling _ _ _ hstage' => simp [hstage] at hstage'
  | apart hready hreceived => exact absurd hstage (hreceived req')
  | working _ _ hstage' | settled hstage' => simp [hstage] at hstage'

private theorem dispatched (hx : x.Standing w s req h) {env : Env}
    (hstep : x.dispatch h.serial.serial env = some x') : x'.Standing w s req h := by
  unfold dispatch at hstep
  split at hstep
  · rename_i hstage
    obtain ⟨rfl, rfl, htables⟩ := hx.of_received hstage
    split at hstep
    · rename_i hroute
      obtain rfl := Option.some.inj hstep
      apply working _ _ rfl rfl
      apply Dispatch.start_standing htables
      · intro port
        simp [SerialManager.isPortOpen, htables.ports port]
      · exact hroute
    · simp at hstep
  · simp at hstep

theorem parsed (hx : x.Standing w s req h) {decoded : Except String (List UInt8)}
    (hstep : x.parse decoded = some x') : x'.Standing w s req h := by
  unfold parse at hstep
  split at hstep
  · rename_i hstage
    obtain ⟨rfl, hsession, htables⟩ := hx.of_received hstage
    split at hstep
    · rename_i hroute _
      obtain rfl := Option.some.inj hstep
      exact .apart (by simp) (by simp) (by simp [Stage.call]) hsession htables
        (not_actsFirst_of_route (by simp [hroute]) (by simp [hroute]))
    · rename_i hroute _
      obtain rfl := Option.some.inj hstep
      exact answered hsession htables
        (not_actsFirst_of_route (by simp [hroute]) (by simp [hroute])) _ _
    · simp at hstep
  · simp at hstep

theorem listed (hx : x.Standing w s req h) (hstep : x.list = some x') :
    x'.Standing w s req h := by
  unfold list at hstep
  split at hstep
  · rename_i hstage
    obtain ⟨rfl, hsession, htables⟩ := hx.of_received hstage
    split at hstep
    · rename_i hroute
      obtain rfl := Option.some.inj hstep
      exact .apart (by simp) (by simp) (by simp [Stage.call]) hsession htables
        (not_actsFirst_of_route (by simp [hroute]) (by simp [hroute]))
    · simp at hstep
  · simp at hstep

/-- At a point of its own a connection has changed nothing. -/
theorem of_apart (hx : x.Standing w s req h) (hready : x.stage ≠ .ready)
    (hreceived : ∀ r, x.stage ≠ .received r) (hcall : x.stage.call = none) :
    x.handler.client.session = s ∧ w.SameTables h.serial ∧ ¬ req.ActsFirst w s := by
  cases hx with
  | received hstage => exact absurd hstage (hreceived req)
  | calling i cmd pc hstage hroute => simp [Stage.call, hstage, hroute] at hcall
  | apart _ _ _ hsession htables hacts => exact ⟨hsession, htables, hacts⟩
  | working _ _ hstage | settled hstage => exact absurd hstage hready

theorem located (hx : x.Standing w s req h) {m : SerialManager}
    (hstep : x.locate m = some x') : x'.Standing w s req h := by
  unfold locate at hstep
  split at hstep
  · rename_i hstage
    obtain ⟨hsession, htables, hacts⟩ :=
      hx.of_apart (by simp [hstage]) (by simp [hstage]) (by simp [hstage, Stage.call])
    split at hstep
    · obtain rfl := Option.some.inj hstep
      exact .apart (by simp) (by simp) (by simp [Stage.call]) hsession htables hacts
    · obtain rfl := Option.some.inj hstep
      exact answered hsession htables hacts _ _
  · simp at hstep

theorem sent (hx : x.Standing w s req h) {result : Except String Unit}
    (hstep : x.sent result = some x') : x'.Standing w s req h := by
  unfold Conn.sent at hstep
  split at hstep
  · rename_i hstage
    obtain ⟨hsession, htables, hacts⟩ :=
      hx.of_apart (by simp [hstage]) (by simp [hstage]) (by simp [hstage, Stage.call])
    obtain rfl := Option.some.inj hstep
    exact answered hsession htables hacts _ _
  · simp at hstep

theorem status (hx : x.Standing w s req h) {v : LogWorld} {env : Logs.LogEnv}
    (hstep : x.status v env = some x') : x'.Standing w s req h := by
  unfold Conn.status at hstep
  split at hstep
  · rename_i hstage
    obtain ⟨hsession, htables, hacts⟩ :=
      hx.of_apart (by simp [hstage]) (by simp [hstage]) (by simp [hstage, Stage.call])
    split_ifs at hstep
    obtain rfl := Option.some.inj hstep
    exact .apart (by simp) (by simp) (by simp [Stage.call]) hsession htables hacts
  · simp at hstep

theorem addMonitor (hx : x.Standing w s req h) {v : DaemonState}
    (hstep : x.addMonitor v = some x') : x'.Standing w s req h := by
  unfold Conn.addMonitor at hstep
  split at hstep
  · rename_i hstage _
    obtain ⟨hsession, htables, hacts⟩ :=
      hx.of_apart (by simp [hstage]) (by simp [hstage]) (by simp [hstage, Stage.call])
    obtain rfl := Option.some.inj hstep
    exact answered hsession htables hacts _ _
  · simp at hstep

/-- The session and the command are as they were. -/
theorem of_same (hx : x.Standing w s req h) (hstage : x'.stage = x.stage)
    (hsession : x'.handler.client.session = x.handler.client.session)
    (hdispatch : x'.handler.client.dispatch = x.handler.client.dispatch) :
    x'.Standing w s req h := by
  cases hx with
  | received hs hv htables => exact .received (hstage.trans hs) (hsession.trans hv) htables
  | calling i cmd pc hs hroute hv hpc hstanding =>
      exact .calling i cmd pc (hstage.trans hs) hroute (hsession.trans hv) hpc hstanding
  | apart hready hreceived hcalling hv htables hacts =>
      rw [← hstage] at hready hreceived hcalling
      exact .apart hready hreceived hcalling (hsession.trans hv) htables hacts
  | working r pc hs hpc hstanding =>
      exact .working r pc (hstage.trans hs) (hdispatch.trans hpc) (hsession ▸ hstanding)
  | settled hs hnone => exact .settled (hstage.trans hs) (hdispatch.trans hnone)

/-- A line that is no request is only read when the request is over. -/
theorem of_inbound {m : SerialManager} {i : Inbound} (hstep : x.inbound m i = some x') :
    x'.Standing w s req h := by
  unfold Conn.inbound at hstep
  split at hstep
  · simp at hstep
  · rename_i hrequest
    split at hstep
    · rename_i hstage
      obtain ⟨r, hr, rfl⟩ := Option.map_eq_some_iff.mp hstep
      exact .settled hstage (Handler.receive_idle (fun _ _ heq => hrequest _ _ heq) hr)
    · simp at hstep

/-- The loop and the tasks go on. -/
theorem handled (hx : x.Standing w s req h) {notices : Broadcast.Channel Notification}
    {e : HandlerEvent} (hstep : x.handle h.serial.serial notices e = some x') :
    x'.Standing w s req h := by
  unfold handle at hstep
  split at hstep
  · simp at hstep
  · rename_i hstage
    obtain ⟨r, hr, rfl⟩ := Option.map_eq_some_iff.mp hstep
    obtain ⟨y, hy, rfl⟩ := Option.map_eq_some_iff.mp hr
    obtain hsame | hnone | ⟨r, pc, hpc, hadvance⟩ := Handler.proceed_cases hy
    · exact hx.of_same rfl (congrArg Client.session hsame) (congrArg Client.dispatch hsame)
    · exact .settled hstage hnone
    · cases hx with
      | working r' pc' _ hpc' hstanding =>
          obtain ⟨rfl, rfl⟩ := Prod.mk.inj (Option.some.inj (hpc.symm.trans hpc'))
          obtain hnone | ⟨pc', hpc', hstanding'⟩ :=
            Client.advance_standing hstanding LogWorld.SameTables.ports hpc hadvance
          · exact .settled hstage hnone
          · exact .working r pc' hstage hpc' hstanding'
      | settled _ hnone => simp [hpc] at hnone
      | received hstage' | calling _ _ _ hstage' => simp [hstage] at hstage'
      | apart hready => exact absurd hstage hready
  · simp at hstep
  · rename_i hinbound hproceed _
    obtain ⟨r, hr, rfl⟩ := Option.map_eq_some_iff.mp hstep
    obtain ⟨hsession, hdispatch⟩ := Handler.task_keeps hinbound (fun ok => hproceed ok) hr
    exact hx.of_same rfl hsession hdispatch

/-- What is done when a port has been closed leads to a success. -/
theorem closeSends_succeeds {port : String} {resp : Response} (hok : resp.ok = true) :
    (Dispatch.closeSends s port resp).Succeeds s := by
  unfold Dispatch.closeSends
  split_ifs <;> exact hok

private theorem afterCall_standing {cmd : LogCommand} {v : LogWorld} {resp : Response}
    (hstanding : CallPc.Standing w s req cmd v (.done (some resp))) :
    Pc.Standing w s req (w.SameTables v) s (Dispatch.afterCall s req resp) := by
  cases hstanding with
  | done _ hkept =>
      cases hok : resp.ok with
      | true =>
          apply Pc.Standing.succeeds
          unfold Dispatch.afterCall
          split
          · exact hok
          · exact closeSends_succeeds hok
          · exact hok
      | false =>
          have hreply : Dispatch.afterCall s req resp = .reply resp := by
            unfold Dispatch.afterCall
            split <;> simp_all
          rw [hreply]
          exact .replies resp ((and_iff_right (.refl s)).trans (hkept hok))

theorem resumed (hx : x.Standing w s req h) (hstep : x.resume h = some x') :
    x'.Standing w s req h := by
  unfold resume at hstep
  split at hstep
  · rename_i req' i hstage
    cases hx with
    | calling i' cmd pc hstage' hroute hsession hpc hstanding =>
        obtain ⟨rfl, rfl⟩ := Stage.calling.inj (hstage.symm.trans hstage')
        split at hstep
        · rename_i resp _ hdone
          obtain rfl := Option.some.inj (hpc.symm.trans hdone)
          obtain rfl := Option.some.inj hstep
          apply working _ _ rfl rfl
          subst hsession
          exact afterCall_standing hstanding
        · rename_i hroute' _
          simp [hroute] at hroute'
        · simp at hstep
    | apart hready hreceived hcalling hsession htables hacts =>
        split at hstep
        · rename_i hroute _
          exact absurd (by simp [Stage.call, hstage, hroute]) (hcalling i)
        · obtain rfl := Option.some.inj hstep
          exact answered hsession htables hacts _ _
        · simp at hstep
    | received hstage' | working _ _ hstage' | settled hstage' => simp [hstage] at hstage'
  · simp at hstep

end Standing

end Conn

/-- What stands to be answered says that the command has failed. -/
def Conn.refuses (x : Conn) : Bool :=
  match x.stage, x.handler.client.dispatch with
  | .ready, some (_, .reply resp) => !resp.ok
  | _, _ => false

private theorem Conn.refuses_cases {x : Conn} (h : x.refuses = true) :
    ∃ r resp, x.stage = .ready ∧ x.handler.client.dispatch = some (r, .reply resp) ∧
      resp.ok = false := by
  unfold refuses at h
  split at h
  · rename_i r resp hstage hdispatch
    exact ⟨r, resp, hstage, hdispatch, by simpa using h⟩
  · simp at h

/-- A step in which no other call on the manager moves, and no other request of the
connection is read. -/
def ProcessEvent.Apart (c : ClientId) : ProcessEvent → Prop
  | .line c' _ => c' ≠ c
  | .host (.serial (.advance _ _)) => False
  | .own c' (.serial _) => c' = c
  | _ => True

namespace Process

variable {u u' : Process} {w : LogWorld} {s : ClientSession} {req : Request} {c : ClientId}
  {e : ProcessEvent}

/-- The connection has come so far with the request. -/
def Standing (w : LogWorld) (s : ClientSession) (req : Request) (c : ClientId) (u : Process) :
    Prop :=
  ∃ x, u.conns c = some x ∧ x.Standing w s req u.host

/-- A step of the shared state that is not the request's. -/
theorem Standing.of_host {h : DaemonState} {he : HostEvent} (hu : u.Standing w s req c)
    (hstep : u.host.step he = some h) (hadvance : ∀ i env, he ≠ .serial (.advance i env))
    (hcaller : ∀ x i, u.conns c = some x → x.stage.call = some (.manager, i) →
      he.caller ≠ some (.manager, i)) :
    Standing w s req c { u with host := h } := by
  obtain ⟨x, hx, hstanding⟩ := hu
  refine ⟨x, hx, hstanding.of_host (DaemonState.tables_of_step hstep hadvance) ?_⟩
  exact fun i pc hcall hpc => DaemonState.calls_of_step hstep hpc (hcaller x i hx hcall)

/-- Another connection takes a step, or this one. -/
theorem Standing.setConn {c' : ClientId} {y : Conn} (hu : u.Standing w s req c)
    (hy : c' = c → y.Standing w s req u.host) : Standing w s req c (u.setConn c' y) := by
  obtain ⟨x, hx, hstanding⟩ := hu
  by_cases hc : c' = c
  · subst hc
    exact ⟨y, by simp [Process.setConn], hy rfl⟩
  · exact ⟨x, by simpa [Process.setConn, Function.update_of_ne (Ne.symm hc)] using hx, hstanding⟩

theorem Standing.stepConn {c' : ClientId} {f : Conn → Option Conn} (hu : u.Standing w s req c)
    (hf : ∀ x x', c' = c → x.Standing w s req u.host → f x = some x' → x'.Standing w s req u.host)
    (h : u.stepConn c' f = some u') : u'.Standing w s req c := by
  obtain ⟨y, y', hy, hf', rfl⟩ := stepConn_eq_some h
  refine hu.setConn ?_
  rintro rfl
  obtain ⟨x, hx, hstanding⟩ := hu
  obtain rfl := Option.some.inj (hx.symm.trans hy)
  exact hf x y' rfl hstanding hf'

/-- A request that is routed to the shared state makes its call there. -/
theorem Standing.called {c' : ClientId} {i : CallId} (hu : u.Standing w s req c)
    (h : u.live (.call c' i) = some u') : u'.Standing w s req c := by
  simp only [live] at h
  split at h
  · rename_i handler req' hc'
    obtain ⟨he, hcall, hrest⟩ := Option.bind_eq_some_iff.mp h
    obtain ⟨v, hv, rfl⟩ := Option.map_eq_some_iff.mp hrest
    obtain ⟨host, hstep, rfl⟩ := Option.map_eq_some_iff.mp hv
    obtain ⟨hbegins, -⟩ := DaemonState.callEvent_step hcall hstep
    have hadvance : ∀ j env, he ≠ .serial (.advance j env) := by
      rintro j env rfl
      simp [HostEvent.begins] at hbegins
    have hhost : Standing w s req c { u with host := host } := by
      apply hu.of_host hstep hadvance
      intro x j _ _ hcaller
      simp [DaemonState.caller_of_begins hbegins] at hcaller
    apply hhost.setConn
    rintro rfl
    obtain ⟨x, hx, hstanding⟩ := hu
    obtain rfl := Option.some.inj (hx.symm.trans hc')
    obtain ⟨rfl, hsession, htables⟩ := hstanding.of_received rfl
    obtain ⟨hports, hlogs⟩ := DaemonState.tables_of_step hstep hadvance
    have htables' : w.SameTables host.serial := htables.of_eq hports hlogs
    unfold callEvent at hcall
    split at hcall
    · rename_i cmd hroute
      obtain rfl := Option.some.inj hcall
      have hs := DaemonState.serial_of_step hstep
      exact .calling i cmd _ rfl hroute hsession (LogWorld.calls_of_call hs) (.started htables')
    · rename_i cmd hroute
      have hacts : ¬ req'.ActsFirst w s :=
        Conn.Standing.not_actsFirst_of_route (by simp [hroute]) (by simp [hroute])
      exact .apart (by simp) (by simp) (by simp [Stage.call, hroute]) hsession htables' hacts
    · simp at hcall
  · simp at h

/-- A call takes a step. -/
theorem Standing.owned {c' : ClientId} {he : HostEvent} (hu : u.Standing w s req c)
    (hapart : ProcessEvent.Apart c (.own c' he)) (h : u.live (.own c' he) = some u') :
    u'.Standing w s req c := by
  obtain ⟨y, hy, hown⟩ := Option.bind_eq_some_iff.mp h
  split_ifs at hown with hcaller
  obtain ⟨host, hstep, rfl⟩ := Option.map_eq_some_iff.mp hown
  cases he with
  | serial le =>
      obtain rfl : c' = c := hapart
      obtain ⟨x, hx, hstanding⟩ := hu
      obtain rfl := Option.some.inj (hx.symm.trans hy)
      refine ⟨x, hx, ?_⟩
      obtain ⟨hisSome, hcaller⟩ := hcaller
      cases hstanding with
      | calling i cmd pc hstage hroute hsession hpc hstanding =>
          have hcall : x.stage.call = some (.manager, i) := by simp [Stage.call, hstage, hroute]
          have hs := DaemonState.serial_of_step hstep
          have hnext : ∃ pc', host.serial.calls i = some pc' ∧
              CallPc.Standing w s req cmd host.serial pc' := by
            rw [hcall] at hcaller
            cases le with
            | advance j env =>
                obtain rfl : j = i := by simpa [HostEvent.caller] using hcaller
                obtain ⟨pc', hpc', hadvance⟩ := Option.bind_eq_some_iff.mp hs
                obtain rfl := Option.some.inj (hpc.symm.trans hpc')
                exact LogWorld.advance_standing hroute hstanding hadvance
            | timeOut j =>
                obtain rfl : j = i := by simpa [HostEvent.caller] using hcaller
                exact LogWorld.timeOut_standing hstanding hpc hs
            | _ => simp [HostEvent.caller] at hcaller
          obtain ⟨pc', hpc', hstanding'⟩ := hnext
          exact .calling i cmd pc' hstage hroute hsession hpc' hstanding'
      | apart hready hreceived hcalling =>
          rw [← hcaller] at hcalling hisSome
          cases le with
          | advance j env | timeOut j => exact absurd rfl (hcalling j)
          | _ => simp [HostEvent.caller] at hisSome
      | received hstage | working _ _ hstage | settled hstage =>
          simp [Stage.call, hstage] at hisSome
  | _ => exact hu.of_host hstep (by simp) (by simp [HostEvent.caller])

/-- A step of the run keeps the standing of the request. -/
theorem Standing.step (hu : u.Standing w s req c) (hapart : e.Apart c)
    (hstep : u.step e = some u') : u'.Standing w s req c := by
  have h := live_of_step hstep
  cases e with
  | host he =>
      simp only [live] at h
      split_ifs at h with hfree
      obtain ⟨host, hhost, rfl⟩ := Option.map_eq_some_iff.mp h
      have hadvance : ∀ i env, he ≠ .serial (.advance i env) := by
        rintro i env rfl
        exact hapart
      apply hu.of_host hhost hadvance
      intro x i _ _ hcaller
      simp [DaemonState.caller_eq_none_of_isFree hfree hadvance] at hcaller
  | connect c' =>
      simp only [live] at h
      split at h
      · simp at h
      · rename_i hnew
        obtain rfl := Option.some.inj h
        apply hu.setConn
        rintro rfl
        obtain ⟨x, hx, -⟩ := hu
        simp [hx] at hnew
  | line c' req' =>
      exact hu.stepConn (fun _ _ hc => absurd hc hapart) h
  | inbound c' i => exact hu.stepConn (fun _ _ _ _ hf => .of_inbound hf) h
  | dispatch c' env => exact hu.stepConn (fun _ _ _ hx hf => hx.dispatched hf) h
  | call c' i => exact hu.called h
  | own c' he => exact hu.owned hapart h
  | resume c' => exact hu.stepConn (fun _ _ _ hx hf => hx.resumed hf) h
  | parse c' decoded => exact hu.stepConn (fun _ _ _ hx hf => hx.parsed hf) h
  | locate c' => exact hu.stepConn (fun _ _ _ hx hf => hx.located hf) h
  | sent c' result => exact hu.stepConn (fun _ _ _ hx hf => hx.sent hf) h
  | list c' => exact hu.stepConn (fun _ _ _ hx hf => hx.listed hf) h
  | status c' env => exact hu.stepConn (fun _ _ _ hx hf => hx.status hf) h
  | addMonitor c' => exact hu.stepConn (fun _ _ _ hx hf => hx.addMonitor hf) h
  | handle c' he => exact hu.stepConn (fun _ _ _ hx hf => hx.handled hf) h

/-- A connection that has just read the request. -/
theorem standing_of_line {x : Conn} (hx : u.conns c = some x)
    (hstep : u.step (.line c req) = some u') :
    u'.Standing u.host.serial x.handler.client.session req c := by
  obtain ⟨y, y', hy, hf, rfl⟩ := stepConn_eq_some (live_of_step hstep)
  obtain rfl := Option.some.inj (hx.symm.trans hy)
  split_ifs at hf
  obtain rfl := Option.some.inj hf
  refine ⟨{ x with stage := .received req }, by simp [Process.setConn], ?_⟩
  exact .received rfl rfl (.refl _)

/-- Connection `c` reads the request in `u`, and in `u'` its answer stands, which says
that the command has failed. -/
structure Fails (c : ClientId) (req : Request) (u u' : Process) : Prop where
  handled : ∃ events, process.runFrom u (.line c req :: events) = some u' ∧
    ∀ e ∈ events, e.Apart c
  failed : ∃ x, u'.conns c = some x ∧ x.refuses = true

/-- A command that fails has left the session and the tables as they were exactly
if it is not one of those that act first. -/
theorem kept_iff_not_actsFirst (h : Fails c req u u') :
    ∃ x x', u.conns c = some x ∧ u'.conns c = some x' ∧
      (x.handler.client.session.Same x'.handler.client.session ∧
          u.host.serial.SameTables u'.host.serial ↔
        ¬ req.ActsFirst u.host.serial x.handler.client.session) := by
  obtain ⟨events, hrun, hapart⟩ := h.handled
  obtain ⟨v, hline, hrest⟩ := process.runFrom_cons_eq_some.mp hrun
  obtain ⟨x, -, hx, -, -⟩ := stepConn_eq_some (live_of_step hline)
  obtain ⟨x', hx', hstanding⟩ := process.runFrom_invariant_on
    (P := Standing u.host.serial x.handler.client.session req c)
    (fun s e t he hs hstep => hs.step he hstep) hapart (standing_of_line hx hline) hrest
  refine ⟨x, x', hx, hx', ?_⟩
  obtain ⟨y, hy, hrefuses⟩ := h.failed
  obtain rfl := Option.some.inj (hx'.symm.trans hy)
  obtain ⟨r, resp, hready, hreply, hfailed⟩ := Conn.refuses_cases hrefuses
  cases hstanding with
  | working r' pc _ hdispatch hpc =>
      obtain ⟨-, rfl⟩ := Prod.mk.inj (Option.some.inj (hreply.symm.trans hdispatch))
      generalize x'.handler.client.session = s at hpc ⊢
      cases hpc with
      | succeeds hok => simp [Pc.Succeeds, hfailed] at hok
      | replies _ hkept => exact hkept
  | received hstage | calling _ _ _ hstage => simp [hready] at hstage
  | apart hstage => exact absurd hready hstage
  | settled _ hnone => simp [hreply] at hnone

/-- A request on a port, and what is done about it up to its answer. -/
def requested (c : ClientId) (cmd : String) (i : CallId) (n : ℕ) : List ProcessEvent :=
  [.line c (portRequest cmd "P"), .call c i] ++
    List.replicate n (.own c (.serial (.advance i ⟨.ok (), "", id, [], fun _ => 0⟩)))

def answeredBy (c : ClientId) (n : ℕ) : List ProcessEvent :=
  .resume c :: List.replicate n (.handle c (.proceed true))

/-- The theorem where a port is unsubscribed that no one has subscribed. -/
theorem kept_iff_not_actsFirst_unsubscribe :
    ∃ u u', process.run [.connect 0] = some u ∧
      Fails 0 (portRequest "unsubscribe_rx" "P") u u' ∧
      ∃ x x', u.conns 0 = some x ∧ u'.conns 0 = some x' ∧
        (x.handler.client.session.Same x'.handler.client.session ∧
            u.host.serial.SameTables u'.host.serial ↔
          ¬ (portRequest "unsubscribe_rx" "P").ActsFirst u.host.serial
            x.handler.client.session) := by
  have hrun : (process.run [.connect 0]).any (fun u =>
      (process.runFrom u
        [.line 0 (portRequest "unsubscribe_rx" "P"),
          .dispatch 0 ⟨.ok (), .ofError ""⟩]).any fun u' =>
        (u'.conns 0).any Conn.refuses) = true := by
    decide +kernel
  simp only [Option.any_eq_true] at hrun
  obtain ⟨u, hu, u', hu', x, hx, hrefuses⟩ := hrun
  have hfails : Fails 0 (portRequest "unsubscribe_rx" "P") u u' :=
    ⟨⟨_, hu', by simp [ProcessEvent.Apart]⟩, x, hx, hrefuses⟩
  exact ⟨u, u', hu, hfails, kept_iff_not_actsFirst hfails⟩

/-- A log is registered after its port has been closed, in the middle of `start_log`. -/
def leftLog : List ProcessEvent :=
  [.connect 0, .connect 1] ++ requested 0 "open_port" 0 1 ++ answeredBy 0 2 ++
    requested 1 "start_log" 1 1 ++ requested 0 "close_port" 2 2 ++ answeredBy 0 2 ++
    [.own 1 (.serial (.advance 1 ⟨.ok (), "", id, [], fun _ => 0⟩))] ++ answeredBy 1 1

/-- A `close_port` stops that log, and then finds the port closed. -/
def lateClose : List ProcessEvent :=
  [.call 1 3, .own 1 (.serial (.advance 3 ⟨.ok (), "", id, [], fun _ => 0⟩)),
    .own 1 (.serial (.timeOut 3)),
    .own 1 (.serial (.advance 3 ⟨.ok (), "", id, [], fun _ => 0⟩)), .resume 1]

private theorem leftLog_stopped : (process.run leftLog).any (fun u =>
    (u.host.serial.logs.table.lookup "P").isSome &&
      (process.runFrom u
        (.line 1 (portRequest "close_port" "P") :: lateClose)).any fun u' =>
        (u'.host.serial.logs.table.lookup "P").isNone && (u'.conns 1).any Conn.refuses) = true := by
  decide +kernel

/-- A failed command may have stopped a log. -/
theorem not_always_kept :
    ¬ ∀ es u u' c req, process.run es = some u → Fails c req u u' →
      ∃ x x', u.conns c = some x ∧ u'.conns c = some x' ∧
        x.handler.client.session.Same x'.handler.client.session ∧
        u.host.serial.SameTables u'.host.serial := by
  intro hunchanged
  have hrun := leftLog_stopped
  simp only [Option.any_eq_true, Bool.and_eq_true] at hrun
  obtain ⟨u, hu, hlog, u', hu', hnone, x, hx, hrefuses⟩ := hrun
  have hapart : ∀ e ∈ lateClose, e.Apart 1 := by simp [lateClose, ProcessEvent.Apart]
  obtain ⟨-, -, -, -, -, htables⟩ :=
    hunchanged leftLog u u' 1 _ hu ⟨⟨_, hu', hapart⟩, x, hx, hrefuses⟩
  rw [← htables.logs, Option.isSome_iff_ne_none] at hlog
  exact hlog (Option.isNone_iff_eq_none.mp hnone)

end Process

end Commmon

/-
# The steps of the process

Every step is one of the shared state, the first of a connection, a step of one
connection, or a call of a connection on the shared state. A call belongs to one
connection from where it is made to where it is answered.
-/

import Commmon.MonitorStop
import Commmon.Process

set_option autoImplicit false

namespace Commmon

/-- Where a step of a connection takes its request. -/
inductive Turns (w : DaemonState) (c : ClientId) : ProcessEvent → Stage → Stage → Prop
  | same (e : ProcessEvent) (s : Stage) : Turns w c e s s
  | line (req : Request) : Turns w c (.line c req) .ready (.received req)
  | answered (e : ProcessEvent) (s : Stage) (hs : ∀ req i, s ≠ .calling req i) :
      Turns w c e s .ready
  | parsed (e : ProcessEvent) (req : Request) (port : String) (bytes : List UInt8) :
      Turns w c e (.received req) (.locating req port bytes)
  | located (req : Request) (port : String) (bytes : List UInt8) (k : ChannelId) :
      Turns w c (.locate c) (.locating req port bytes) (.writing req port k bytes)
  | listing (req : Request) (hroute : route req = .status) :
      Turns w c (.list c) (.received req) (.listing req.args)
  | listed (e : ProcessEvent) (args : Value) (resp : Response) :
      Turns w c e (.listing args) (.listed args resp)
  | resumed (req : Request) (i : CallId)
      (hdone : (∃ cmd resp, route req = .manager cmd ∧
          w.serial.calls i = some (.done (some resp))) ∨
        ∃ cmd resp, route req = .monitor cmd ∧ w.calls i = some (.done resp)) :
      Turns w c (.resume c) (.calling req i) .ready

namespace Conn

variable {x x' : Conn} {w : DaemonState} {c : ClientId}

private theorem inbound_turns {m : SerialManager} {i : Inbound} (h : x.inbound m i = some x') :
    Turns w c (.inbound c i) x.stage x'.stage := by
  unfold inbound at h
  split at h
  · simp at h
  · split at h
    · obtain ⟨r, -, rfl⟩ := Option.map_eq_some_iff.mp h
      exact .same _ _
    · simp at h

private theorem handle_turns {m : SerialManager} {notices : Broadcast.Channel Notification}
    {e : HandlerEvent} (h : x.handle m notices e = some x') :
    Turns w c (.handle c e) x.stage x'.stage := by
  unfold handle at h
  split at h
  · simp at h
  · obtain ⟨r, -, rfl⟩ := Option.map_eq_some_iff.mp h
    exact .same _ _
  · simp at h
  · obtain ⟨r, -, rfl⟩ := Option.map_eq_some_iff.mp h
    exact .same _ _

private theorem dispatch_turns {m : SerialManager} {env : Env} (h : x.dispatch m env = some x') :
    Turns w c (.dispatch c env) x.stage x'.stage := by
  unfold dispatch at h
  split at h
  · rename_i req hstage
    split at h
    · obtain rfl := Option.some.inj h
      exact .answered _ _ (by simp [hstage])
    · simp at h
  · simp at h

private theorem parse_turns {decoded : Except String (List UInt8)} (h : x.parse decoded = some x') :
    Turns w c (.parse c decoded) x.stage x'.stage := by
  unfold parse at h
  split at h
  · rename_i req hstage
    split at h
    · obtain rfl := Option.some.inj h
      rw [hstage]
      exact .parsed _ _ _ _
    · obtain rfl := Option.some.inj h
      exact .answered _ _ (by simp [hstage])
    · simp at h
  · simp at h

private theorem locate_turns {m : SerialManager} (h : x.locate m = some x') :
    Turns w c (.locate c) x.stage x'.stage := by
  unfold locate at h
  split at h
  · rename_i req port bytes hstage
    split at h
    · obtain rfl := Option.some.inj h
      rw [hstage]
      exact .located _ _ _ _
    · obtain rfl := Option.some.inj h
      exact .answered _ _ (by simp [hstage])
  · simp at h

private theorem sent_turns {result : Except String Unit} (h : x.sent result = some x') :
    Turns w c (.sent c result) x.stage x'.stage := by
  unfold sent at h
  split at h
  · rename_i hstage
    obtain rfl := Option.some.inj h
    exact .answered _ _ (by simp [hstage])
  · simp at h

private theorem list_turns (h : x.list = some x') : Turns w c (.list c) x.stage x'.stage := by
  unfold list at h
  split at h
  · rename_i req hstage
    split at h
    · rename_i hroute
      obtain rfl := Option.some.inj h
      rw [hstage]
      exact .listing _ hroute
    · simp at h
  · simp at h

private theorem status_turns {s : LogWorld} {env : Logs.LogEnv} (h : x.status s env = some x') :
    Turns w c (.status c env) x.stage x'.stage := by
  unfold status at h
  split at h
  · rename_i args hstage
    split_ifs at h
    obtain rfl := Option.some.inj h
    rw [hstage]
    exact .listed _ _ _
  · simp at h

private theorem addMonitor_turns (h : x.addMonitor w = some x') :
    Turns w c (.addMonitor c) x.stage x'.stage := by
  unfold addMonitor at h
  split at h
  · rename_i hstage hfree
    obtain rfl := Option.some.inj h
    exact .answered _ _ (by simp [hstage])
  · simp at h

private theorem resume_turns (h : x.resume w = some x') :
    Turns w c (.resume c) x.stage x'.stage := by
  unfold resume at h
  split at h
  · rename_i req i hstage
    rw [hstage]
    split at h
    · rename_i cmd resp hroute hdone
      obtain rfl := Option.some.inj h
      exact .resumed req i (Or.inl ⟨cmd, resp, hroute, hdone⟩)
    · rename_i cmd resp hroute hdone
      obtain rfl := Option.some.inj h
      exact .resumed req i (Or.inr ⟨cmd, resp, hroute, hdone⟩)
    · simp at h
  · simp at h

end Conn

namespace Process

variable {w w' : Process} {e : ProcessEvent} {c : ClientId} {i : CallId}

theorem live_of_step (h : w.step e = some w') : w.live e = some w' := by
  unfold step at h
  split at h
  · simp at h
  · exact h

/-- What a step of one connection does. -/
theorem stepConn_eq_some {f : Conn → Option Conn} (h : w.stepConn c f = some w') :
    ∃ x x', w.conns c = some x ∧ f x = some x' ∧ w' = w.setConn c x' := by
  obtain ⟨x, hx, hf⟩ := Option.bind_eq_some_iff.mp h
  obtain ⟨x', hx', rfl⟩ := Option.map_eq_some_iff.mp hf
  exact ⟨x, x', hx, hx', rfl⟩

/-- Who did what in a step. -/
inductive Steps (w : Process) : ProcessEvent → Process → Prop
  | hosted (e : HostEvent) (h : DaemonState) (hfree : w.host.isFree e = true)
      (hstep : hosting.step w.host e = some h) : Steps w (.host e) { w with host := h }
  | connected (c : ClientId) (handler : Handler) (hnew : w.conns c = none) :
      Steps w (.connect c) (w.setConn c ⟨handler, .ready⟩)
  | turned (e : ProcessEvent) (c : ClientId) (x x' : Conn) (hx : w.conns c = some x)
      (hturns : Turns w.host c e x.stage x'.stage) : Steps w e (w.setConn c x')
  | called (c : ClientId) (i : CallId) (handler : Handler) (req : Request) (e : HostEvent)
      (h : DaemonState) (hx : w.conns c = some ⟨handler, .received req⟩)
      (hcall : callEvent req i = some e) (hstep : hosting.step w.host e = some h) :
      Steps w (.call c i) (setConn { w with host := h } c ⟨handler, .calling req i⟩)
  | owned (c : ClientId) (e : HostEvent) (x : Conn) (k : Service × CallId) (h : DaemonState)
      (hx : w.conns c = some x) (hcall : x.stage.call = some k) (hcaller : e.caller = some k)
      (hstep : hosting.step w.host e = some h) : Steps w (.own c e) { w with host := h }

/-- A step of one connection. -/
theorem turned_of_stepConn {f : Conn → Option Conn}
    (hf : ∀ x x', f x = some x' → Turns w.host c e x.stage x'.stage)
    (h : w.stepConn c f = some w') : Steps w e w' := by
  obtain ⟨x, hx, hrest⟩ := Option.bind_eq_some_iff.mp h
  obtain ⟨x', hx', rfl⟩ := Option.map_eq_some_iff.mp hrest
  exact .turned e c x x' hx (hf x x' hx')

/-- Every step is one of these, and none is taken after the exit. -/
theorem step_steps (h : w.step e = some w') : w.host.cleanup ≠ .exited ∧ Steps w e w' := by
  unfold step at h
  split at h
  · simp at h
  · rename_i hlive
    refine ⟨hlive, ?_⟩
    cases e with
    | host e =>
        simp only [live] at h
        split_ifs at h with hfree
        obtain ⟨d, hd, rfl⟩ := Option.map_eq_some_iff.mp h
        exact .hosted e d hfree hd
    | connect c =>
        simp only [live] at h
        split at h
        · simp at h
        · rename_i hnew
          obtain rfl := Option.some.inj h
          exact .connected c _ hnew
    | line c req =>
        refine turned_of_stepConn (c := c) (fun x x' hx => ?_) h
        split_ifs at hx with hwaits
        obtain rfl := Option.some.inj hx
        cases hstage : x.stage with
        | ready => exact .line req
        | _ => simp [Conn.waits, hstage] at hwaits
    | call c i =>
        simp only [live] at h
        split at h
        · rename_i handler req hx
          obtain ⟨e, he, hrest⟩ := Option.bind_eq_some_iff.mp h
          obtain ⟨v, hv, rfl⟩ := Option.map_eq_some_iff.mp hrest
          obtain ⟨d, hd, rfl⟩ := Option.map_eq_some_iff.mp hv
          exact .called c i handler req e d hx he hd
        · simp at h
    | own c e =>
        obtain ⟨x, hx, hown⟩ := Option.bind_eq_some_iff.mp h
        split_ifs at hown with hcaller
        obtain ⟨k, hk⟩ := Option.isSome_iff_exists.mp hcaller.1
        obtain ⟨d, hd, rfl⟩ := Option.map_eq_some_iff.mp hown
        exact .owned c e x k d hx hk (hcaller.2.trans hk) hd
    | inbound c i => exact turned_of_stepConn (fun _ _ => Conn.inbound_turns) h
    | dispatch c env => exact turned_of_stepConn (fun _ _ => Conn.dispatch_turns) h
    | resume c => exact turned_of_stepConn (fun _ _ => Conn.resume_turns) h
    | parse c decoded => exact turned_of_stepConn (fun _ _ => Conn.parse_turns) h
    | locate c => exact turned_of_stepConn (fun _ _ => Conn.locate_turns) h
    | sent c result => exact turned_of_stepConn (fun _ _ => Conn.sent_turns) h
    | list c => exact turned_of_stepConn (fun _ _ => Conn.list_turns) h
    | status c env => exact turned_of_stepConn (fun _ _ => Conn.status_turns) h
    | addMonitor c => exact turned_of_stepConn (fun _ _ => Conn.addMonitor_turns) h
    | handle c e => exact turned_of_stepConn (fun _ _ => Conn.handle_turns) h

end Process

end Commmon

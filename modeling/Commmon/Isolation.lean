/-
# Clients do not disturb each other

What a client is answered and sent depends on the shared state and on its own
connection. Other clients change the shared state by their calls on it, on the
ports, the logs and the monitor, and by nothing else: their subscriptions, filters
and reads, and the steps of their tasks, stay with their connections.

There is one exception. `port_status` counts the receivers of a port, those of
other clients too. What it is answered is blurred here, and so is what it counts.
-/

import Commmon.Lib.Unwinding
import Commmon.ProcessSteps

set_option autoImplicit false

namespace Commmon

open Broadcast

/-! ## What is compared -/

/-- Nothing but that there is an answer to a `port_status`. -/
def Response.blur (req : Request) (resp : Response) : Response :=
  if req.cmd = "port_status" then ⟨true, none, none⟩ else resp

def Outgoing.blur : Outgoing → Outgoing
  | .response req resp => .response req (resp.blur req)
  | .push p => .push p

def Pc.blur (req : Request) : Pc → Pc
  | .reply resp => .reply (resp.blur req)
  | pc => pc

def Client.blur (cl : Client) : Client :=
  { cl with
    dispatch := cl.dispatch.map fun d => (d.1, d.2.blur d.1)
    written := cl.written.map Outgoing.blur }

def Handler.blur (x : Handler) : Handler := { x with client := x.client.blur }

def Stage.blur : Stage → Stage
  | .listed args resp => .listed args (resp.blur ⟨"port_status", args⟩)
  | stage => stage

def Conn.blur (x : Conn) : Conn := ⟨x.handler.blur, x.stage.blur⟩

@[simp] theorem Response.blur_blur (req : Request) (resp : Response) :
    (resp.blur req).blur req = resp.blur req := by
  unfold Response.blur
  split_ifs <;> rfl

@[simp] theorem Outgoing.blur_response (req : Request) (resp : Response) :
    (Outgoing.response req resp).blur = .response req (resp.blur req) := rfl

@[simp] theorem Outgoing.blur_blur (o : Outgoing) : o.blur.blur = o.blur := by
  cases o <;> simp [Outgoing.blur]

@[simp] theorem Pc.blur_blur (req : Request) (pc : Pc) : (pc.blur req).blur req = pc.blur req := by
  cases pc <;> simp [Pc.blur]

/-! ## Blurring does not matter to a step -/

namespace Client

@[simp] theorem blur_session (cl : Client) : cl.blur.session = cl.session := rfl

@[simp] theorem blur_queue (cl : Client) : cl.blur.queue = cl.queue := rfl

@[simp] theorem blur_task (cl : Client) : cl.blur.task = cl.task := rfl

@[simp] theorem blur_written (cl : Client) : cl.blur.written.map Outgoing.blur =
    cl.written.map Outgoing.blur := by
  simp [blur, Function.comp_def]

/-- A step of a command. -/
theorem advance_blur (cl : Client) (m : SerialManager) (req : Request) (pc : Pc) :
    (cl.advance m req pc).map blur = (cl.blur.advance m req (pc.blur req)).map blur := by
  cases pc with
  | reply resp => simp [advance, Pc.blur, blur, Function.comp_def]
  | subscribeTake port =>
      simp only [advance, Pc.blur]
      cases m.subscribe port <;> simp [blur, Function.comp_def]
  | filterTake port keywords success =>
      simp only [advance, Pc.blur]
      cases m.subscribe port <;> simp [blur, Function.comp_def]
  | drain port clear =>
      simp only [advance, Pc.blur, blur_session]
      rcases cl.session.drainOne m port with ⟨s, _ | _⟩ <;> simp [blur, Function.comp_def]
  | send cmd success =>
      cases hended : cl.task.isEnded <;> by_cases hroom : cl.queue.length < queueCapacity <;>
        simp [advance, Pc.blur, blur, hended, hroom, Function.comp_def]
  | tell cmd next =>
      cases hended : cl.task.isEnded <;> by_cases hroom : cl.queue.length < queueCapacity <;>
        simp [advance, Pc.blur, blur, hended, hroom, Function.comp_def]
  | openEnsure port resp => simp [advance, Pc.blur, blur, Function.comp_def]
  | onPortClosed port resp => simp [advance, Pc.blur, blur, Function.comp_def]
  | readEnsure port clear => simp [advance, Pc.blur, blur, Function.comp_def]

private theorem step_blur (cl : Client) (m : SerialManager) (ce : ClientEvent) :
    (cl.step m ce).map (fun r => (r.1, r.2.blur)) =
      (cl.blur.step m ce).map (fun r => (r.1, r.2.blur)) := by
  cases ce with
  | request req env =>
      cases hdispatch : cl.dispatch <;> simp [step, blur, hdispatch, Function.comp_def]
  | dispatch =>
      cases hdispatch : cl.dispatch with
      | none => simp [step, blur, hdispatch]
      | some d =>
          have hadvance := congrArg (Option.map (Prod.mk m)) (cl.advance_blur m d.1 d.2)
          have hblur : cl.blur.dispatch = some (d.1, d.2.blur d.1) := by simp [blur, hdispatch]
          simpa [step, hdispatch, hblur, Function.comp_def] using hadvance
  | task order writeOk => simp [step, blur, Function.comp_def]

end Client

namespace Handler

/-- What the client's part of a handler makes of a step. -/
theorem client_step_blur (x : Handler) (m : SerialManager) (ce : ClientEvent) :
    ((x.client.step m ce).map fun r => (r.1, { x with client := r.2 })).map
        (fun r => (r.1, r.2.blur)) =
      ((x.blur.client.step m ce).map fun r => (r.1, { x.blur with client := r.2 })).map
        (fun r => (r.1, r.2.blur)) := by
  have hclient := congrArg (Option.map fun r => (r.1, { x with client := r.2 }))
    (x.client.step_blur m ce)
  simpa [blur, Function.comp_def] using hclient

private theorem receive_blur (x : Handler) (m : SerialManager) (i : Inbound) :
    (x.receive m i).map (fun r => (r.1, r.2.blur)) =
      (x.blur.receive m i).map (fun r => (r.1, r.2.blur)) := by
  obtain ⟨cl, notify, refused, loop⟩ := x
  cases loop with
  | serving =>
      cases hdispatch : cl.dispatch with
      | some d => simp [receive, blur, Client.blur, hdispatch]
      | none =>
          cases i with
          | request req env =>
              have hclient := client_step_blur ⟨cl, notify, refused, .serving⟩ m (.request req env)
              simpa [receive, blur, hdispatch, Client.blur] using hclient
          | endOfFile =>
              simp [receive, finish, blur, Client.blur, Client.disconnect, hdispatch,
                Function.comp_def]
          | notUtf8 | readError =>
              simp [receive, giveUp, blur, Client.blur, hdispatch, Function.comp_def]
          | blank | malformed => simp [receive, blur, Client.blur, hdispatch, Function.comp_def]
  | refusing resp => simp [receive, blur]
  | returned => simp [receive, blur]

/-- Writing an answer can fail, and nothing else. -/
theorem proceed_serving {x : Handler} {m : SerialManager} {writeOk : Bool}
    (hloop : x.loop = .serving)
    (hwrites : ∀ req resp, x.client.dispatch = some (req, .reply resp) → writeOk = true) :
    x.proceed m writeOk = (x.client.step m .dispatch).map fun r => { x with client := r.2 } := by
  simp only [proceed, hloop]
  split
  · rename_i req resp hdispatch
    simpa using hwrites req resp hdispatch
  · simp

private theorem proceed_blur (x : Handler) (m : SerialManager) (writeOk : Bool) :
    (x.proceed m writeOk).map blur = (x.blur.proceed m writeOk).map blur := by
  cases hloop : x.loop with
  | serving =>
      by_cases hfails : ∃ req resp, x.client.dispatch = some (req, .reply resp) ∧ writeOk = false
      · obtain ⟨req, resp, hdispatch, rfl⟩ := hfails
        simp [proceed, hloop, hdispatch, giveUp, blur, Client.blur, Pc.blur, Function.comp_def]
      · have hwrites : ∀ req resp, x.client.dispatch = some (req, .reply resp) →
            writeOk = true := by
          intro req resp hdispatch
          by_contra hfalse
          exact hfails ⟨req, resp, hdispatch, by simpa using hfalse⟩
        have hwrites' : ∀ req resp, x.blur.client.dispatch = some (req, .reply resp) →
            writeOk = true := by
          intro req resp hdispatch
          simp only [blur, Client.blur, Option.map_eq_some_iff, Prod.mk.injEq] at hdispatch
          obtain ⟨⟨req', pc⟩, hd, rfl, hpc⟩ := hdispatch
          cases pc with
          | reply resp' => exact hwrites req' resp' hd
          | _ => simp [Pc.blur] at hpc
        rw [proceed_serving hloop hwrites, proceed_serving (x := x.blur) hloop hwrites']
        simpa [Function.comp_def] using
          congrArg (Option.map Prod.snd) (x.client_step_blur m .dispatch)
  | refusing resp =>
      cases writeOk <;>
        simp [proceed, hloop, giveUp, blur, Client.blur, Function.comp_def]
  | returned => simp [proceed, hloop, blur]

private theorem stream_blur (x : Handler) (m : SerialManager) (order : List String)
    (writeOk : Bool) :
    (x.stream m order writeOk).map blur = (x.blur.stream m order writeOk).map blur := by
  have htask : x.blur.client.task = x.client.task := rfl
  have hqueue : x.blur.client.queue = x.client.queue := rfl
  have hloop : x.blur.loop = x.loop := rfl
  have hclient := congrArg (Option.map Prod.snd) (x.client_step_blur m (.task order writeOk))
  simp only [stream, htask, hqueue, hloop]
  split
  · simp [blur, Client.blur, Function.comp_def]
  · simpa [Function.comp_def, hloop] using hclient

private theorem step_blur (x : Handler) (m : SerialManager) (notices : Channel Notification)
    (e : HandlerEvent) : (x.step m notices e).map (fun r => r.2.blur) =
      (x.blur.step m notices e).map (fun r => r.2.blur) := by
  cases e with
  | inbound i =>
      have h := congrArg (Option.map Prod.snd) (x.receive_blur m i)
      simpa [step, Function.comp_def] using h
  | proceed writeOk => simpa [step, Function.comp_def] using x.proceed_blur m writeOk
  | stream order writeOk => simpa [step, Function.comp_def] using x.stream_blur m order writeOk
  | recvNotice =>
      have hnotify : x.blur.notify = x.notify := rfl
      simp only [step, hnotify]
      cases x.notify.recv notices <;> simp [blur, Client.blur, Function.comp_def]
  | writeNotice ok =>
      have hnotify : x.blur.notify = x.notify := rfl
      simp only [step, hnotify]
      cases x.notify.write ok <;> simp [blur, Client.blur, Function.comp_def]

end Handler

namespace Conn

/-- A step of a connection does not depend on what is blurred. -/
def Blurs (f : Conn → Option Conn) : Prop := ∀ x, (f x).map blur = (f x.blur).map blur

private theorem Blurs.blur_eq {f : Conn → Option Conn} (h : Blurs f) {x₁ x₂ y₁ y₂ : Conn}
    (hx : x₁.blur = x₂.blur) (h₁ : f x₁ = some y₁) (h₂ : f x₂ = some y₂) : y₁.blur = y₂.blur := by
  have hblur := (h x₁).trans ((congrArg (fun x => (f x).map blur) hx).trans (h x₂).symm)
  rw [h₁, h₂] at hblur
  exact Option.some.inj hblur

@[simp] theorem blur_respond (x : Conn) (req : Request) (pc : Pc) :
    (x.respond req pc).blur = (x.blur.respond req (pc.blur req)).blur := by
  simp [respond, blur, Handler.blur, Client.blur, Function.comp_def]

private theorem blurs_inbound (m : SerialManager) (i : Inbound) : Blurs fun x => x.inbound m i := by
  intro x
  obtain ⟨handler, stage⟩ := x
  have hhandler := congrArg (Option.map fun h : Handler => (⟨h, .ready⟩ : Conn))
    (congrArg (Option.map Prod.snd) (handler.receive_blur m i))
  cases i with
  | request req env => rfl
  | _ =>
      cases stage with
      | ready => simpa [inbound, blur, Stage.blur, Function.comp_def] using hhandler
      | _ => simp [inbound, blur, Stage.blur]

private theorem blurs_handle (m : SerialManager) (notices : Channel Notification)
    (e : HandlerEvent) : Blurs fun x => x.handle m notices e := by
  intro x
  obtain ⟨handler, stage⟩ := x
  have hhandler : ∀ e, (handler.step m notices e).map (fun r => blur ⟨r.2, stage⟩) =
      (handler.blur.step m notices e).map (fun r => blur ⟨r.2, stage.blur⟩) := by
    intro e
    have h := congrArg (Option.map fun h : Handler => (⟨h, stage.blur⟩ : Conn))
      (handler.step_blur m notices e)
    cases stage <;> simpa [blur, Stage.blur, Function.comp_def] using h
  cases e with
  | inbound i => rfl
  | proceed writeOk =>
      cases stage with
      | ready =>
          simpa [handle, blur, Stage.blur, Function.comp_def] using hhandler (.proceed writeOk)
      | _ => simp [handle, blur, Stage.blur]
  | stream order writeOk =>
      simpa [handle, blur, Function.comp_def] using hhandler (.stream order writeOk)
  | recvNotice => simpa [handle, blur, Function.comp_def] using hhandler .recvNotice
  | writeNotice ok => simpa [handle, blur, Function.comp_def] using hhandler (.writeNotice ok)

private theorem blurs_dispatch (m : SerialManager) (env : Env) :
    Blurs fun x => x.dispatch m env := by
  intro x
  obtain ⟨handler, stage⟩ := x
  cases stage with
  | received req =>
      simp only [dispatch, blur, Stage.blur]
      cases route req <;>
        simp [respond, Handler.blur, Client.blur, blur, Stage.blur, Function.comp_def]
  | _ => simp [dispatch, blur, Stage.blur]

private theorem blurs_parse (decoded : Except String (List UInt8)) :
    Blurs fun x => x.parse decoded := by
  intro x
  obtain ⟨handler, stage⟩ := x
  cases stage with
  | received req =>
      simp only [parse, blur, Stage.blur]
      cases route req <;> cases Dispatch.writeBytes req.args decoded <;>
        simp [respond, Handler.blur, Client.blur, blur, Stage.blur, Function.comp_def]
  | _ => simp [parse, blur, Stage.blur]

private theorem blurs_locate (m : SerialManager) : Blurs fun x => x.locate m := by
  intro x
  obtain ⟨handler, stage⟩ := x
  cases stage with
  | locating req port bytes =>
      simp only [locate, blur, Stage.blur]
      cases m.ports.lookup port <;>
        simp [respond, Handler.blur, Client.blur, blur, Stage.blur, Function.comp_def]
  | _ => simp [locate, blur, Stage.blur]

private theorem blurs_sent (result : Except String Unit) : Blurs fun x => x.sent result := by
  intro x
  obtain ⟨handler, stage⟩ := x
  cases stage <;>
    simp [sent, respond, Handler.blur, Client.blur, blur, Stage.blur, Function.comp_def]

private theorem blurs_list : Blurs fun x => x.list := by
  intro x
  obtain ⟨handler, stage⟩ := x
  cases stage with
  | received req =>
      simp only [list, blur, Stage.blur]
      cases route req <;> simp [Handler.blur, Client.blur, blur, Stage.blur, Function.comp_def]
  | _ => simp [list, blur, Stage.blur]

private theorem blurs_addMonitor (w : DaemonState) : Blurs fun x => x.addMonitor w := by
  intro x
  obtain ⟨handler, stage⟩ := x
  cases stage with
  | listed args resp =>
      simp only [addMonitor, blur, Stage.blur]
      cases w.holder <;>
        simp [respond, Handler.blur, Client.blur, blur, Stage.blur, Pc.blur, Response.blur,
          Function.comp_def]
  | _ => simp [addMonitor, blur, Stage.blur]

private theorem blurs_resume (w : DaemonState) : Blurs fun x => x.resume w := by
  intro x
  obtain ⟨handler, stage⟩ := x
  cases stage with
  | calling req i =>
      have hsession : handler.blur.client.session = handler.client.session := rfl
      simp only [resume, blur, Stage.blur, hsession]
      split <;>
        simp [respond, Handler.blur, Client.blur, blur, Stage.blur, Function.comp_def]
  | _ => simp [resume, blur, Stage.blur]

/-- The listing stage is shown as it is. -/
theorem stage_of_blur {x₁ x₂ : Conn} {args : Value} (hx : x₁.blur = x₂.blur)
    (h₁ : x₁.stage = .listing args) : x₂.stage = .listing args := by
  have hstage : x₁.stage.blur = x₂.stage.blur := congrArg Conn.stage hx
  rw [h₁] at hstage
  cases h₂ : x₂.stage <;> rw [h₂] at hstage <;> simp_all [Stage.blur]

private theorem status_eq_some {x y : Conn} {s : LogWorld} {env : Logs.LogEnv}
    (h : x.status s env = some y) : ∃ args, x.stage = .listing args ∧
      y = { x with stage := .listed args (s.logs.portStatus s.serial env) } := by
  unfold status at h
  split at h
  · rename_i args hstage
    split_ifs at h
    exact ⟨args, hstage, (Option.some.inj h).symm⟩
  · simp at h

/-- The counts of receivers do not matter. -/
theorem blur_status {s : LogWorld} {env₁ env₂ : Logs.LogEnv} {x₁ x₂ y₁ y₂ : Conn}
    (hx : x₁.blur = x₂.blur) (h₁ : x₁.status s env₁ = some y₁) (h₂ : x₂.status s env₂ = some y₂) :
    y₁.blur = y₂.blur := by
  obtain ⟨args, hstage₁, rfl⟩ := status_eq_some h₁
  obtain ⟨args', hstage₂, rfl⟩ := status_eq_some h₂
  obtain rfl : args' = args := by simpa [hstage₂] using stage_of_blur hx hstage₁
  have hhandler : x₁.handler.blur = x₂.handler.blur := congrArg Conn.handler hx
  simp [blur, hhandler, Stage.blur, Response.blur]

/-- The request of a call on the shared state that is about to be made. -/
def asked (x : Conn) : Option Request :=
  match x.stage with
  | .received req =>
      match route req with
      | .manager _ | .monitor _ => some req
      | _ => none
  | _ => none

/-- Only a request that waits to be dispatched can ask for a call. -/
theorem asked_of_stage {x : Conn} (h : ∀ req, x.stage ≠ .received req) : x.asked = none := by
  unfold asked
  split
  · rename_i req hreq
    exact absurd hreq (h req)
  · rfl

@[simp] theorem asked_respond (x : Conn) (req : Request) (pc : Pc) :
    (x.respond req pc).asked = none :=
  asked_of_stage (by simp [respond])

/-- A step of a connection that neither comes from a call nor goes to one. -/
def Asks (f : Conn → Option Conn) : Prop := ∀ x x', f x = some x' → x'.asked = x.asked

private theorem asks_inbound (m : SerialManager) (i : Inbound) : Asks fun x => x.inbound m i := by
  intro x x' h
  change x.inbound m i = some x' at h
  unfold inbound at h
  split at h
  · simp at h
  · split at h
    · obtain ⟨r, -, rfl⟩ := Option.map_eq_some_iff.mp h
      rfl
    · simp at h

private theorem asks_handle (m : SerialManager) (notices : Channel Notification)
    (e : HandlerEvent) : Asks fun x => x.handle m notices e := by
  intro x x' h
  change x.handle m notices e = some x' at h
  unfold handle at h
  split at h
  · simp at h
  · obtain ⟨r, -, rfl⟩ := Option.map_eq_some_iff.mp h
    rfl
  · simp at h
  · obtain ⟨r, -, rfl⟩ := Option.map_eq_some_iff.mp h
    rfl

private theorem asks_dispatch (m : SerialManager) (env : Env) : Asks fun x => x.dispatch m env := by
  intro x x' h
  change x.dispatch m env = some x' at h
  unfold dispatch at h
  split at h
  · rename_i req hstage
    split at h
    · rename_i hroute
      obtain rfl := Option.some.inj h
      simp [asked, hstage, hroute, respond]
    · simp at h
  · simp at h

private theorem asks_parse (decoded : Except String (List UInt8)) :
    Asks fun x => x.parse decoded := by
  intro x x' h
  change x.parse decoded = some x' at h
  unfold parse at h
  split at h
  · rename_i req hstage
    split at h
    · rename_i hroute hbytes
      obtain rfl := Option.some.inj h
      simp [asked, hstage, hroute]
    · rename_i hroute hbytes
      obtain rfl := Option.some.inj h
      simp [asked, hstage, hroute, respond]
    · simp at h
  · simp at h

private theorem asks_locate (m : SerialManager) : Asks fun x => x.locate m := by
  intro x x' h
  change x.locate m = some x' at h
  unfold locate at h
  split at h
  · rename_i req port bytes hstage
    have hx : x.asked = none := asked_of_stage (by simp [hstage])
    split at h <;> obtain rfl := Option.some.inj h
    · rw [hx]
      exact asked_of_stage (by simp)
    · simp [hx]
  · simp at h

private theorem asks_sent (result : Except String Unit) : Asks fun x => x.sent result := by
  intro x x' h
  change x.sent result = some x' at h
  unfold sent at h
  split at h
  · rename_i req port k bytes hstage
    obtain rfl := Option.some.inj h
    rw [asked_respond, asked_of_stage (by simp [hstage])]
  · simp at h

private theorem asks_list : Asks fun x => x.list := by
  intro x x' h
  change x.list = some x' at h
  unfold list at h
  split at h
  · rename_i req hstage
    split at h
    · rename_i hroute
      obtain rfl := Option.some.inj h
      simp [asked, hstage, hroute]
    · simp at h
  · simp at h

private theorem asks_status (s : LogWorld) (env : Logs.LogEnv) : Asks fun x => x.status s env := by
  intro x x' h
  obtain ⟨args, hstage, rfl⟩ := status_eq_some h
  rw [asked_of_stage (x := x) (by simp [hstage]), asked_of_stage (by simp)]

private theorem asks_addMonitor (w : DaemonState) : Asks fun x => x.addMonitor w := by
  intro x x' h
  change x.addMonitor w = some x' at h
  unfold addMonitor at h
  split at h
  · rename_i args resp hstage hfree
    obtain rfl := Option.some.inj h
    rw [asked_respond, asked_of_stage (by simp [hstage])]
  · simp at h

private theorem asks_resume (w : DaemonState) : Asks fun x => x.resume w := by
  intro x x' h
  change x.resume w = some x' at h
  unfold resume at h
  split at h
  · rename_i req i hstage
    have hx : x.asked = none := asked_of_stage (by simp [hstage])
    split at h
    · obtain rfl := Option.some.inj h
      simp [hx]
    · obtain rfl := Option.some.inj h
      simp [hx]
    · simp at h
  · simp at h

end Conn

/-! ## What a client can see -/

def Route.isCall : Route → Bool
  | .manager _ | .monitor _ => true
  | _ => false

/-- The step is one of the shared state, or of the connection `b`, or another
connection asks for a call. -/
def ProcessEvent.concerns (b : ClientId) : ProcessEvent → Bool
  | .host _ | .call _ _ | .own _ _ => true
  | .line c req => c == b || (route req).isCall
  | .connect c | .inbound c _ | .dispatch c _ | .resume c | .parse c _ | .locate c | .sent c _
  | .list c | .status c _ | .addMonitor c | .handle c _ => c == b

/-- Without the counts of receivers. -/
def ProcessEvent.blur : ProcessEvent → ProcessEvent
  | .status c env => .status c { env with receiverCount := fun _ => 0 }
  | e => e

/-- What two runs have to have in common for client `b`. -/
def observed (b : ClientId) (e : ProcessEvent) : Option ProcessEvent :=
  if e.concerns b then some e.blur else none

namespace Process

/-- Two states that client `b` cannot tell apart. -/
structure Alike (b : ClientId) (w₁ w₂ : Process) : Prop where
  host : w₁.host = w₂.host
  own : (w₁.conns b).map Conn.blur = (w₂.conns b).map Conn.blur
  asked : ∀ c, c ≠ b → (w₁.conns c).bind Conn.asked = (w₂.conns c).bind Conn.asked

theorem Alike.symm {b : ClientId} {w₁ w₂ : Process} (h : Alike b w₁ w₂) : Alike b w₂ w₁ :=
  ⟨h.host.symm, h.own.symm, fun c hc => (h.asked c hc).symm⟩

variable {b c : ClientId} {w w₁ w₂ w' w₁' w₂' : Process}

/-- A step of another connection that asks for nothing. -/
theorem Alike.hidden_conn {f : Conn → Option Conn} (h : Alike b w₁ w₂) (hc : c ≠ b)
    (hf : ∀ x x', f x = some x' → x'.asked = x.asked) (hstep : w₁.stepConn c f = some w₁') :
    Alike b w₁' w₂ := by
  obtain ⟨x, x', hx, hx', rfl⟩ := stepConn_eq_some hstep
  refine ⟨h.host, ?_, fun d hd => ?_⟩
  · rw [← h.own]
    exact congrArg _ (Function.update_of_ne hc.symm _ _)
  · rw [← h.asked d hd]
    obtain rfl | hdc := eq_or_ne d c
    · simp [setConn, hx, hf x x' hx']
    · simp [setConn, Function.update_of_ne hdc]

/-- A step of the client's own connection. -/
theorem Alike.own_conn {f₁ f₂ : Conn → Option Conn} (h : Alike b w₁ w₂)
    (hf : ∀ x₁ x₂ y₁ y₂, x₁.blur = x₂.blur → f₁ x₁ = some y₁ → f₂ x₂ = some y₂ →
      y₁.blur = y₂.blur)
    (hstep₁ : w₁.stepConn b f₁ = some w₁') (hstep₂ : w₂.stepConn b f₂ = some w₂') :
    Alike b w₁' w₂' := by
  obtain ⟨x₁, y₁, hx₁, hy₁, rfl⟩ := stepConn_eq_some hstep₁
  obtain ⟨x₂, y₂, hx₂, hy₂, rfl⟩ := stepConn_eq_some hstep₂
  have hx : x₁.blur = x₂.blur := by simpa [hx₁, hx₂] using h.own
  refine ⟨h.host, ?_, fun d hd => ?_⟩
  · simp [setConn, hf x₁ x₂ y₁ y₂ hx hy₁ hy₂]
  · simpa [setConn, Function.update_of_ne hd] using h.asked d hd

/-- The line is no call. -/
theorem asks_line {req : Request} (hreq : (route req).isCall = false) :
    Conn.Asks fun x => if x.waits then some { x with stage := .received req } else none := by
  intro x x' h
  dsimp only at h
  split_ifs at h with hwaits
  obtain rfl := Option.some.inj h
  have hx : x.asked = none := by
    apply Conn.asked_of_stage
    intro req' hstage
    simp [Conn.waits, hstage] at hwaits
  rw [hx]
  cases hroute : route req <;> simp_all [Conn.asked, Route.isCall]

theorem Alike.hidden {e : ProcessEvent} (h : Alike b w₁ w₂) (he : observed b e = none)
    (hstep : w₁.step e = some w₁') : Alike b w₁' w₂ := by
  have hother : e.concerns b = false := by simpa [observed] using he
  have hlive := live_of_step hstep
  cases e with
  | host e => simp [ProcessEvent.concerns] at hother
  | call c i => simp [ProcessEvent.concerns] at hother
  | own c e => simp [ProcessEvent.concerns] at hother
  | connect c =>
      have hc : c ≠ b := by simpa [ProcessEvent.concerns] using hother
      simp only [live] at hlive
      split at hlive
      · simp at hlive
      · rename_i hnew
        obtain rfl := Option.some.inj hlive
        refine ⟨h.host, ?_, fun d hd => ?_⟩
        · rw [← h.own]
          exact congrArg _ (Function.update_of_ne hc.symm _ _)
        · rw [← h.asked d hd]
          obtain rfl | hdc := eq_or_ne d c
          · simp [setConn, hnew, Conn.asked]
          · simp [setConn, Function.update_of_ne hdc]
  | line c req =>
      simp only [ProcessEvent.concerns, Bool.or_eq_false_iff, beq_eq_false_iff_ne] at hother
      exact h.hidden_conn hother.1 (asks_line hother.2) hlive
  | inbound c i =>
      exact h.hidden_conn (by simpa [ProcessEvent.concerns] using hother)
        (Conn.asks_inbound _ i) hlive
  | dispatch c env =>
      exact h.hidden_conn (by simpa [ProcessEvent.concerns] using hother)
        (Conn.asks_dispatch _ env) hlive
  | resume c =>
      exact h.hidden_conn (by simpa [ProcessEvent.concerns] using hother)
        (Conn.asks_resume _) hlive
  | parse c decoded =>
      exact h.hidden_conn (by simpa [ProcessEvent.concerns] using hother)
        (Conn.asks_parse decoded) hlive
  | locate c =>
      exact h.hidden_conn (by simpa [ProcessEvent.concerns] using hother)
        (Conn.asks_locate _) hlive
  | sent c result =>
      exact h.hidden_conn (by simpa [ProcessEvent.concerns] using hother)
        (Conn.asks_sent result) hlive
  | list c =>
      exact h.hidden_conn (by simpa [ProcessEvent.concerns] using hother) Conn.asks_list hlive
  | status c env =>
      exact h.hidden_conn (by simpa [ProcessEvent.concerns] using hother)
        (Conn.asks_status _ env) hlive
  | addMonitor c =>
      exact h.hidden_conn (by simpa [ProcessEvent.concerns] using hother)
        (Conn.asks_addMonitor _) hlive
  | handle c e =>
      exact h.hidden_conn (by simpa [ProcessEvent.concerns] using hother)
        (Conn.asks_handle _ _ e) hlive

/-- Two labels that look the same are the same, but for the counts of a
`port_status`. -/
theorem blur_cases {e₁ e₂ : ProcessEvent} (h : e₁.blur = e₂.blur) :
    e₁ = e₂ ∨ ∃ c env₁ env₂, e₁ = .status c env₁ ∧ e₂ = .status c env₂ := by
  cases e₁ with
  | status c env =>
      cases e₂ with
      | status c' env' =>
          simp only [ProcessEvent.blur, ProcessEvent.status.injEq] at h
          exact Or.inr ⟨c, env, env', rfl, by rw [h.1]⟩
      | _ => simp [ProcessEvent.blur] at h
  | _ =>
      cases e₂ with
      | status c' env' => simp [ProcessEvent.blur] at h
      | _ => exact Or.inl h

/-- A step of the shared state. -/
theorem Alike.host_step {e : HostEvent} (h : Alike b w₁ w₂) (h₁ : w₁.hostStep e = some w₁')
    (h₂ : w₂.hostStep e = some w₂') : Alike b w₁' w₂' := by
  obtain ⟨d₁, hd₁, rfl⟩ := Option.map_eq_some_iff.mp h₁
  obtain ⟨d₂, hd₂, rfl⟩ := Option.map_eq_some_iff.mp h₂
  rw [h.host, hd₂] at hd₁
  exact ⟨(Option.some.inj hd₁).symm, h.own, h.asked⟩

/-- A connection asks for the same call in both. -/
theorem Alike.same_request (h : Alike b w₁ w₂) {x₁ x₂ : Conn} {req₁ req₂ : Request}
    (hx₁ : w₁.conns c = some x₁) (hx₂ : w₂.conns c = some x₂) (hreq₁ : x₁.stage = .received req₁)
    (hreq₂ : x₂.stage = .received req₂) (hcall₁ : (route req₁).isCall = true)
    (hcall₂ : (route req₂).isCall = true) : req₁ = req₂ := by
  obtain rfl | hc := eq_or_ne c b
  · have hx : x₁.blur = x₂.blur := by simpa [hx₁, hx₂] using h.own
    have hstage : x₁.stage.blur = x₂.stage.blur := congrArg Conn.stage hx
    simpa [hreq₁, hreq₂, Stage.blur] using hstage
  · have hasked : ∀ {x : Conn} {req : Request}, x.stage = .received req →
        (route req).isCall = true → x.asked = some req := by
      intro x req hstage hcall
      cases hroute : route req <;> simp_all [Conn.asked, Route.isCall]
    have hsame := h.asked c hc
    rw [hx₁, hx₂, Option.bind_some, Option.bind_some, hasked hreq₁ hcall₁,
      hasked hreq₂ hcall₂] at hsame
    exact Option.some.inj hsame

private theorem isCall_of_callEvent {req : Request} {i : CallId} {e : HostEvent}
    (h : callEvent req i = some e) : (route req).isCall = true := by
  unfold callEvent at h
  cases hroute : route req <;> simp_all [Route.isCall]

/-- A call is made. -/
theorem Alike.call {i : CallId} (h : Alike b w₁ w₂) (h₁ : w₁.live (.call c i) = some w₁')
    (h₂ : w₂.live (.call c i) = some w₂') : Alike b w₁' w₂' := by
  have hcall : ∀ {w w' : Process}, w.live (.call c i) = some w' → ∃ handler req e v,
      w.conns c = some ⟨handler, .received req⟩ ∧ callEvent req i = some e ∧
        w.hostStep e = some v ∧ w' = v.setConn c ⟨handler, .calling req i⟩ := by
    intro w w' hlive
    simp only [live] at hlive
    split at hlive
    · rename_i handler req hconn
      obtain ⟨e, he, hrest⟩ := Option.bind_eq_some_iff.mp hlive
      obtain ⟨v, hv, rfl⟩ := Option.map_eq_some_iff.mp hrest
      exact ⟨handler, req, e, v, hconn, he, hv, rfl⟩
    · simp at hlive
  obtain ⟨handler₁, req₁, e₁, v₁, hconn₁, he₁, hv₁, rfl⟩ := hcall h₁
  obtain ⟨handler₂, req₂, e₂, v₂, hconn₂, he₂, hv₂, rfl⟩ := hcall h₂
  obtain rfl := h.same_request hconn₁ hconn₂ rfl rfl (isCall_of_callEvent he₁)
    (isCall_of_callEvent he₂)
  obtain rfl := Option.some.inj (he₁.symm.trans he₂)
  have hv := h.host_step hv₁ hv₂
  refine ⟨hv.host, ?_, fun d hd => ?_⟩
  · obtain rfl | hc := eq_or_ne c b
    · have hx : (⟨handler₁, .received req₁⟩ : Conn).blur =
          (⟨handler₂, .received req₁⟩ : Conn).blur := by
        simpa [hconn₁, hconn₂] using h.own
      have hhandler : handler₁.blur = handler₂.blur := congrArg Conn.handler hx
      simp [setConn, Conn.blur, hhandler, Stage.blur]
    · simpa [setConn, Function.update_of_ne hc.symm] using hv.own
  · obtain rfl | hdc := eq_or_ne d c
    · simp [setConn, Conn.asked]
    · simpa [setConn, Function.update_of_ne hdc] using hv.asked d hd

private theorem Alike.own_blurs {f : Conn → Option Conn} (h : Alike b w₁ w₂) (hf : Conn.Blurs f)
    (h₁ : w₁.stepConn b f = some w₁') (h₂ : w₂.stepConn b f = some w₂') : Alike b w₁' w₂' :=
  h.own_conn (fun _ _ _ _ hx hy₁ hy₂ => hf.blur_eq hx hy₁ hy₂) h₁ h₂

private theorem Alike.own_status {env₁ env₂ : Logs.LogEnv} (h : Alike b w₁ w₂)
    (h₁ : w₁.live (.status b env₁) = some w₁') (h₂ : w₂.live (.status b env₂) = some w₂') :
    Alike b w₁' w₂' := by
  simp only [live, h.host] at h₁ h₂
  exact h.own_conn (fun _ _ _ _ hx hy₁ hy₂ => Conn.blur_status hx hy₁ hy₂) h₁ h₂

/-- A line arrives. -/
theorem Alike.line {req : Request} (h : Alike b w₁ w₂)
    (hreq : c = b ∨ (route req).isCall = true) (h₁ : w₁.live (.line c req) = some w₁')
    (h₂ : w₂.live (.line c req) = some w₂') : Alike b w₁' w₂' := by
  obtain ⟨x₁, y₁, hx₁, hy₁, rfl⟩ := stepConn_eq_some h₁
  obtain ⟨x₂, y₂, hx₂, hy₂, rfl⟩ := stepConn_eq_some h₂
  split_ifs at hy₁ hy₂
  obtain rfl := Option.some.inj hy₁
  obtain rfl := Option.some.inj hy₂
  refine ⟨h.host, ?_, fun d hd => ?_⟩
  · obtain rfl | hc := eq_or_ne c b
    · have hx : x₁.blur = x₂.blur := by simpa [hx₁, hx₂] using h.own
      have hhandler : x₁.handler.blur = x₂.handler.blur := congrArg Conn.handler hx
      simp [setConn, Conn.blur, hhandler]
    · simpa [setConn, Function.update_of_ne hc.symm] using h.own
  · obtain rfl | hdc := eq_or_ne d c
    · have hcall := hreq.resolve_left hd
      cases hroute : route req <;> simp_all [setConn, Conn.asked, Route.isCall]
    · simpa [setConn, Function.update_of_ne hdc] using h.asked d hd

private theorem Alike.seen_live {e : ProcessEvent} (h : Alike b w₁ w₂) (he : e.concerns b = true)
    (h₁ : w₁.live e = some w₁') (h₂ : w₂.live e = some w₂') : Alike b w₁' w₂' := by
  cases e with
  | host e =>
      simp only [live] at h₁ h₂
      split_ifs at h₁ h₂
      exact h.host_step h₁ h₂
  | call c i => exact h.call h₁ h₂
  | own c e =>
      obtain ⟨x₁, -, hown₁⟩ := Option.bind_eq_some_iff.mp h₁
      obtain ⟨x₂, -, hown₂⟩ := Option.bind_eq_some_iff.mp h₂
      split_ifs at hown₁ hown₂
      exact h.host_step hown₁ hown₂
  | connect c =>
      obtain rfl : c = b := by simpa [ProcessEvent.concerns] using he
      simp only [live] at h₁ h₂
      split at h₁
      · simp at h₁
      obtain rfl := Option.some.inj h₁
      split at h₂
      · simp at h₂
      obtain rfl := Option.some.inj h₂
      refine ⟨h.host, by simp [setConn, h.host], fun d hd => ?_⟩
      simpa [setConn, Function.update_of_ne hd] using h.asked d hd
  | line c req => exact h.line (by simpa [ProcessEvent.concerns] using he) h₁ h₂
  | inbound c i =>
      obtain rfl : c = b := by simpa [ProcessEvent.concerns] using he
      simp only [live, h.host] at h₁ h₂
      exact h.own_blurs (Conn.blurs_inbound _ i) h₁ h₂
  | dispatch c env =>
      obtain rfl : c = b := by simpa [ProcessEvent.concerns] using he
      simp only [live, h.host] at h₁ h₂
      exact h.own_blurs (Conn.blurs_dispatch _ env) h₁ h₂
  | resume c =>
      obtain rfl : c = b := by simpa [ProcessEvent.concerns] using he
      simp only [live, h.host] at h₁ h₂
      exact h.own_blurs (Conn.blurs_resume _) h₁ h₂
  | parse c decoded =>
      obtain rfl : c = b := by simpa [ProcessEvent.concerns] using he
      exact h.own_blurs (Conn.blurs_parse decoded) h₁ h₂
  | locate c =>
      obtain rfl : c = b := by simpa [ProcessEvent.concerns] using he
      simp only [live, h.host] at h₁ h₂
      exact h.own_blurs (Conn.blurs_locate _) h₁ h₂
  | sent c result =>
      obtain rfl : c = b := by simpa [ProcessEvent.concerns] using he
      exact h.own_blurs (Conn.blurs_sent result) h₁ h₂
  | list c =>
      obtain rfl : c = b := by simpa [ProcessEvent.concerns] using he
      exact h.own_blurs Conn.blurs_list h₁ h₂
  | addMonitor c =>
      obtain rfl : c = b := by simpa [ProcessEvent.concerns] using he
      simp only [live, h.host] at h₁ h₂
      exact h.own_blurs (Conn.blurs_addMonitor _) h₁ h₂
  | handle c e =>
      obtain rfl : c = b := by simpa [ProcessEvent.concerns] using he
      simp only [live, h.host] at h₁ h₂
      exact h.own_blurs (Conn.blurs_handle _ _ e) h₁ h₂
  | status c env =>
      obtain rfl : c = b := by simpa [ProcessEvent.concerns] using he
      exact h.own_status h₁ h₂

theorem Alike.seen {e₁ e₂ o : ProcessEvent} (h : Alike b w₁ w₂) (he₁ : observed b e₁ = some o)
    (he₂ : observed b e₂ = some o) (h₁ : w₁.step e₁ = some w₁') (h₂ : w₂.step e₂ = some w₂') :
    Alike b w₁' w₂' := by
  have hconcerns : ∀ {e : ProcessEvent}, observed b e = some o → e.concerns b = true ∧
      e.blur = o := by
    intro e he
    unfold observed at he
    split_ifs at he with hc
    exact ⟨hc, Option.some.inj he⟩
  obtain ⟨hc₁, hblur₁⟩ := hconcerns he₁
  obtain ⟨-, hblur₂⟩ := hconcerns he₂
  have hlive₁ := live_of_step h₁
  have hlive₂ := live_of_step h₂
  obtain rfl | ⟨c, env₁, env₂, rfl, rfl⟩ := blur_cases (hblur₁.trans hblur₂.symm)
  · exact h.seen_live hc₁ hlive₁ hlive₂
  · obtain rfl : c = b := by simpa [ProcessEvent.concerns] using hc₁
    exact h.own_status hlive₁ hlive₂

/-- Steps keep what a client can see. -/
theorem unwinding (b : ClientId) : process.Unwinding (observed b) (Alike b) where
  symm := Alike.symm
  hidden h he hstep := h.hidden he hstep
  seen h he₁ he₂ h₁ h₂ := h.seen he₁ he₂ h₁ h₂

private theorem alike_refl (b : ClientId) (w : Process) : Alike b w w := ⟨rfl, rfl, fun _ _ => rfl⟩

end Process

namespace Conn

/-- What a line answers; of a `port_status` only that it was answered. -/
def answer? : Outgoing → Option (Request × Option Response)
  | .response req resp => some (req, if req.cmd = "port_status" then none else some resp)
  | .push _ => none

def push? : Outgoing → Option Push
  | .push p => some p
  | .response _ _ => none

/-- What a client has been answered, in order. -/
def answers (x : Conn) : List (Request × Option Response) :=
  x.handler.client.written.filterMap answer?

/-- What a client has been pushed, in order. -/
def pushes (x : Conn) : List Push := x.handler.client.written.filterMap push?

private theorem answer?_blur (o : Outgoing) : answer? o.blur = answer? o := by
  cases o with
  | response req resp =>
      by_cases hcmd : req.cmd = "port_status" <;> simp [answer?, Outgoing.blur, Response.blur, hcmd]
  | push p => rfl

private theorem push?_blur (o : Outgoing) : push? o.blur = push? o := by
  cases o <;> rfl

/-- What does not depend on the blurred part of a line can be read off a blurred
connection. -/
theorem filterMap_of_blur {α : Type} {f : Outgoing → Option α} {x₁ x₂ : Conn}
    (hf : ∀ o, f o.blur = f o) (h : x₁.blur = x₂.blur) :
    x₁.handler.client.written.filterMap f = x₂.handler.client.written.filterMap f := by
  have hwritten : x₁.handler.client.written.map Outgoing.blur =
      x₂.handler.client.written.map Outgoing.blur :=
    congrArg (fun x => x.handler.client.written) h
  have hlines := congrArg (List.filterMap f) hwritten
  simpa [List.filterMap_map, Function.comp_def, hf] using hlines

end Conn

/-- Clients do not disturb each other. Two runs that differ in what other
clients do with their own sessions, and in nothing else, look the same to a
client: it is answered the same, but for `port_status`, and pushed the same. -/
theorem clients_undisturbed {b : ClientId} {es₁ es₂ : List ProcessEvent} {w₁ w₂ : Process}
    {x₁ x₂ : Conn} (h₁ : process.run es₁ = some w₁) (h₂ : process.run es₂ = some w₂)
    (hsame : es₁.filterMap (observed b) = es₂.filterMap (observed b))
    (hx₁ : w₁.conns b = some x₁) (hx₂ : w₂.conns b = some x₂) :
    x₁.answers = x₂.answers ∧ x₁.pushes = x₂.pushes := by
  have halike := (Process.unwinding b).runs (Process.alike_refl b _) hsame h₁ h₂
  have hblur : x₁.blur = x₂.blur := by simpa [hx₁, hx₂] using halike.own
  exact ⟨Conn.filterMap_of_blur Conn.answer?_blur hblur,
    Conn.filterMap_of_blur Conn.push?_blur hblur⟩

/-! ## One client between two others -/

/-- A client sends a request that concerns its session, and the daemon serves it. -/
def served (c : ClientId) (req : Request) (n : ℕ) : List ProcessEvent :=
  [.line c req, .dispatch c ⟨.ok (), .ofError ""⟩] ++ List.replicate n (.handle c (.proceed true))

/-- One of two clients opens a port and subscribes it. -/
def subscribedPort : List ProcessEvent :=
  [.connect 0, .connect 1, .line 0 (portRequest "open_port" "P"), .call 0 0,
    .own 0 (.serial (.advance 0 ⟨.ok (), "", id, [], fun _ => 0⟩)), .resume 0,
    .handle 0 (.proceed true), .handle 0 (.proceed true)] ++
  served 0 (portRequest "subscribe_rx" "P") 3

/-- The other reads the port and subscribes it too. -/
def meanwhile : List ProcessEvent :=
  served 1 (portRequest "read_port" "P") 3 ++ served 1 (portRequest "subscribe_rx" "P") 3 ++
  [.handle 1 (.stream [] true)]

/-- An entry arrives, and is pushed to the first. -/
def pushedEntry : List ProcessEvent :=
  [.host (.serial (.deliver 0 ⟨"", [0x41]⟩)), .handle 0 (.stream [] true),
    .handle 0 (.stream ["P"] true), .handle 0 (.stream [] true), .handle 0 (.stream [] true)]

/-- The theorem with and without the other client's commands. -/
theorem clients_undisturbed_meanwhile : ∃ (w₁ w₂ : Process) (x₁ x₂ : Conn),
    process.run (subscribedPort ++ pushedEntry) = some w₁ ∧
      process.run (subscribedPort ++ meanwhile ++ pushedEntry) = some w₂ ∧
      w₁.conns 0 = some x₁ ∧ w₂.conns 0 = some x₂ ∧ x₁.pushes.length = 1 ∧
      x₁.answers = x₂.answers ∧ x₁.pushes = x₂.pushes := by
  have hrun₁ : ((process.run (subscribedPort ++ pushedEntry)).any fun w =>
      (w.conns 0).any fun x => x.pushes.length == 1) = true := by
    decide +kernel
  have hrun₂ : ((process.run (subscribedPort ++ meanwhile ++ pushedEntry)).any fun w =>
      (w.conns 0).isSome) = true := by
    decide +kernel
  simp only [Option.any_eq_true, beq_iff_eq] at hrun₁ hrun₂
  obtain ⟨w₁, h₁, x₁, hx₁, hpushed⟩ := hrun₁
  obtain ⟨w₂, h₂, hconn⟩ := hrun₂
  obtain ⟨x₂, hx₂⟩ := Option.isSome_iff_exists.mp hconn
  exact ⟨w₁, w₂, x₁, x₂, h₁, h₂, hx₁, hx₂, hpushed,
    clients_undisturbed (b := 0) h₁ h₂ rfl hx₁ hx₂⟩

end Commmon

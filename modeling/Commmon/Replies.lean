/-
# What each command is answered with

A refusal carries no data. A registration is answered with a message, and a read
with the entries of a buffer. The other commands are the port table's and the
manager's. This holds of every response that dispatch returns in any run.
-/

import Commmon.DaemonSteps

set_option autoImplicit false

namespace Commmon

/-- The commands that change a registration. -/
def registrationCommands : List String :=
  ["subscribe_rx", "unsubscribe_rx", "filter_rx", "add_filter_rx", "unfilter_rx"]

/-- The responses that a command can have. -/
inductive Response.Answers (cmd : String) : Response → Prop
  | refused {resp : Response} (hok : resp.ok = false) (hdata : resp.data = none) :
      Answers cmd resp
  | message (msg : String) (hcmd : cmd ∈ registrationCommands) : Answers cmd (.successMsg msg)
  | read (b : List Arrival) (hcmd : cmd = "read_port") : Answers cmd (.success (.entries b))
  | managed {resp : Response} (hcmd : cmd ∉ registrationCommands) (hread : cmd ≠ "read_port") :
      Answers cmd resp

/-- What the rest of a command answers is one of its responses. -/
def Pc.WillAnswer (cmd : String) : Pc → Prop
  | .openEnsure _ resp => resp.Answers cmd
  | .onPortClosed _ resp => resp.Answers cmd
  | .tell _ next => next.WillAnswer cmd
  | .reply resp => resp.Answers cmd
  | _ => True

theorem Response.Answers.ofError (cmd msg : String) : (Response.ofError msg).Answers cmd :=
  .refused rfl rfl

private theorem Dispatch.closeSends_willAnswer (s : ClientSession) (port : String) {resp : Response}
    {cmd : String} (h : resp.Answers cmd) : (closeSends s port resp).WillAnswer cmd := by
  unfold closeSends
  split_ifs <;> exact h

private theorem Dispatch.Begins.willAnswer {m m' : SerialManager} {s s' : ClientSession}
    {req : Request} {pc : Pc} (h : Begins m s req m' s' pc) : pc.WillAnswer req.cmd := by
  cases h with
  | answered resp hresp =>
      by_cases hcmd : req.cmd ∈ sessionCommands
      · exact .refused (hresp hcmd).1 (hresp hcmd).2
      · refine .managed (fun hmem => hcmd ?_) (fun hread => hcmd (hread ▸ by decide))
        have hsub : ∀ cmd ∈ registrationCommands, cmd ∈ sessionCommands := by decide
        exact hsub _ hmem
  | opened port resp hcmd => exact .managed (hcmd ▸ by decide) (hcmd ▸ by decide)
  | closed port op resp hcmd =>
      exact closeSends_willAnswer s port (.managed (hcmd ▸ by decide) (hcmd ▸ by decide))
  | unsubscribed port success hcmd => exact .message success (hcmd ▸ by decide)
  | unfiltered port success existing hcmd => exact .message success (hcmd ▸ by decide)
  | _ => trivial

private theorem Pc.Fits.send_cmd {req : Request} {cmd : RxSubCommand} {success : String}
    (h : Pc.Fits req (.send cmd success)) : req.cmd ∈ registrationCommands := by
  cases h with
  | closing hcmd hport hcloses => exact hcloses.elim
  | subscribeSend hcmd => exact hcmd ▸ by decide
  | filterSend hcmd => obtain h | h := hcmd <;> exact h ▸ by decide
  | extendSend hcmd => exact hcmd ▸ by decide

private theorem Client.Advances.willAnswer {cl cl' : Client} {m : SerialManager} {req : Request}
    {pc : Pc} (h : Advances m cl req pc cl') (hfits : pc.Fits req) (hwill : pc.WillAnswer req.cmd)
    (req' : Request) (pc' : Pc) (hpc' : cl'.dispatch = some (req', pc')) :
    pc'.WillAnswer req.cmd := by
  cases h with
  | answered port clear s hround =>
      obtain ⟨-, rfl⟩ := Prod.mk.inj (Option.some.inj hpc')
      obtain ⟨-, hnone⟩ | ⟨-, hresp, -⟩ := s.answerRead_cases port clear
      · exact hnone ▸ .ofError _ _
      · cases hfits with
        | closing hcmd hport hcloses => exact hcloses.elim
        | drain hcmd => exact hresp ▸ .read _ hcmd
  | missed port pc msg =>
      obtain ⟨-, rfl⟩ := Prod.mk.inj (Option.some.inj hpc')
      exact .ofError _ _
  | failed cmd success hended =>
      obtain ⟨-, rfl⟩ := Prod.mk.inj (Option.some.inj hpc')
      exact .ofError _ _
  | sent cmd success hlive =>
      obtain ⟨-, rfl⟩ := Prod.mk.inj (Option.some.inj hpc')
      exact .message success hfits.send_cmd
  | drained port clear s hround hpc =>
      obtain ⟨-, rfl⟩ := Prod.mk.inj (Option.some.inj (hpc.symm.trans hpc'))
      trivial
  | subscribed | filtered | readEnsured =>
      obtain ⟨-, rfl⟩ := Prod.mk.inj (Option.some.inj hpc')
      trivial
  | wrote resp => simp at hpc'
  | ensured | forgot | ignored | told =>
      obtain ⟨-, rfl⟩ := Prod.mk.inj (Option.some.inj hpc')
      exact hwill

/-- What a client has been answered, and will be, are responses of its commands. -/
structure Client.Answered (cl : Client) : Prop where
  underWay : ∀ req pc, cl.dispatch = some (req, pc) → pc.WillAnswer req.cmd
  written : ∀ req resp, .response req resp ∈ cl.written → resp.Answers req.cmd

theorem Client.Steps.answered {cl cl' : Client} {m m' : SerialManager} {ce : ClientEvent}
    (h : Steps m cl ce m' cl') (hfits : ∀ req pc, cl.dispatch = some (req, pc) → pc.Fits req)
    (hanswered : cl.Answered) : cl'.Answered := by
  cases h with
  | began req env m' s' pc hidle hbegins =>
      refine ⟨fun req' pc' hpc' => ?_, hanswered.written⟩
      obtain ⟨rfl, rfl⟩ := Prod.mk.inj (Option.some.inj hpc')
      exact hbegins.willAnswer
  | advanced req pc cl' hpc hadvances =>
      have hwill := hanswered.underWay req pc hpc
      refine ⟨fun req' pc' hpc' => ?_, ?_⟩
      · obtain ⟨rfl, -⟩ := hadvances.fits (hfits req pc hpc) req' pc' hpc'
        exact hadvances.willAnswer (hfits _ pc hpc) hwill _ _ hpc'
      · cases hadvances with
        | wrote resp =>
            intro req' resp' hmem
            obtain hold | hnew := List.mem_append.mp hmem
            · exact hanswered.written _ _ hold
            · obtain ⟨rfl, rfl⟩ := Outgoing.response.inj (List.mem_singleton.mp hnew)
              exact hwill
        | _ => exact hanswered.written
  | streamed order writeOk task queue lines hrunning hmoves =>
      refine ⟨hanswered.underWay, fun req' resp' hmem => ?_⟩
      obtain hold | hnew := List.mem_append.mp hmem
      · exact hanswered.written _ _ hold
      · simp at hnew

/-- Every response is one of its command's, whatever the other clients do. -/
theorem answered_of_run {es : List Event} {w : World} (hrun : daemon.run es = some w)
    {c : ClientId} {cl : Client} (hclient : w.clients c = some cl) : cl.Answered := by
  refine client_history (P := fun _ _ cl => cl.Answered) ?_ ?_ ?_ ?_ hrun hclient
  · intro es w
    exact ⟨by simp [Client.new], by simp [Client.new]⟩
  · intro es w w' cl _ ih
    exact ⟨by simp [Client.disconnect], ih.written⟩
  · intro es w w' cl cl' ce hes _ hclient _ _ hsteps ih
    exact hsteps.answered (fun _ _ => fits_of_run hes hclient) ih
  · intro es w w' e cl _ _ _ _ _ ih
    exact ih

/-- The same for what has been returned and is not yet written. -/
theorem Client.Answered.returns {cl : Client} (h : cl.Answered) :
    ∀ r ∈ cl.returns, r.2.Answers r.1.cmd := by
  rintro ⟨req, resp⟩ hr
  obtain hwritten | hpending := List.mem_append.mp hr
  · obtain ⟨out, hout, hsome⟩ := List.mem_filterMap.mp hwritten
    cases out with
    | push line => cases hsome
    | response req' resp' =>
        obtain ⟨rfl, rfl⟩ := Prod.mk.inj (Option.some.inj hsome)
        exact h.written _ _ hout
  · rcases hpc : cl.dispatch with - | ⟨req', pc⟩
    · simp [hpc] at hpending
    · cases pc with
      | reply resp' =>
          obtain ⟨rfl, rfl⟩ : req = req' ∧ resp = resp' := by simpa [hpc] using hpending
          exact h.underWay _ _ hpc
      | _ => simp [hpc] at hpending

end Commmon

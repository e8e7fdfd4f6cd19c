/-
# Reading a port's buffer

A session's receiver and buffer of one port change in few ways: the receiver is
taken at the tail, it takes the next entry or skips to the oldest one held, the
buffer is cleared by a read, and both go when the session closes the port. What
`read_port` can promise follows from these alone: lists are in arrival order,
nothing comes back after it has been cleared, and a later list extends an
earlier one. What it cannot promise is to return everything, since the drain
stops when it learns that it has fallen behind.
-/

import Commmon.Opening

set_option autoImplicit false

namespace Commmon

open Broadcast

/-- A step's effect on the receiver and the buffer of one port, apart from a read's
clearing the buffer and from the port being forgotten. -/
inductive Fetches (m : SerialManager) (p : String) :
    Option Receiver → List Arrival → Option Receiver → List Arrival → Prop
  | same (rx : Option Receiver) (b : List Arrival) : Fetches m p rx b rx b
  | attached (op : OpenPort) (b : List Arrival) (hop : m.ports.lookup p = some op) :
      Fetches m p none b (some ⟨op.tx, (m.channels op.tx).tail⟩) []
  | stored (rx : Receiver) (b : List Arrival) (entry : RxEntry)
      (hentry : (m.channels rx.chan).sent[rx.next]? = some entry) :
      Fetches m p (some rx) b (some { rx with next := rx.next + 1 })
        (pushEntry b ⟨rx.chan, rx.next, entry⟩)

/-- The last round of a drain: the receiver has read everything, or has fallen
behind and skips to the oldest entry held. -/
def Stops (m : SerialManager) (rx : Receiver) (next : ℕ) : Prop :=
  (m.channels rx.chan).tail ≤ rx.next ∧ next = rx.next ∨
    rx.next < (m.channels rx.chan).oldest ∧ next = (m.channels rx.chan).oldest

theorem Stops.le {m : SerialManager} {rx : Receiver} {next : ℕ} (h : Stops m rx next) :
    rx.next ≤ next := by
  obtain ⟨-, rfl⟩ | ⟨hlt, rfl⟩ := h
  · exact le_rfl
  · exact hlt.le

theorem Stops.le_tail {m : SerialManager} {rx : Receiver} {next : ℕ} (h : Stops m rx next)
    (hrx : rx.next ≤ (m.channels rx.chan).tail) : next ≤ (m.channels rx.chan).tail := by
  obtain ⟨-, rfl⟩ | ⟨-, rfl⟩ := h
  · exact hrx
  · exact Nat.sub_le _ _

namespace ClientSession

private theorem ensureSubscribed_fetches (s : ClientSession) (m : SerialManager) (port p : String) :
    Fetches m p (s.receivers.lookup p) (s.buffer p)
      ((s.ensureSubscribed m port).receivers.lookup p) ((s.ensureSubscribed m port).buffer p) := by
  obtain ⟨-, h⟩ | ⟨-, -, h⟩ | ⟨hnone, op, hop, h⟩ := s.ensureSubscribed_cases m port
  · rw [h]
    exact .same _ _
  · rw [h]
    exact .same _ _
  · rw [h, receivers_attach, buffer_attach]
    by_cases hp : p = port
    · subst hp
      rw [if_pos rfl, if_pos rfl, hnone]
      exact .attached op _ hop
    · rw [if_neg hp, if_neg hp]
      exact .same _ _

/-- A round of the drain that stores an entry. -/
theorem drainOne_fetches {s s' : ClientSession} {m : SerialManager} {port : String}
    (h : s.drainOne m port = (s', true)) (p : String) :
    Fetches m p (s.receivers.lookup p) (s.buffer p) (s'.receivers.lookup p) (s'.buffer p) := by
  obtain ⟨-, h'⟩ | ⟨rx, entry, hrx, hentry, -, h'⟩ | ⟨rx, next, -, -, -, h'⟩ :=
    s.drainOne_cases m port
  · simp [h'] at h
  · obtain ⟨rfl, -⟩ := Prod.mk.inj (h'.symm.trans h)
    rw [receivers_attach, buffer_attach]
    by_cases hp : p = port
    · subst hp
      rw [if_pos rfl, if_pos rfl, hrx]
      exact .stored rx _ entry hentry
    · rw [if_neg hp, if_neg hp]
      exact .same _ _
  · simp [h'] at h

/-- The round that ends a drain, if there is a receiver. -/
theorem drainOne_stops {s s' : ClientSession} {m : SerialManager} {port : String}
    (h : s.drainOne m port = (s', false)) :
    (s.receivers.lookup port = none ∧ s' = s) ∨
    ∃ rx next, s.receivers.lookup port = some rx ∧ Stops m rx next ∧
      (∀ p, s'.receivers.lookup p =
        if p = port then some { rx with next := next } else s.receivers.lookup p) ∧
      ∀ p, s'.buffer p = s.buffer p := by
  obtain ⟨hnone, h'⟩ | ⟨rx, entry, -, -, -, h'⟩ | ⟨rx, next, hrx, -, hstops, h'⟩ :=
    s.drainOne_cases m port
  · exact Or.inl ⟨hnone, (Prod.mk.inj (h'.symm.trans h)).1.symm⟩
  · simp [h'] at h
  · obtain ⟨rfl, -⟩ := Prod.mk.inj (h'.symm.trans h)
    refine Or.inr ⟨rx, next, hrx, hstops, fun p => receivers_attach _ _ _ _ _ _, fun p => ?_⟩
    rw [buffer_attach]
    split_ifs with hp
    · rw [hp]
    · rfl

end ClientSession

/-- The list that a response to `read_port` of `p` carries. -/
def readOf (p : String) (r : Request × Response) : Option (List Arrival) :=
  if r.1.cmd = "read_port" ∧ r.1.args.strArg "port" = some p then r.2.entries? else none

theorem readOf_eq_none_of_cmd {p : String} {r : Request × Response}
    (h : r.1.cmd ≠ "read_port") : readOf p r = none :=
  if_neg fun hread => h hread.1

private theorem readOf_eq_none_of_entries {p : String} {r : Request × Response}
    (h : r.2.entries? = none) : readOf p r = none := by
  unfold readOf
  split_ifs
  · exact h
  · rfl

/-- A successful `close_port` of `p`. -/
def ClosesOk (p : String) (r : Request × Response) : Prop :=
  r.1.cmd = "close_port" ∧ r.1.args.strArg "port" = some p ∧ r.2.ok = true

/-- What dispatch returns at a point of a command. -/
def Pc.returned (req : Request) : Pc → List (Request × Response)
  | .reply resp => [(req, resp)]
  | _ => []

private theorem Client.returns_of_dispatch {cl : Client} {req : Request} {pc : Pc}
    (hpc : cl.dispatch = some (req, pc)) :
    cl.returns = cl.written.filterMap (fun
      | .response req resp => some (req, resp)
      | _ => none) ++ pc.returned req := by
  unfold Client.returns
  rw [hpc]
  cases pc <;> rfl

theorem Client.returns_of_idle {cl : Client} (hidle : cl.dispatch = none) :
    cl.returns = cl.written.filterMap (fun
      | .response req resp => some (req, resp)
      | _ => none) := by
  unfold Client.returns
  rw [hidle]
  exact List.append_nil _

/-- The effect of a client's step on one port, with what dispatch returns. -/
inductive Client.PortStep (m : SerialManager) (p : String) (cl cl' : Client) : Prop
  | kept (rs : List (Request × Response))
      (hfetches : Fetches m p (cl.session.receivers.lookup p) (cl.session.buffer p)
        (cl'.session.receivers.lookup p) (cl'.session.buffer p))
      (hreturns : cl'.returns = cl.returns ++ rs) (hother : ∀ r ∈ rs, readOf p r = none)
  | forgot (r : Request × Response) (hpc : ∃ pc, cl.dispatch = some (r.1, pc))
      (hcloses : ClosesOk p r) (hreturns : cl'.returns = cl.returns ++ [r])
      (hrx : cl'.session.receivers.lookup p = none) (hbuffer : cl'.session.buffer p = [])
  | read (r : Request × Response) (rx : Receiver) (next : ℕ)
      (hrx : cl.session.receivers.lookup p = some rx) (hstops : Stops m rx next)
      (hrx' : cl'.session.receivers.lookup p = some { rx with next := next })
      (hread : readOf p r = some (cl.session.buffer p))
      (hbuffer : cl'.session.buffer p =
        if Dispatch.clearArg r.1.args = true then [] else cl.session.buffer p)
      (hreturns : cl'.returns = cl.returns ++ [r])

section PortStep

variable {p : String} {m m' : SerialManager} {cl cl' : Client} {req : Request} {pc : Pc}

/-- A command goes on, and the port is left as it is or fetched from. -/
theorem Client.portStep_went_on (hpc : cl.dispatch = some (req, pc)) (hquiet : pc.returned req = [])
    {s : ClientSession} {q : List RxSubCommand} {pc' : Pc}
    (hfetches : Fetches m p (cl.session.receivers.lookup p) (cl.session.buffer p)
      (s.receivers.lookup p) (s.buffer p))
    (hother : ∀ r ∈ pc'.returned req, readOf p r = none) :
    cl.PortStep m p { cl with session := s, queue := q, dispatch := some (req, pc') } := by
  refine .kept (pc'.returned req) hfetches ?_ hother
  rw [Client.returns_of_dispatch hpc, Client.returns_of_dispatch rfl, hquiet, List.append_nil]

theorem Pc.Closes.returned {port : String} (h : pc.Closes port) (req : Request) :
    pc.returned req = [] := by
  cases pc with
  | reply resp => exact h.elim
  | _ => rfl

/-- What follows a message that does not wait for its answer is no read. -/
theorem Pc.Fits.readOf_tell {cmd : RxSubCommand} {next : Pc}
    (hfits : Pc.Fits req (.tell cmd next)) : ∀ r ∈ next.returned req, readOf p r = none := by
  cases hfits with
  | closing hcmd hport hcloses =>
      intro r hr
      simp [hcloses.2.returned req] at hr
  | dropping hcmd hdrop =>
      intro r hr
      obtain rfl : r = (req, _) := List.mem_singleton.mp hr
      exact readOf_eq_none_of_cmd (by rcases hcmd with h | h <;> simp [h])

/-- The step in which `read_port` answers. -/
theorem Client.portStep_answered {port : String} {clear : Bool} {s : ClientSession}
    (hpc : cl.dispatch = some (req, .drain port clear)) (hcmd : req.cmd = "read_port")
    (hport : req.args.strArg "port" = some port) (hclear : clear = Dispatch.clearArg req.args)
    (hround : cl.session.drainOne m port = (s, false)) :
    cl.PortStep m p { cl with
      session := (s.answerRead port clear).1
      dispatch := some (req, .reply (s.answerRead port clear).2) } := by
  obtain ⟨hnone, rfl⟩ | ⟨rx, next, hrx, hstops, hrxs, hbuffers⟩ :=
    ClientSession.drainOne_stops hround
  · obtain ⟨-, h⟩ | ⟨⟨rx, hrx⟩, -⟩ := cl.session.answerRead_cases port clear
    · rw [h]
      apply Client.portStep_went_on hpc rfl (.same _ _)
      intro r hr
      obtain rfl := List.mem_singleton.mp hr
      exact readOf_eq_none_of_entries rfl
    · simp [hnone] at hrx
  · obtain ⟨hnone, -⟩ | ⟨-, hresp, hreceivers, -, -, hbuf⟩ := s.answerRead_cases port clear
    · simp [hrxs] at hnone
    · rw [hresp]
      by_cases hp : p = port
      · subst hp
        refine .read (req, .success (.entries (s.buffer p))) rx next hrx hstops ?_ ?_ ?_ ?_
        · exact (congrArg _ hreceivers).trans ((hrxs p).trans (if_pos rfl))
        · simp [readOf, hcmd, hport, Response.entries?, hbuffers]
        · rw [hbuf p, hbuffers, ← hclear]
          simp
        · rw [Client.returns_of_dispatch hpc, Client.returns_of_dispatch rfl]
          simp [Pc.returned]
      · refine Client.portStep_went_on hpc rfl ?_ fun r hr => ?_
        · rw [hreceivers, hbuf p, hrxs p, hbuffers, if_neg hp, if_neg fun h => hp h.1]
          exact .same _ _
        · obtain rfl := List.mem_singleton.mp hr
          simp [readOf, hport, Ne.symm hp]

theorem Client.Advances.portStep (h : cl.Advances m req pc cl')
    (hpc : cl.dispatch = some (req, pc)) (hfits : pc.Fits req) (p : String) :
    cl.PortStep m p cl' := by
  cases h with
  | ensured port resp =>
      refine Client.portStep_went_on hpc rfl
        (cl.session.ensureSubscribed_fetches m port p) fun r hr => ?_
      obtain rfl := List.mem_singleton.mp hr
      cases hfits with
      | closing hcmd hport hcloses => exact hcloses.elim
      | openEnsure hcmd hport hok => exact readOf_eq_none_of_cmd (by simp [hcmd])
  | forgot port resp =>
      cases hfits with
      | closing hcmd hport hcloses =>
          obtain ⟨rfl, hok⟩ := hcloses
          by_cases hp : p = port
          · subst hp
            refine .forgot (req, resp) ⟨_, hpc⟩ ⟨hcmd, hport, hok⟩ ?_ (by simp) (by simp)
            rw [Client.returns_of_dispatch hpc, Client.returns_of_dispatch rfl]
            simp [Pc.returned]
          · refine Client.portStep_went_on hpc rfl ?_ fun r hr => ?_
            · simp only [ClientSession.receivers_onPortClosed,
                ClientSession.buffer_onPortClosed, hp, if_false]
              exact .same _ _
            · obtain rfl := List.mem_singleton.mp hr
              exact readOf_eq_none_of_cmd (by simp [hcmd])
  | missed port pc msg hmissed hnone =>
      refine Client.portStep_went_on hpc ?_ (.same _ _) fun r hr => ?_
      · obtain rfl | ⟨keywords, success, rfl⟩ := hmissed <;> rfl
      · obtain rfl := List.mem_singleton.mp hr
        exact readOf_eq_none_of_entries rfl
  | subscribed port success op hop =>
      exact Client.portStep_went_on hpc rfl (.same _ _) fun r hr => by simp [Pc.returned] at hr
  | filtered port keywords success op hop =>
      exact Client.portStep_went_on hpc rfl (.same _ _) fun r hr => by simp [Pc.returned] at hr
  | readEnsured port clear =>
      exact Client.portStep_went_on hpc rfl (cl.session.ensureSubscribed_fetches m port p)
        fun r hr => by simp [Pc.returned] at hr
  | drained port clear s hround hpc' =>
      exact .kept [] (ClientSession.drainOne_fetches hround p) (List.append_nil _).symm
        (by simp)
  | answered port clear s hround =>
      cases hfits with
      | closing hcmd hport hcloses => exact hcloses.elim
      | drain hcmd hport hclear => exact Client.portStep_answered hpc hcmd hport hclear hround
  | failed cmd success hended =>
      apply Client.portStep_went_on hpc rfl (.same _ _)
      intro r hr
      obtain rfl := List.mem_singleton.mp hr
      exact readOf_eq_none_of_entries rfl
  | sent cmd success hlive =>
      apply Client.portStep_went_on hpc rfl (.same _ _)
      intro r hr
      obtain rfl := List.mem_singleton.mp hr
      exact readOf_eq_none_of_entries rfl
  | ignored cmd next hended =>
      exact Client.portStep_went_on hpc rfl (.same _ _) hfits.readOf_tell
  | told cmd next hlive =>
      exact Client.portStep_went_on hpc rfl (.same _ _) hfits.readOf_tell
  | wrote resp =>
      refine .kept [] (.same _ _) ?_ (by simp)
      rw [Client.returns_of_dispatch hpc, Client.returns_of_idle rfl]
      simp [Pc.returned]

theorem Client.Steps.portStep {ce : ClientEvent} (h : cl.Steps m ce m' cl')
    (hfits : ∀ req pc, cl.dispatch = some (req, pc) → pc.Fits req) (p : String) :
    cl.PortStep m p cl' := by
  cases h with
  | began req env m' s' pc hidle hbegins =>
      have hsame : s'.receivers = cl.session.receivers ∧ s'.buffers = cl.session.buffers := by
        cases hbegins <;> exact ⟨rfl, rfl⟩
      refine .kept (pc.returned req) ?_ ?_ ?_
      · simp only [ClientSession.buffer, hsame.1, hsame.2]
        exact .same _ _
      · rw [Client.returns_of_idle hidle, Client.returns_of_dispatch rfl]
      · cases hbegins with
        | answered resp hresp =>
            intro r hr
            obtain rfl := List.mem_singleton.mp hr
            by_cases hcmd : req.cmd = "read_port"
            · have hdata := (hresp (by simp [hcmd, sessionCommands])).2
              exact readOf_eq_none_of_entries (by simp [Response.entries?, hdata])
            · exact readOf_eq_none_of_cmd hcmd
        | closed port op resp hcmd hport hopen hok =>
            have hcloses : (Dispatch.closeSends cl.session port resp).Closes port :=
              Dispatch.closeSends_closes cl.session hok
            intro r hr
            simp [hcloses.returned req] at hr
        | _ => exact fun r hr => by simp [Pc.returned] at hr
  | advanced req pc cl' hpc hadvances => exact hadvances.portStep hpc (hfits req pc hpc) p
  | streamed order writeOk task queue lines hrunning hmoves =>
      refine .kept [] (.same _ _) ?_ (by simp)
      simp [Client.returns]

end PortStep

end Commmon

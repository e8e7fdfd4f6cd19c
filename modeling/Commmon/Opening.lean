/-
# Which opening of a port a session reads

A session takes a receiver of a port once, when it opens or first reads it, and
keeps it until it closes the port itself. The receiver and the port are a
mirrored registration too, one without a queue: taking it sets the slot at once,
and forgetting the port clears it. So a session reads the current opening of a
port until another client closes it, and from then on a dead channel, whatever
is opened later.
-/

import Commmon.Streaming

set_option autoImplicit false

namespace Commmon

open Mirror (View Step Command)
open Relation (ReflGen ReflTransGen)

namespace ClientSession

/-- The channel that a session reads a port from. -/
def reads (s : ClientSession) (p : String) : Option ChannelId :=
  (s.receivers.lookup p).map Receiver.chan

private theorem reads_eq_none {s : ClientSession} {p : String} :
    s.reads p = none ↔ s.receivers.lookup p = none :=
  Option.map_eq_none_iff

private theorem reads_attach (s : ClientSession) (port : String) (rx : Receiver) (b : List Arrival)
    (hb : b.length ≤ maxBufferEntries) (p : String) :
    (s.attach port rx b hb).reads p = if p = port then some rx.chan else s.reads p := by
  unfold reads
  rw [receivers_attach]
  split_ifs <;> rfl

private theorem reads_onPortClosed (s : ClientSession) (port p : String) :
    (s.onPortClosed port).reads p = if p = port then none else s.reads p := by
  unfold reads
  rw [receivers_onPortClosed]
  split_ifs <;> rfl

/-- A session that subscribes keeps the channel it has, or gets the current one. -/
theorem reads_ensureSubscribed (s : ClientSession) (m : SerialManager) (port p : String) :
    (s.ensureSubscribed m port).reads p = s.reads p ∨
    port = p ∧ s.reads p = none ∧ ∃ op, m.ports.lookup p = some op ∧
      (s.ensureSubscribed m port).reads p = some op.tx := by
  obtain ⟨-, h⟩ | ⟨-, -, h⟩ | ⟨hnone, op, hop, h⟩ := s.ensureSubscribed_cases m port
  · exact Or.inl (by rw [h])
  · exact Or.inl (by rw [h])
  · by_cases hp : p = port
    · subst hp
      exact Or.inr ⟨rfl, reads_eq_none.mpr hnone, op, hop, by rw [h, reads_attach, if_pos rfl]⟩
    · exact Or.inl (by rw [h, reads_attach, if_neg hp])

/-- A session that subscribes to an open port reads it. -/
theorem reads_ensureSubscribed_isSome (s : ClientSession) (m : SerialManager) {p : String}
    (hopen : (m.ports.lookup p).isSome) : ((s.ensureSubscribed m p).reads p).isSome := by
  obtain ⟨⟨rx, hrx⟩, h⟩ | ⟨-, hclosed, -⟩ | ⟨-, op, -, h⟩ := s.ensureSubscribed_cases m p
  · simp [h, reads, hrx]
  · simp [hclosed] at hopen
  · simp [h, reads_attach]

private theorem reads_drainOne (s : ClientSession) (m : SerialManager) (port p : String) :
    (s.drainOne m port).1.reads p = s.reads p := by
  obtain ⟨-, h⟩ | ⟨rx, entry, hrx, -, -, h⟩ | ⟨rx, next, hrx, -, -, h⟩ := s.drainOne_cases m port
  · rw [h]
  · rw [h, reads_attach]
    split_ifs with hp
    · subst hp
      simp [reads, hrx]
    · rfl
  · rw [h, reads_attach]
    split_ifs with hp
    · subst hp
      simp [reads, hrx]
    · rfl

private theorem reads_answerRead (s : ClientSession) (port : String) (clear : Bool) (p : String) :
    (s.answerRead port clear).1.reads p = s.reads p := by
  obtain ⟨-, h⟩ | ⟨-, -, hrx, -⟩ := s.answerRead_cases port clear
  · rw [h]
  · simp only [reads, hrx]

end ClientSession

/-- The channel that a client's session reads a port from. -/
def Client.reads (cl : Client) (p : String) : Option ChannelId := cl.session.reads p

/-- The mirror of a session's receiver of `p`. Between the session's own close
and its forgetting the port, the clearing of the slot is pending. -/
def Client.readView (cl : Client) (p : String) (m : SerialManager) (lost : Prop) :
    View Unit where
  record := (cl.reads p).map fun _ => ()
  slot := (cl.reads p).map fun k => (k, ())
  pending := if cl.closing = some p then ((cl.reads p).map fun _ => .unset).toList else []
  current := (m.ports.lookup p).map OpenPort.tx
  fresh := m.fresh
  condemned := False
  closing := cl.closing = some p
  lost := lost

section Steps

variable {p : String} {m m' : SerialManager} {cl cl' : Client} {lost lost' : Prop}

private theorem Client.readView_same (hreads : cl'.reads p = cl.reads p)
    (hclosing : cl'.closing = some p ↔ cl.closing = some p) (hlost : lost' ↔ lost) :
    ReflTransGen Step (cl.readView p m lost) (cl'.readView p m lost') := by
  have heq : cl'.readView p m lost' = cl.readView p m lost := by
    simp only [Client.readView, hreads, hclosing, hlost]
  exact heq ▸ .refl

/-- The ports change, and the session does not read another channel. -/
theorem Client.readView_changes (hchanges : SerialManager.Changes m m')
    (hreads : cl'.reads p = cl.reads p) (hclosing : cl'.closing = some p ↔ cl.closing = some p)
    (hlost : lost' ↔ lost ∨ (m.ports.lookup p).isSome ∧ m'.ports.lookup p = none) :
    ReflTransGen Step (cl.readView p m lost) (cl'.readView p m' lost') := by
  have heq : cl'.readView p m' lost' = cl.readView p m' lost' := by
    simp only [Client.readView, hreads, hclosing]
  rw [heq]
  have hstep := step_of_changes hchanges (cl.readView p m lost) rfl rfl hlost
  exact hstep.to_reflTransGen

/-- The session takes a receiver of an open port. -/
theorem Client.readView_took {op : OpenPort} (hop : m.ports.lookup p = some op)
    (hreads : cl'.reads p = some op.tx)
    (hclosing : cl.closing ≠ some p) (hclosing' : cl'.closing ≠ some p) (hlost : ¬ lost') :
    ReflTransGen Step (cl.readView p m lost) (cl'.readView p m lost') := by
  have htake : Step (cl.readView p m lost) { cl.readView p m lost with
      record := some ()
      pending := (cl.readView p m lost).pending ++ [.set op.tx ()]
      lost := False } :=
    .take _ op.tx () (by simp [Client.readView, hop]) hclosing
  refine .head htake (.single ?_)
  have heq : cl'.readView p m lost' = { cl.readView p m lost with
      record := some (), slot := (Command.set op.tx ()).apply none, pending := []
      lost := False } := by
    simp [Client.readView, hreads, hclosing, hclosing', hlost]
  rw [heq]
  have hpending : (cl.readView p m lost).pending ++ [.set op.tx ()] = [.set op.tx ()] := by
    simp [Client.readView, hclosing]
  rw [hpending]
  exact Step.consume _ (.set op.tx ()) [] rfl (by simp [Client.readView])

/-- The session closes the port itself. -/
theorem Client.readView_closed {op : OpenPort} (hreads : cl'.reads p = cl.reads p)
    (hclosing : cl.closing ≠ some p) (hclosing' : cl'.closing = some p) (hlost : lost' ↔ lost) :
    ReflTransGen Step (cl.readView p m lost) (cl'.readView p (m.removePort p op) lost') := by
  have heq : cl'.readView p (m.removePort p op) lost' = { cl.readView p m lost with
      pending := (cl.readView p m lost).pending ++
        ((cl.reads p).map fun _ => .unset).toList
      current := none
      closing := True } := by
    simp only [Client.readView, hreads, hclosing, hclosing', hlost, if_true, if_false,
      List.nil_append, SerialManager.lookup_ports_removePort, Option.map_none]
    rfl
  refine heq ▸ .single (.close _ _ ?_)
  rcases hnone : cl.reads p with - | k
  · exact Or.inr ⟨by simp, by simp [Client.readView, hnone]⟩
  · exact Or.inl (by simp)

/-- The session forgets a port that it has closed. -/
theorem Client.readView_forgot (hreads : cl'.reads p = none) (hclosing : cl.closing = some p)
    (hclosing' : cl'.closing ≠ some p) (hlost : lost' ↔ lost) :
    ReflTransGen Step (cl.readView p m lost) (cl'.readView p m lost') := by
  have hforget : Step (cl.readView p m lost)
      { cl.readView p m lost with record := none, closing := False } := .forget _ hclosing
  rcases hold : cl.reads p with - | k
  · have heq : cl'.readView p m lost' =
        { cl.readView p m lost with record := none, closing := False } := by
      simp [Client.readView, hreads, hold, hclosing', hlost]
    exact heq ▸ .single hforget
  · have heq : cl'.readView p m lost' = { cl.readView p m lost with
        record := none, closing := False, slot := Command.unset.apply (some (k, ()))
        pending := [] } := by
      simp [Client.readView, hreads, hclosing', hlost]
    refine .head hforget (heq ▸ .single ?_)
    have hslot : (cl.readView p m lost).slot = some (k, ()) := by simp [Client.readView, hold]
    have hpending : (cl.readView p m lost).pending = [.unset] := by
      simp [Client.readView, hold, hclosing]
    rw [← hslot]
    exact Step.consume { cl.readView p m lost with record := none, closing := False } .unset []
      hpending (by simp [Client.readView])

/-- A session takes a receiver where it had none. -/
def Client.Acquires (cl cl' : Client) (p : String) : Prop :=
  cl.reads p = none ∧ (cl'.reads p).isSome

private theorem Client.not_acquires_of_eq (hreads : cl'.reads p = cl.reads p) :
    ¬ cl.Acquires cl' p := by
  rintro ⟨hnone, hsome⟩
  simp [hreads, hnone] at hsome

/-- `ensure_subscribed`, whatever comes after it. -/
theorem Client.readView_ensured {req : Request} {pc pc' : Pc} {port : String}
    (hpc : cl.dispatch = some (req, pc)) (hclosing : pc.closing = none)
    (hclosing' : pc'.closing = none)
    (hlost : lost' ↔ lost ∧ ¬ cl.Acquires { cl with
      session := cl.session.ensureSubscribed m port, dispatch := some (req, pc') } p) :
    ReflTransGen Step (cl.readView p m lost)
      (Client.readView { cl with
        session := cl.session.ensureSubscribed m port
        dispatch := some (req, pc') } p m lost') := by
  have hold : cl.closing ≠ some p := by simp [Client.closing, hpc, hclosing]
  have hnew : Client.closing { cl with
      session := cl.session.ensureSubscribed m port, dispatch := some (req, pc') } ≠ some p := by
    simp [Client.closing, hclosing']
  obtain hsame | ⟨rfl, hnone, op, hop, hsome⟩ := cl.session.reads_ensureSubscribed m port p
  · exact Client.readView_same hsame (iff_of_false hnew hold)
      (hlost.trans (and_iff_left (Client.not_acquires_of_eq hsame)))
  · have hacquires : cl.Acquires { cl with
        session := cl.session.ensureSubscribed m port, dispatch := some (req, pc') } port :=
      ⟨hnone, by simp [Client.reads, hsome]⟩
    exact Client.readView_took hop hsome hold hnew (by simp [hlost, hacquires])

private theorem Client.Advances.readView {req : Request} {pc : Pc} (h : cl.Advances m req pc cl')
    (hpc : cl.dispatch = some (req, pc)) (hlost : lost' ↔ lost ∧ ¬ cl.Acquires cl' p) :
    ReflTransGen Step (cl.readView p m lost) (cl'.readView p m lost') := by
  have hold : cl.closing = pc.closing := by simp [Client.closing, hpc]
  have hquiet : ∀ s d q written, s.reads p = cl.session.reads p →
      (lost' ↔ lost ∧ ¬ cl.Acquires
        { cl with session := s, dispatch := d, queue := q, written := written } p) →
      (Client.closing { cl with session := s, dispatch := d, queue := q, written := written } =
        some p ↔ cl.closing = some p) →
      ReflTransGen Step (cl.readView p m lost) (Client.readView
        { cl with session := s, dispatch := d, queue := q, written := written } p m lost') :=
    fun s d q written hsame hlost hclosing => Client.readView_same hsame hclosing
      (hlost.trans (and_iff_left (Client.not_acquires_of_eq hsame)))
  cases h with
  | ensured port resp => exact Client.readView_ensured hpc rfl rfl hlost
  | forgot port resp =>
      have hreads := cl.session.reads_onPortClosed port p
      by_cases hp : p = port
      · rw [if_pos hp] at hreads
        refine Client.readView_forgot hreads (by rw [hold, hp]; rfl)
          (by simp [Client.closing, Pc.closing]) (hlost.trans (and_iff_left ?_))
        rintro ⟨-, hsome⟩
        simp [Client.reads, hreads] at hsome
      · rw [if_neg hp] at hreads
        exact hquiet _ _ _ _ hreads hlost
          (by rw [hold]; simp [Client.closing, Pc.closing, Ne.symm hp])
  | missed port pc msg hmissed hnone =>
      apply hquiet _ _ _ _ rfl hlost
      rw [hold]
      obtain rfl | ⟨keywords, success, rfl⟩ := hmissed <;> simp [Client.closing, Pc.closing]
  | subscribed port success op hop =>
      exact hquiet _ _ _ _ rfl hlost (by rw [hold]; simp [Client.closing, Pc.closing])
  | filtered port keywords success op hop =>
      exact hquiet _ _ _ _ rfl hlost (by rw [hold]; simp [Client.closing, Pc.closing])
  | readEnsured port clear => exact Client.readView_ensured hpc rfl rfl hlost
  | drained port clear s hround hpc' =>
      have hreads := cl.session.reads_drainOne m port p
      rw [hround] at hreads
      exact hquiet _ _ _ _ hreads hlost Iff.rfl
  | answered port clear s hround =>
      have hreads := cl.session.reads_drainOne m port p
      rw [hround] at hreads
      exact hquiet _ _ _ _ ((s.reads_answerRead port clear p).trans hreads) hlost
        (by rw [hold]; simp [Client.closing, Pc.closing])
  | failed cmd success hended =>
      exact hquiet _ _ _ _ rfl hlost (by rw [hold]; simp [Client.closing, Pc.closing])
  | sent cmd success hlive =>
      exact hquiet _ _ _ _ rfl hlost (by rw [hold]; simp [Client.closing, Pc.closing])
  | ignored cmd next hended =>
      exact hquiet _ _ _ _ rfl hlost (by rw [hold]; simp [Client.closing, Pc.closing])
  | told cmd next hlive =>
      exact hquiet _ _ _ _ rfl hlost (by rw [hold]; simp [Client.closing, Pc.closing])
  | wrote resp =>
      exact hquiet _ _ _ _ rfl hlost (by rw [hold]; simp [Client.closing, Pc.closing])

private theorem Client.Steps.readView {ce : ClientEvent} (h : cl.Steps m ce m' cl')
    (hlost : lost' ↔ lost ∧ ¬ cl.Acquires cl' p) :
    ReflTransGen Step (cl.readView p m lost) (cl'.readView p m' lost') := by
  cases h with
  | began req env m' s' pc hidle hbegins =>
      have hold : cl.closing ≠ some p := by simp [Client.closing, hidle]
      have hreads : s'.reads p = cl.session.reads p := by cases hbegins <;> rfl
      have hkept := hlost.trans (and_iff_left (Client.not_acquires_of_eq hreads))
      cases hbegins with
      | opened port resp hcmd hport hclosed hok =>
          refine Client.readView_changes (.opened m port _ hclosed) rfl
            (iff_of_false (by simp [Client.closing, Pc.closing]) hold)
            (hkept.trans (or_iff_left ?_).symm)
          rintro ⟨hsome, hnone⟩
          rw [SerialManager.lookup_ports_insertPort] at hnone
          split_ifs at hnone
          simp [hnone] at hsome
      | closed port op resp hcmd hport hopen hok =>
          by_cases hp : port = p
          · subst hp
            exact Client.readView_closed rfl hold (by simp [Client.closing]) hkept
          · refine Client.readView_changes (.closed m port op hopen) rfl
              (iff_of_false (by simp [Client.closing, hp]) hold)
              (hkept.trans (or_iff_left ?_).symm)
            rintro ⟨hsome, hnone⟩
            simp [Ne.symm hp] at hnone
            simp [hnone] at hsome
      | _ =>
          exact Client.readView_same hreads
            (iff_of_false (by simp [Client.closing, Pc.closing]) hold) hkept
  | advanced req pc cl' hpc hadvances => exact hadvances.readView hpc hlost
  | streamed order writeOk task queue lines hrunning hmoves =>
      exact Client.readView_same rfl Iff.rfl
        (hlost.trans (and_iff_left (Client.not_acquires_of_eq rfl)))

end Steps

/-- A step after which the client `c` holds a receiver of `p`, and before which it
did not. -/
def AcquiresReceiver (c : ClientId) (p : String) (w : World) (_ : Event) (w' : World) : Prop :=
  (∀ cl, w.clients c = some cl → cl.session.receivers.lookup p = none) ∧
    ∃ cl', w'.clients c = some cl' ∧ (cl'.session.receivers.lookup p).isSome

private theorem not_acquires_elsewhere {c : ClientId} {p : String} {w w' : World} {e : Event}
    (hclient : w'.clients c = w.clients c) : ¬ AcquiresReceiver c p w e w' := by
  rintro ⟨hnone, cl, hcl, hsome⟩
  rw [hclient] at hcl
  simp [hnone cl hcl] at hsome

private theorem closedByOther_acquires {c : ClientId} {p : String} {es : List Event} {w w' : World}
    {e : Event} (hes : daemon.run es = some w) (hstep : daemon.step w e = some w')
    {ce : ClientEvent} (he : e = .client c ce) {cl cl' : Client}
    (hclient : w.clients c = some cl) (hclient' : w'.clients c = some cl') :
    daemon.OccurredSince (ClosedByOther c p) (AcquiresReceiver c p) (es ++ [e]) ↔
      daemon.OccurredSince (ClosedByOther c p) (AcquiresReceiver c p) es ∧
        ¬ cl.Acquires cl' p := by
  have hreset : AcquiresReceiver c p w e w' ↔ cl.Acquires cl' p := by
    simp [AcquiresReceiver, hclient, hclient', Client.Acquires, Client.reads,
      ClientSession.reads]
  rw [closedByOther_own hes hstep he, hreset]

/-- A session without a receiver mirrors nothing. -/
theorem Client.readView_inv_of_none {cl : Client} {p : String} (m : SerialManager) (lost : Prop)
    (hnone : cl.reads p = none) (hclosing : cl.closing ≠ some p) :
    (cl.readView p m lost).Inv where
  current_lt := by
    intro k hk
    obtain ⟨op, hop, rfl⟩ := Option.map_eq_some_iff.mp hk
    exact m.tx_lt p op hop
  source_lt := by
    rintro k (⟨value, hslot⟩ | ⟨value, hmem⟩)
    · simp [Client.readView, hnone] at hslot
    · simp [Client.readView, hclosing] at hmem
  stale := by
    rintro - k (⟨value, hslot⟩ | ⟨value, hmem⟩)
    · simp [Client.readView, hnone] at hslot
    · simp [Client.readView, hclosing] at hmem
  condemned := False.elim
  live := fun value hrecord => by simp [Client.readView, hnone] at hrecord
  mirrored := fun k value heff => by
    simp [View.effective, Client.readView, hnone, hclosing] at heff
  gone := fun hc => absurd hc hclosing

/-- The mirror of a session's receiver, in every reachable world. -/
theorem readView_inv_of_run {es : List Event} {w : World} (hrun : daemon.run es = some w)
    (c : ClientId) (p : String) : ∀ cl, w.clients c = some cl →
      (cl.readView p w.serial
        (daemon.OccurredSince (ClosedByOther c p) (AcquiresReceiver c p) es)).Inv := by
  intro cl hclient
  refine client_history (P := fun es w cl => (cl.readView p w.serial
    (daemon.OccurredSince (ClosedByOther c p) (AcquiresReceiver c p) es)).Inv) ?_ ?_ ?_ ?_ hrun
    hclient
  · intro es w
    exact Client.readView_inv_of_none _ _ (by simp [Client.reads, ClientSession.reads,
      Client.new, ClientSession.new]) (by simp [Client.closing, Client.new])
  · intro es w w' cl _ _
    exact Client.readView_inv_of_none _ _ (by simp [Client.reads, ClientSession.reads,
      Client.disconnect, ClientSession.new]) (by simp [Client.closing, Client.disconnect])
  · intro es w w' cl cl' ce hes hstep hclient hclient' _ hsteps ih
    exact Mirror.inv_of_reflTransGen
      (hsteps.readView (closedByOther_acquires hes hstep rfl hclient hclient')) ih
  · intro es w w' e cl hes hstep hsame hchanges hevent ih
    exact Mirror.inv_of_reflTransGen (Client.readView_changes hchanges rfl Iff.rfl
      (closedByOther_elsewhere hes hstep (not_acquires_elsewhere hsame) hevent)) ih

/-- While a port is being opened, and after it has been opened or read, what can
keep the session from reading it is a close by another client. -/
structure Client.Answering (cl : Client) (m : SerialManager) (p : String) (lost : Prop) :
    Prop where
  opening : ∀ req resp, cl.dispatch = some (req, .openEnsure p resp) → cl.reads p = none →
    ¬ lost → (m.ports.lookup p).isSome
  answered : ∀ req resp, cl.dispatch = some (req, .reply resp) → resp.ok = true →
    req.cmd = "open_port" ∨ req.cmd = "read_port" → req.args.strArg "port" = some p →
    (cl.reads p).isSome ∨ lost

section Answering

variable {p : String} {m m' : SerialManager} {cl cl' : Client} {lost lost' : Prop}
  {req : Request} {pc : Pc}

/-- Dispatch is at a point that the two conditions do not speak of. -/
theorem Client.answering_of_ne (hopen : ∀ req resp, cl.dispatch ≠ some (req, .openEnsure p resp))
    (hreply : ∀ req resp, cl.dispatch ≠ some (req, .reply resp)) : cl.Answering m p lost :=
  ⟨fun req resp h => absurd h (hopen req resp), fun req resp h => absurd h (hreply req resp)⟩

/-- A command has answered. -/
theorem Client.answering_of_reply {resp : Response}
    (hpc : cl.dispatch = some (req, .reply resp))
    (h : resp.ok = true → req.cmd = "open_port" ∨ req.cmd = "read_port" →
      req.args.strArg "port" = some p → (cl.reads p).isSome ∨ lost) :
    cl.Answering m p lost := by
  refine ⟨fun req' resp' h' => by simp [hpc] at h', fun req' resp' h' hok hcmd hport => ?_⟩
  obtain ⟨rfl, hresp⟩ := Prod.mk.inj (Option.some.inj (hpc.symm.trans h'))
  obtain rfl := Pc.reply.inj hresp
  exact h hok hcmd hport

private theorem Dispatch.Begins.answering {s' : ClientSession}
    (h : Begins m cl.session req m' s' pc) :
    Client.Answering { cl with session := s', dispatch := some (req, pc) } m' p lost := by
  cases h with
  | answered resp hresp =>
      apply Client.answering_of_reply rfl
      intro hok hcmd _
      have hmem : req.cmd ∈ sessionCommands := by
        rcases hcmd with h | h <;> simp [h, sessionCommands]
      exact absurd (hok.symm.trans (hresp hmem).1) (by simp)
  | opened port resp hcmd hport hclosed hok =>
      refine ⟨fun req' resp' h _ _ => ?_, fun req' resp' h => by simp at h⟩
      obtain ⟨-, rfl, -⟩ : _ ∧ port = p ∧ _ := by simpa using h
      simp
  | closed port op resp hcmd hport hopen hok =>
      have hcloses : (closeSends cl.session port resp).Closes port :=
        closeSends_closes cl.session hok
      refine Client.answering_of_ne (fun req' resp' h => ?_) (fun req' resp' h => ?_)
      · rw [(Prod.mk.inj (Option.some.inj h)).2] at hcloses
        exact hcloses.elim
      · rw [(Prod.mk.inj (Option.some.inj h)).2] at hcloses
        exact hcloses.elim
  | _ => exact Client.answering_of_ne (by simp) (by simp)

/-- What follows a message that does not wait for its answer. -/
theorem Client.answering_of_tell {cmd : RxSubCommand} {next : Pc}
    (hfits : Pc.Fits req (.tell cmd next)) (hpc : cl.dispatch = some (req, next)) :
    cl.Answering m p lost := by
  cases hfits with
  | closing hcmd hport hcloses =>
      refine Client.answering_of_ne (fun req' resp' h => ?_) (fun req' resp' h => ?_)
      · obtain ⟨-, rfl⟩ := Prod.mk.inj (Option.some.inj (hpc.symm.trans h))
        exact hcloses.2.elim
      · obtain ⟨-, rfl⟩ := Prod.mk.inj (Option.some.inj (hpc.symm.trans h))
        exact hcloses.2.elim
  | dropping hdrops hdrop =>
      apply Client.answering_of_reply hpc
      intro _ hcmd _
      rcases hcmd with h | h <;> simp [h] at hdrops

private theorem Client.Advances.answering (h : cl.Advances m req pc cl')
    (hpc : cl.dispatch = some (req, pc)) (hfits : pc.Fits req) (hcl : cl.Answering m p lost)
    (hlost : lost' ↔ lost ∧ ¬ cl.Acquires cl' p) : cl'.Answering m p lost' := by
  cases h with
  | ensured port resp =>
      apply Client.answering_of_reply rfl
      intro _ _ hport'
      cases hfits with
      | closing hcmd hport hcloses => exact hcloses.elim
      | openEnsure hcmd hport hok =>
          obtain rfl := Option.some.inj (hport.symm.trans hport')
          refine or_iff_not_imp_left.mpr fun hnot => hlost.mpr ⟨?_, fun h => hnot h.2⟩
          by_contra hkept
          obtain hsame | ⟨-, -, op, hop, hsome⟩ := cl.session.reads_ensureSubscribed m port port
          · have hnone : cl.reads port = none := by
              rw [Client.reads, ← hsame]
              simpa [Client.reads] using hnot
            exact hnot (cl.session.reads_ensureSubscribed_isSome m
              (hcl.opening req resp hpc hnone hkept))
          · exact hnot (by simp [Client.reads, hsome])
  | forgot port resp =>
      apply Client.answering_of_reply rfl
      intro _ hcmd' _
      cases hfits with
      | closing hcmd hport hcloses => rcases hcmd' with h | h <;> simp [h] at hcmd
  | missed port pc msg hmissed hnone =>
      exact Client.answering_of_reply rfl fun hok => absurd hok (by simp)
  | subscribed port success op hop => exact Client.answering_of_ne (by simp) (by simp)
  | filtered port keywords success op hop => exact Client.answering_of_ne (by simp) (by simp)
  | readEnsured port clear => exact Client.answering_of_ne (by simp) (by simp)
  | drained port clear s hround hpc' =>
      exact Client.answering_of_ne (by simp [hpc']) (by simp [hpc'])
  | answered port clear s hround =>
      apply Client.answering_of_reply rfl
      intro hok _ hport'
      cases hfits with
      | closing hcmd hport hcloses => exact hcloses.elim
      | drain hcmd hport hclear =>
          obtain rfl := Option.some.inj (hport.symm.trans hport')
          obtain ⟨-, hfail⟩ | ⟨⟨rx, hrx⟩, -, hsame, -⟩ := s.answerRead_cases port clear
          · simp [hfail] at hok
          · exact Or.inl (by simp [Client.reads, ClientSession.reads, hsame, hrx])
  | failed cmd success hended =>
      exact Client.answering_of_reply rfl fun hok => absurd hok (by simp [deliveryFailed])
  | sent cmd success hlive =>
      apply Client.answering_of_reply rfl
      intro _ hcmd' _
      cases hfits with
      | closing hcmd hport hcloses => exact hcloses.elim
      | subscribeSend hcmd hport => rcases hcmd' with h | h <;> simp [h] at hcmd
      | filterSend hcmd hport hkeywords => rcases hcmd' with h | h <;> simp [h] at hcmd
      | extendSend hcmd hport => rcases hcmd' with h | h <;> simp [h] at hcmd
  | ignored cmd next hended => exact Client.answering_of_tell hfits rfl
  | told cmd next hlive => exact Client.answering_of_tell hfits rfl
  | wrote resp => exact Client.answering_of_ne (by simp) (by simp)

private theorem Client.Steps.answering {ce : ClientEvent} (h : cl.Steps m ce m' cl')
    (hfits : ∀ req pc, cl.dispatch = some (req, pc) → pc.Fits req)
    (hcl : cl.Answering m p lost) (hlost : lost' ↔ lost ∧ ¬ cl.Acquires cl' p) :
    cl'.Answering m' p lost' := by
  cases h with
  | began req env m' s' pc hidle hbegins => exact hbegins.answering
  | advanced req pc cl' hpc hadvances =>
      exact hadvances.answering hpc (hfits req pc hpc) hcl hlost
  | streamed order writeOk task queue lines hrunning hmoves =>
      have hkept : lost' ↔ lost := hlost.trans (and_iff_left (Client.not_acquires_of_eq rfl))
      rw [hkept]
      exact ⟨hcl.opening, hcl.answered⟩

end Answering

private theorem answering_of_run {es : List Event} {w : World} (hrun : daemon.run es = some w)
    (c : ClientId) (p : String) : ∀ cl, w.clients c = some cl →
      cl.Answering w.serial p
        (daemon.OccurredSince (ClosedByOther c p) (AcquiresReceiver c p) es) := by
  intro cl hclient
  refine client_history (P := fun es w cl => cl.Answering w.serial p
    (daemon.OccurredSince (ClosedByOther c p) (AcquiresReceiver c p) es)) ?_ ?_ ?_ ?_ hrun hclient
  · intro es w
    exact Client.answering_of_ne (by simp [Client.new]) (by simp [Client.new])
  · intro es w w' cl _ _
    exact Client.answering_of_ne (by simp [Client.disconnect]) (by simp [Client.disconnect])
  · intro es w w' cl cl' ce hes hstep hclient hclient' _ hsteps ih
    exact hsteps.answering (fun req pc hpc => fits_of_run hes hclient hpc) ih
      (closedByOther_acquires hes hstep rfl hclient hclient')
  · intro es w w' e cl hes hstep hsame _ hevent hcl
    have hnot : ¬ AcquiresReceiver c p w e w' := not_acquires_elsewhere hsame
    have hlost := closedByOther_elsewhere (p := p) hes hstep hnot hevent
    refine ⟨fun req resp hpc hnone hkept => ?_, fun req resp hpc hok hcmd hport => ?_⟩
    · by_contra hclosed
      have hopen := hcl.opening req resp hpc hnone fun h => hkept (hlost.mpr (Or.inl h))
      exact hkept (hlost.mpr (Or.inr ⟨hopen, by simpa using hclosed⟩))
    · exact (hcl.answered req resp hpc hok hcmd hport).imp_right
        fun h => hlost.mpr (Or.inl h)

/-- When a session reads the current opening. Whenever `open_port` or
`read_port` of `p` has returned ok, the session holds a receiver of the channel
that `p` has now exactly if no other client has closed `p` since the session took
its receiver. -/
theorem reads_current_iff {es : List Event} {w : World} (hrun : daemon.run es = some w)
    {c : ClientId} {cl : Client} {req : Request} {resp : Response} {p : String}
    (hclient : w.clients c = some cl) (hreturned : cl.dispatch = some (req, .reply resp))
    (hok : resp.ok = true) (hcmd : req.cmd = "open_port" ∨ req.cmd = "read_port")
    (hport : req.args.strArg "port" = some p) :
    (∃ rx op, cl.session.receivers.lookup p = some rx ∧
      w.serial.ports.lookup p = some op ∧ rx.chan = op.tx) ↔
      ¬ daemon.OccurredSince (ClosedByOther c p) (AcquiresReceiver c p) es := by
  have hinv := readView_inv_of_run hrun c p cl hclient
  have hclosing : cl.closing ≠ some p := by simp [Client.closing, hreturned, Pc.closing]
  constructor
  · rintro ⟨rx, op, hrx, hop, htx⟩ hlost
    have hslot : (cl.reads p).map (fun k => (k, ())) = some (op.tx, ()) := by
      simp [Client.reads, ClientSession.reads, hrx, htx]
    exact hinv.stale (Or.inl hlost) op.tx (Or.inl ⟨(), hslot⟩) (by simp [Client.readView, hop])
  · intro hkept
    have hsome := ((answering_of_run hrun c p cl hclient).answered req resp hreturned hok hcmd
      hport).resolve_right hkept
    have hrecord : (cl.reads p).map (fun _ => ()) = some () := by
      obtain ⟨k, hk⟩ := Option.isSome_iff_exists.mp hsome
      rw [hk, Option.map_some]
    have hpending : (cl.readView p w.serial (daemon.OccurredSince (ClosedByOther c p)
        (AcquiresReceiver c p) es)).pending = [] := by
      simp [Client.readView, hclosing]
    obtain ⟨k, hcurrent, hslot⟩ := (hinv.served_iff hpending hrecord).mpr
      (not_or.mpr ⟨hkept, hclosing⟩)
    obtain ⟨op, hop, rfl⟩ := Option.map_eq_some_iff.mp hcurrent
    obtain ⟨k, hk, heq⟩ := Option.map_eq_some_iff.mp hslot
    obtain ⟨rx, hrx, rfl⟩ := Option.map_eq_some_iff.mp hk
    exact ⟨rx, op, hrx, hop, (Prod.mk.inj heq).1⟩

/-- Client 0 opens a port, client 1 closes it and opens it again, and client 0
reads it. -/
def readAfterReopening : List Event :=
  [.connect 0, .connect 1] ++ issue 0 (portRequest "open_port" "P") 2 ++
    issue 1 (portRequest "close_port" "P") 2 ++ [.endReadTask 0] ++
    issue 1 (portRequest "open_port" "P") 2 ++ issue 0 (portRequest "read_port" "P") 2

/-- Client 0 has the answer of a read, and its receiver is of channel 0 while the
port has channel 1. -/
def readsOldChannel (w : World) : Bool :=
  (w.serial.ports.lookup "P").any (fun op => op.tx == 1) && (w.clients 0).any fun cl =>
    cl.reads "P" == some 0 && cl.dispatch.any fun x =>
      x.1.cmd == "read_port" && x.1.args.strArg "port" == some "P" && match x.2 with
        | .reply resp => resp.ok
        | _ => false

private theorem readAfterReopening_readsOldChannel :
    (daemon.run readAfterReopening).any readsOldChannel = true := by
  decide +kernel

/-- What the run reaches, as propositions. -/
theorem exists_readsOldChannel : ∃ w cl req resp op,
    daemon.run readAfterReopening = some w ∧ w.clients 0 = some cl ∧
    cl.dispatch = some (req, .reply resp) ∧ resp.ok = true ∧ req.cmd = "read_port" ∧
    req.args.strArg "port" = some "P" ∧ cl.reads "P" = some 0 ∧
    w.serial.ports.lookup "P" = some op ∧ op.tx = 1 := by
  obtain ⟨w, hw, htest⟩ := (Option.any_eq_true _ _).mp readAfterReopening_readsOldChannel
  simp only [readsOldChannel, Bool.and_eq_true] at htest
  obtain ⟨hopen, hany⟩ := htest
  obtain ⟨op, hop, htx⟩ := (Option.any_eq_true _ _).mp hopen
  obtain ⟨cl, hcl, htest⟩ := (Option.any_eq_true _ _).mp hany
  simp only [Bool.and_eq_true, beq_iff_eq] at htest
  obtain ⟨hreads, hany⟩ := htest
  obtain ⟨⟨req, pc⟩, hpc, htest⟩ := (Option.any_eq_true _ _).mp hany
  simp only [Bool.and_eq_true, beq_iff_eq] at htest
  obtain ⟨⟨hcmd, hport⟩, hresp⟩ := htest
  cases pc with
  | reply resp =>
      exact ⟨w, cl, req, resp, op, hw, hcl, hpc, hresp, hcmd, hport, hreads, hop,
        by simpa using htx⟩
  | _ => simp at hresp

/-- A successful read from a channel that the port no longer has. -/
theorem reads_not_always_current :
    ¬ ∀ es w c cl req resp p, daemon.run es = some w → w.clients c = some cl →
      cl.dispatch = some (req, .reply resp) → resp.ok = true →
      (req.cmd = "open_port" ∨ req.cmd = "read_port") → req.args.strArg "port" = some p →
      ∃ rx op, cl.session.receivers.lookup p = some rx ∧
        w.serial.ports.lookup p = some op ∧ rx.chan = op.tx := by
  intro hcurrent
  obtain ⟨w, cl, req, resp, op, hw, hcl, hpc, hok, hcmd, hport, hreads, hop, htx⟩ :=
    exists_readsOldChannel
  obtain ⟨rx, op', hrx, hop', heq⟩ := hcurrent readAfterReopening w 0 cl req resp "P" hw hcl hpc
    hok (Or.inr hcmd) hport
  obtain rfl := Option.some.inj (hop.symm.trans hop')
  simp only [Client.reads, ClientSession.reads, hrx, Option.map_some, Option.some.injEq] at hreads
  rw [hreads, htx] at heq
  exact absurd heq (by decide)

/-- The theorem at the run that reads after the port was opened again. -/
theorem reads_current_iff_reopened : ∃ w cl, daemon.run readAfterReopening = some w ∧
    w.clients 0 = some cl ∧
    ((∃ rx op, cl.session.receivers.lookup "P" = some rx ∧
      w.serial.ports.lookup "P" = some op ∧ rx.chan = op.tx) ↔
      ¬ daemon.OccurredSince (ClosedByOther 0 "P") (AcquiresReceiver 0 "P")
        readAfterReopening) := by
  obtain ⟨w, cl, req, resp, op, hw, hcl, hpc, hok, hcmd, hport, -⟩ := exists_readsOldChannel
  exact ⟨w, cl, hw, hcl, reads_current_iff hw hcl hpc hok (Or.inr hcmd) hport⟩

end Commmon

/-
# What a session promises and what its streaming task does

The results about runs of the daemon that follow from the mirror of a
registration. One direction always holds: what the queue makes of the task's
maps is registered in the session. The other direction fails behind the client's
back. A session learns of a close only when it closes the port itself, while the
task drops a registration whenever the channel closes, so after another client
has closed a port and anyone has opened it again, the session believes in a
registration that nothing serves.
-/

import Commmon.Registrations

set_option autoImplicit false

namespace Commmon

open Mirror (applyAll applyAll_of_none)

/-- A task that has returned holds nothing, and nothing is queued for it. -/
def Client.Halted (cl : Client) : Prop :=
  cl.task.isEnded = true → cl.task.maps = ⟨∅, ∅⟩ ∧ cl.queue = []

private theorem StreamTask.isEnded_of_ne {maps : TaskMaps} {pc : TaskPc} (h : pc ≠ .ended) :
    StreamTask.isEnded ⟨maps, pc⟩ = false := by
  cases pc with
  | ended => exact absurd rfl h
  | _ => rfl

theorem StreamTask.Moves.ended {m : SerialManager} {t t' : StreamTask}
    {queue queue' : List RxSubCommand} {lines : List Push}
    (h : t.Moves m queue t' queue' lines) (hended : t'.isEnded = true) :
    t' = .stopped ∧ queue' = [] := by
  cases h with
  | died => exact ⟨rfl, rfl⟩
  | applied cmd rest hqueue hrx hfilters => simp [StreamTask.isEnded] at hended
  | went pc lines hlive hrx hfilters => simp [isEnded_of_ne hlive] at hended
  | rxReceived port rx next pc hlive hlookup hrx hfilters =>
      simp [isEnded_of_ne hlive] at hended
  | rxNoticed port rx pc hlive hlookup hclosed hrx hfilters =>
      simp [isEnded_of_ne hlive] at hended
  | rxDropped pc hlive hrx hfilters => simp [isEnded_of_ne hlive] at hended
  | filterReceived port st st' pc hlive hlookup hchan hkeywords hrx hfilters =>
      simp [isEnded_of_ne hlive] at hended
  | filterNoticed port st pc hlive hlookup hclosed hrx hfilters =>
      simp [isEnded_of_ne hlive] at hended
  | filterDropped pc hlive hrx hfilters => simp [isEnded_of_ne hlive] at hended

/-- Only a running task is sent anything. -/
theorem Client.Advances.queue_eq {m : SerialManager} {cl cl' : Client} {req : Request} {pc : Pc}
    (h : cl.Advances m req pc cl') (hended : cl.task.isEnded = true) : cl'.queue = cl.queue := by
  cases h with
  | sent cmd success hlive => exact absurd (hended.symm.trans hlive) (by simp)
  | told cmd next hlive => exact absurd (hended.symm.trans hlive) (by simp)
  | _ => rfl

theorem Client.Steps.halted {m m' : SerialManager} {cl cl' : Client} {ce : ClientEvent}
    (h : cl.Steps m ce m' cl') (hcl : cl.Halted) : cl'.Halted := by
  cases h with
  | began req env m' s' pc hidle hbegins => exact hcl
  | advanced req pc cl' hpc hadvances =>
      intro hended
      rw [hadvances.task_eq] at hended ⊢
      rw [hadvances.queue_eq hended]
      exact hcl hended
  | streamed order writeOk task queue lines hrunning hmoves =>
      intro hended
      obtain ⟨rfl, rfl⟩ := hmoves.ended hended
      exact ⟨rfl, rfl⟩

theorem halted_of_run {es : List Event} {w : World} (hrun : daemon.run es = some w)
    {c : ClientId} {cl : Client} (hclient : w.clients c = some cl) : cl.Halted := by
  refine client_history (P := fun _ _ cl => cl.Halted) ?_ ?_ ?_ ?_ hrun hclient
  · intro es w
    simp [Client.Halted, Client.new, StreamTask.new, StreamTask.isEnded]
  · intro es w w' cl _ _ _
    exact ⟨rfl, rfl⟩
  · intro es w w' cl cl' ce _ _ _ _ _ hsteps ih
    exact hsteps.halted ih
  · intro es w w' e cl _ _ _ _ _ ih
    exact ih

/-- Dispatch is not in the middle of a command. It may have returned a response
that is not written yet. -/
def Client.Idle (cl : Client) : Prop :=
  ∀ req pc, cl.dispatch = some (req, pc) → ∃ resp, pc = .reply resp

theorem Client.Idle.unsent_eq {cl : Client} (h : cl.Idle) : cl.unsent = [] := by
  unfold unsent
  split
  · rename_i req pc hpc
    obtain ⟨resp, rfl⟩ := h req pc hpc
    rfl
  · rfl

/-- What the queued commands make of the task's slot is registered. -/
theorem Feed.record_of_queued {β : Type} {F : Feed β} {p : String} (hF : F.Lawful p)
    (htracked : F.Tracked p) {c : ClientId} {es : List Event} {w : World} {cl : Client}
    (hrun : daemon.run es = some w) (hclient : w.clients c = some cl) (hidle : cl.Idle)
    (k : ChannelId) (value : β)
    (hslot : F.slot (cl.queue.foldl TaskMaps.apply cl.task.maps) = some (k, value)) :
    F.record cl.session = some value := by
  cases hended : cl.task.isEnded with
  | true =>
      obtain ⟨hmaps, hqueue⟩ := halted_of_run hrun hclient hended
      rw [hmaps, hqueue] at hslot
      exact absurd (hF.slot_new.symm.trans hslot) (by simp)
  | false =>
      have hinv := Feed.inv_of_run hF htracked hrun cl hclient hended
      apply hinv.mirrored k value
      rw [hF.slot_foldl] at hslot
      simpa [Mirror.View.effective, Feed.view, Client.pending, hidle.unsent_eq] using hslot

/-- The streaming task never runs ahead of the session. In every reachable
world, applying the commands that are still queued leaves only receivers of
subscribed ports, and only filters that are registered, with the registered
keywords. -/
theorem task_within_session {es : List Event} {w : World} (hrun : daemon.run es = some w)
    {c : ClientId} {cl : Client} (hclient : w.clients c = some cl) (hidle : cl.Idle) :
    (∀ p rx, (cl.queue.foldl TaskMaps.apply cl.task.maps).rxReceivers.lookup p = some rx →
      p ∈ cl.session.rxSubscriptions) ∧
    (∀ p st, (cl.queue.foldl TaskMaps.apply cl.task.maps).filterStates.lookup p = some st →
      cl.session.filterSubscriptions.lookup p = some st.keywords) := by
  constructor
  · intro p rx hrx
    have hrecord := Feed.record_of_queued (rxFeed_lawful p) (rxFeed_tracked p) hrun hclient
      hidle rx.chan () (by simp [rxFeed, hrx])
    by_contra hnot
    simp [rxFeed, hnot] at hrecord
  · intro p st hst
    exact Feed.record_of_queued (filterFeed_lawful p) (filterFeed_tracked p) hrun hclient
      hidle st.rx.chan st.keywords (by simp [filterFeed, hst])

/-- A request that names a port. -/
def portRequest (cmd port : String) : Request := ⟨cmd, .object [("port", .string port)]⟩

/-- A request, with a device that opens, and `n` steps of its dispatch. -/
def issue (c : ClientId) (req : Request) (n : ℕ) : List Event :=
  .client c (.request req ⟨.ok (), .successMsg ""⟩) :: List.replicate n (.client c .dispatch)

/-- A step of a streaming task that visits the ports in this order. -/
def stream (c : ClientId) (order : List String) : Event := .client c (.task order true)

/-- A subscription that the streaming task has not applied yet. -/
def queuedSubscription : List Event :=
  [.connect 0] ++ issue 0 (portRequest "open_port" "P") 2 ++
    issue 0 (portRequest "subscribe_rx" "P") 3

private theorem queuedSubscription_queued : (daemon.run queuedSubscription).any (fun w =>
    (w.clients 0).any fun cl => cl.dispatch.isNone && cl.queue.length == 1 &&
      ((cl.queue.foldl TaskMaps.apply cl.task.maps).rxReceivers.lookup "P").isSome) = true := by
  decide +kernel

/-- The theorem while a subscription is queued. -/
theorem task_within_session_queued : ∃ w cl rx, daemon.run queuedSubscription = some w ∧
    w.clients 0 = some cl ∧
    (cl.queue.foldl TaskMaps.apply cl.task.maps).rxReceivers.lookup "P" = some rx ∧
    "P" ∈ cl.session.rxSubscriptions := by
  obtain ⟨w, hw, hany⟩ := (Option.any_eq_true _ _).mp queuedSubscription_queued
  obtain ⟨cl, hcl, htest⟩ := (Option.any_eq_true _ _).mp hany
  simp only [Bool.and_eq_true, Option.isNone_iff_eq_none] at htest
  obtain ⟨⟨hnone, -⟩, hsome⟩ := htest
  obtain ⟨rx, hrx⟩ := Option.isSome_iff_exists.mp hsome
  have hidle : cl.Idle := fun req pc hpc => by simp [hnone] at hpc
  exact ⟨w, cl, rx, hw, hcl, hrx, (task_within_session hw hcl hidle).1 "P" rx hrx⟩

theorem Pc.Closes.closing {port : String} {pc : Pc} (h : pc.Closes port) :
    pc.closing = some port := by
  induction pc with
  | onPortClosed q resp => exact congrArg some h.1
  | tell cmd next ih => exact ih h.2
  | _ => exact h.elim

theorem Pc.Closes.unsent {port : String} {pc : Pc} (h : pc.Closes port) :
    ∀ cmd ∈ pc.unsent, cmd = .unsubscribe port ∨ cmd = .removeFilter port := by
  induction pc with
  | onPortClosed q resp => exact fun cmd hmem => absurd hmem (by simp [Pc.unsent])
  | tell cmd next ih =>
      intro cmd' hmem
      rcases List.mem_cons.mp hmem with rfl | hrest
      · exact h.1
      · exact ih h.2 cmd' hrest
  | _ => exact h.elim

/-- Only `close_port` leads to a session forgetting a port. -/
theorem Pc.Fits.of_closing {req : Request} {pc : Pc} {p : String} (h : pc.Fits req)
    (hclosing : pc.closing = some p) :
    req.cmd = "close_port" ∧ req.args.strArg "port" = some p := by
  cases h with
  | closing hcmd hport hcloses =>
      obtain rfl := Option.some.inj (hcloses.closing.symm.trans hclosing)
      exact ⟨hcmd, hport⟩
  | _ => simp [Pc.closing] at hclosing

/-- Only `subscribe_rx` has a subscription to send. -/
theorem Pc.Fits.of_subscribe_mem {req : Request} {pc : Pc} {p : String} {rx : Receiver}
    (h : pc.Fits req) (hmem : .subscribe p rx ∈ pc.unsent) :
    req.cmd = "subscribe_rx" ∧ req.args.strArg "port" = some p := by
  cases h with
  | closing hcmd hport hcloses =>
      rcases hcloses.unsent _ hmem with h | h <;> exact absurd h (by simp)
  | subscribeSend hcmd hport =>
      obtain ⟨rfl, rfl⟩ : p = _ ∧ rx = _ := by simpa [Pc.unsent] using hmem
      exact ⟨hcmd, hport⟩
  | dropping hcmd hdrop =>
      rcases hdrop with rfl | rfl <;> simp [Pc.unsent] at hmem
  | _ => simp [Pc.unsent] at hmem

/-- The client is in the middle of its own `subscribe_rx` or `close_port` of `p`. -/
def Client.Midway (cl : Client) (p : String) : Prop :=
  ∃ req pc, cl.dispatch = some (req, pc) ∧ (∀ resp, pc ≠ .reply resp) ∧
    (req.cmd = "subscribe_rx" ∨ req.cmd = "close_port") ∧ req.args.strArg "port" = some p

private theorem Client.midway_of_closing {cl : Client} {p : String}
    (hfits : ∀ req pc, cl.dispatch = some (req, pc) → pc.Fits req)
    (hclosing : cl.closing = some p) : cl.Midway p := by
  rcases hpc : cl.dispatch with - | ⟨req, pc⟩
  · simp [Client.closing, hpc] at hclosing
  · simp only [Client.closing, hpc] at hclosing
    obtain ⟨hcmd, hport⟩ := (hfits req pc hpc).of_closing hclosing
    refine ⟨req, pc, hpc, ?_, Or.inr hcmd, hport⟩
    rintro resp rfl
    simp [Pc.closing] at hclosing

private theorem Client.midway_of_subscribe_mem {cl : Client} {p : String} {rx : Receiver}
    (hfits : ∀ req pc, cl.dispatch = some (req, pc) → pc.Fits req)
    (hmem : .subscribe p rx ∈ cl.unsent) : cl.Midway p := by
  rcases hpc : cl.dispatch with - | ⟨req, pc⟩
  · simp [Client.unsent, hpc] at hmem
  · simp only [Client.unsent, hpc] at hmem
    obtain ⟨hcmd, hport⟩ := (hfits req pc hpc).of_subscribe_mem hmem
    refine ⟨req, pc, hpc, ?_, Or.inl hcmd, hport⟩
    rintro resp rfl
    simp [Pc.unsent] at hmem

/-- The slot once the queue has been applied, without what is still unsent. -/
def Feed.queued {β : Type} (F : Feed β) (cl : Client) : Option (ℕ × β) :=
  applyAll (cl.queue.filterMap F.command) (F.slot cl.task.maps)

/-- A task applies a command, or drops a slot, or leaves it. -/
theorem rxFeed_slot_moves {p : String} {m : SerialManager} {t t' : StreamTask}
    {queue queue' : List RxSubCommand} {lines : List Push}
    (hmoves : t.Moves m queue t' queue' lines) :
    (∃ cmd, queue = cmd :: queue' ∧ t'.maps = t.maps.apply cmd) ∨
    queue' = [] ∧ (rxFeed p).slot t'.maps = none ∨
    queue' = queue ∧ ((rxFeed p).slot t'.maps = (rxFeed p).slot t.maps ∨
      (rxFeed p).slot t'.maps = none) := by
  cases hmoves with
  | died => exact Or.inr (Or.inl ⟨rfl, (rxFeed_lawful p).slot_new⟩)
  | applied cmd rest hqueue hrx hfilters => exact Or.inl ⟨cmd, hqueue, rfl⟩
  | rxReceived port rx next pc hlive hlookup hrx hfilters =>
      refine Or.inr (Or.inr ⟨rfl, Or.inl ?_⟩)
      by_cases hp : p = port
      · subst hp
        simp [rxFeed, hlookup]
      · simp [rxFeed, hp]
  | rxDropped pc hlive hrx hfilters =>
      refine Or.inr (Or.inr ⟨rfl, ?_⟩)
      by_cases hp : p ∈ t.pc.closedRx
      · exact Or.inr (by simp [rxFeed, Table.lookup_eraseAll, hp])
      · exact Or.inl (by simp [rxFeed, Table.lookup_eraseAll, hp])
  | _ => exact Or.inr (Or.inr ⟨rfl, Or.inl rfl⟩)

private theorem rxFeed_queued_streamed {p : String} {m : SerialManager} {cl : Client}
    {task : StreamTask} {queue : List RxSubCommand} {lines : List Push}
    (hmoves : cl.task.Moves m cl.queue task queue lines) (written : List Outgoing)
    (hnone : (rxFeed p).queued cl = none) :
    (rxFeed p).queued { cl with task := task, queue := queue, written := written } = none := by
  unfold Feed.queued at hnone ⊢
  obtain ⟨cmd, hqueue, hmaps⟩ | ⟨rfl, hslot⟩ | ⟨rfl, hslot | hslot⟩ :=
    rxFeed_slot_moves (p := p) hmoves
  · simp only [hmaps, (rxFeed_lawful p).slot_apply]
    rw [hqueue, List.filterMap_cons] at hnone
    rcases hcmd : (rxFeed p).command cmd with - | c
    · simpa [hcmd] using hnone
    · simpa [hcmd] using hnone
  · exact hslot
  · simp only [hslot]
    exact hnone
  · simp only [hslot]
    -- Commands that lead somewhere from nothing would have led there before.
    rcases h : applyAll (cl.queue.filterMap (rxFeed p).command) none with - | x
    · rfl
    · exact absurd (hnone.symm.trans (applyAll_of_none h _)) (by simp)

/-- Until `subscribe_rx` has sent its receiver, nothing serves the port. -/
structure Client.Subscribing (cl : Client) (p : String) : Prop where
  unrecorded : ∀ req, cl.dispatch = some (req, .subscribeTake p) →
    p ∉ cl.session.rxSubscriptions
  unserved : ∀ req rx success, cl.dispatch = some (req, .send (.subscribe p rx) success) →
    (rxFeed p).queued cl = none

private theorem Dispatch.Begins.keeps_subscribing {m m' : SerialManager} {cl : Client}
    {s' : ClientSession}
    {req : Request} {pc : Pc} {p : String} (h : Begins m cl.session req m' s' pc) :
    Client.Subscribing { cl with session := s', dispatch := some (req, pc) } p := by
  cases h with
  | subscribing port hcmd hport hnew =>
      refine ⟨fun req' hpc => ?_, fun req' rx success hpc => by simp at hpc⟩
      obtain ⟨-, rfl⟩ : req = req' ∧ port = p := by simpa using hpc
      exact hnew
  | closed port op resp hcmd hport hopen hok =>
      have hcloses : (closeSends cl.session port resp).Closes port :=
        closeSends_closes cl.session hok
      refine ⟨fun req' hpc => ?_, fun req' rx success hpc => ?_⟩
      · rw [(Prod.mk.inj (Option.some.inj hpc)).2] at hcloses
        exact hcloses.elim
      · rw [(Prod.mk.inj (Option.some.inj hpc)).2] at hcloses
        exact hcloses.elim
  | _ => exact ⟨fun req' hpc => by simp at hpc, fun req' rx success hpc => by simp at hpc⟩

/-- A step of a command keeps it, given what the mirror says before the step. -/
theorem Client.Advances.keeps_subscribing {m : SerialManager} {cl cl' : Client} {req : Request}
    {pc : Pc} {p : String} {lost : Prop} (h : cl.Advances m req pc cl')
    (hpc : cl.dispatch = some (req, pc)) (hfits : pc.Fits req) (hcl : cl.Subscribing p)
    (hinv : ((rxFeed p).view p m cl lost).Inv) : cl'.Subscribing p := by
  have hnext : ∀ cmd next, pc = .tell cmd next → next = .subscribeTake p ∨
      (∃ rx success, next = .send (.subscribe p rx) success) → False := by
    rintro cmd next rfl hnext
    cases hfits with
    | closing hcmd hport hcloses =>
        rcases hnext with rfl | ⟨rx, success, rfl⟩ <;> exact hcloses.2.elim
    | dropping hcmd hdrop => simp at hnext
  cases h with
  | subscribed port success op hop =>
      refine ⟨fun req' hpc' => by simp at hpc', fun req' rx success' hpc' => ?_⟩
      obtain ⟨-, ⟨rfl, -⟩, -⟩ : req = req' ∧ (port = p ∧ _) ∧ _ := by simpa using hpc'
      have hnew := hcl.unrecorded req hpc
      rcases heff : (rxFeed port).queued cl with - | ⟨k, value⟩
      · exact heff
      · have hrecord := hinv.mirrored k value (by
          simpa [Feed.queued, Mirror.View.effective, Feed.view, Client.pending, Client.unsent,
            hpc, Pc.unsent] using heff)
        simp [Feed.view, rxFeed, hnew] at hrecord
  | drained port clear s hround hpc' =>
      refine ⟨fun req' h => ?_, fun req' rx success h => ?_⟩
      · simp [hpc'] at h
      · simp [hpc'] at h
  | ignored cmd next hended =>
      refine ⟨fun req' h => ?_, fun req' rx success h => ?_⟩
      · exact (hnext cmd next rfl (Or.inl (Prod.mk.inj (Option.some.inj h)).2)).elim
      · exact (hnext cmd next rfl
          (Or.inr ⟨rx, success, (Prod.mk.inj (Option.some.inj h)).2⟩)).elim
  | told cmd next hlive =>
      refine ⟨fun req' h => ?_, fun req' rx success h => ?_⟩
      · exact (hnext cmd next rfl (Or.inl (Prod.mk.inj (Option.some.inj h)).2)).elim
      · exact (hnext cmd next rfl
          (Or.inr ⟨rx, success, (Prod.mk.inj (Option.some.inj h)).2⟩)).elim
  | _ => exact ⟨fun req' h => by simp at h, fun req' rx success h => by simp at h⟩

private theorem Client.Steps.keeps_subscribing {m m' : SerialManager} {cl cl' : Client}
    {ce : ClientEvent}
    {p : String} {lost : Prop} (h : cl.Steps m ce m' cl') (hcl : cl.Subscribing p)
    (hfits : ∀ req pc, cl.dispatch = some (req, pc) → pc.Fits req)
    (hinv : ((rxFeed p).view p m cl lost).Inv) : cl'.Subscribing p := by
  cases h with
  | began req env m' s' pc hidle hbegins => exact hbegins.keeps_subscribing
  | advanced req pc cl' hpc hadvances =>
      exact hadvances.keeps_subscribing hpc (hfits req pc hpc) hcl hinv
  | streamed order writeOk task queue lines hrunning hmoves =>
      exact ⟨hcl.unrecorded, fun req rx success hpc =>
        rxFeed_queued_streamed hmoves _ (hcl.unserved req rx success hpc)⟩

private theorem subscribing_of_run {es : List Event} {w : World} (hrun : daemon.run es = some w)
    {c : ClientId} (p : String) : ∀ cl, w.clients c = some cl → cl.task.isEnded = false →
      cl.Subscribing p := by
  intro cl hclient
  refine client_history (P := fun _ _ cl => cl.task.isEnded = false → cl.Subscribing p)
    ?_ ?_ ?_ ?_ hrun hclient
  · intro es w _
    exact ⟨fun req h => by simp [Client.new] at h, fun req rx s h => by simp [Client.new] at h⟩
  · intro es w w' cl _ _ _
    exact ⟨fun req h => by simp [Client.disconnect] at h,
      fun req rx s h => by simp [Client.disconnect] at h⟩
  · intro es w w' cl cl' ce hes _ hclient _ _ hsteps ih hlive
    have hrunning := hsteps.running hlive
    exact hsteps.keeps_subscribing (ih hrunning) (fun req pc hpc => fits_of_run hes hclient hpc)
      (Feed.inv_of_run (rxFeed_lawful p) (rxFeed_tracked p) hes cl hclient hrunning)
  · intro es w w' e cl _ _ _ _ _ ih
    exact ih

/-- What is left to send for a subscription, outside its own `subscribe_rx`, does
not set the slot. -/
theorem Feed.slot_of_live {p : String} {cl : Client} {k : ChannelId}
    (hsends : ∀ rx, .subscribe p rx ∉ cl.unsent)
    (heff : applyAll (cl.unsent.filterMap (rxFeed p).command)
      ((rxFeed p).slot cl.task.maps) = some (k, ())) :
    (rxFeed p).slot cl.task.maps = some (k, ()) := by
  have hset : ∀ g b, Mirror.Command.set g b ∉ cl.unsent.filterMap (rxFeed p).command := by
    intro g b hmem
    obtain ⟨cmd, hcmd, hset⟩ := List.mem_filterMap.mp hmem
    cases cmd with
    | subscribe port rx =>
        by_cases hp : port = p
        · exact hsends rx (hp ▸ hcmd)
        · simp [rxFeed, hp] at hset
    | unsubscribe port => by_cases hp : port = p <;> simp [rxFeed, hp] at hset
    | _ => simp [rxFeed] at hset
  obtain ⟨old, hslot⟩ := Mirror.slot_of_applyAll hset heff
  exact hslot

/-- When a subscription is served. For an open port that the session has
subscribed, with nothing queued, the task holds a receiver of the current channel
exactly if no other client has closed the port since the receiver was taken, and
the client is not in the middle of subscribing or closing it itself. -/
theorem subscription_served_iff {es : List Event} {w : World}
    (hrun : daemon.run es = some w) {c : ClientId} {cl : Client}
    (hclient : w.clients c = some cl) (hlive : cl.task.isEnded = false)
    (hqueue : cl.queue = []) {p : String} (hsub : p ∈ cl.session.rxSubscriptions)
    {op : OpenPort} (hopen : w.serial.ports.lookup p = some op) :
    (∃ rx, cl.task.maps.rxReceivers.lookup p = some rx ∧ rx.chan = op.tx) ↔
      ¬ daemon.OccurredSince (ClosedByOther c p) (SubscribeTakes c p) es ∧ ¬ cl.Midway p := by
  have hinv := Feed.inv_of_run (rxFeed_lawful p) (rxFeed_tracked p) (c := c) hrun cl hclient hlive
  have hfits : ∀ req pc, cl.dispatch = some (req, pc) → pc.Fits req :=
    fun req pc hpc => fits_of_run hrun hclient hpc
  have hcurrent : (w.serial.ports.lookup p).map OpenPort.tx = some op.tx := by rw [hopen]; rfl
  constructor
  · rintro ⟨rx, hrx, htx⟩
    have hslot : (rxFeed p).slot cl.task.maps = some (op.tx, ()) := by simp [rxFeed, hrx, htx]
    have hgood := fun hbad => hinv.stale hbad op.tx (Or.inl ⟨(), hslot⟩) hcurrent
    refine ⟨fun hlost => hgood (Or.inl hlost), ?_⟩
    rintro ⟨req, pc, hpc, hnot, hcmd, hport⟩
    have hsubscribing := subscribing_of_run hrun p cl hclient hlive
    have hpcfits := hfits req pc hpc
    cases hpcfits with
    | closing hclose hport' hcloses =>
        obtain rfl := Option.some.inj (hport.symm.trans hport')
        have hclosing : cl.closing = some p := by
          simpa [Client.closing, hpc] using hcloses.closing
        exact hgood (Or.inr hclosing)
    | subscribeTake hcmd' hport' =>
        obtain rfl := Option.some.inj (hport.symm.trans hport')
        exact hsubscribing.unrecorded req hpc hsub
    | subscribeSend hcmd' hport' =>
        obtain rfl := Option.some.inj (hport.symm.trans hport')
        have hnone := hsubscribing.unserved req _ _ hpc
        simp [Feed.queued, hqueue, hslot] at hnone
    | filterTake hcmd' hport' hkeywords => rcases hcmd with h | h <;> simp [h] at hcmd'
    | filterSend hcmd' hport' hkeywords => rcases hcmd with h | h <;> simp [h] at hcmd'
    | dropping hcmd' hdrop => rcases hcmd with h | h <;> simp [h] at hcmd'
    | reply => exact hnot _ rfl
    | openEnsure hcmd' hport' hok => rcases hcmd with h | h <;> simp [h] at hcmd'
    | extendSend hcmd' hport' => rcases hcmd with h | h <;> simp [h] at hcmd'
    | readEnsure hcmd' hport' hclear => rcases hcmd with h | h <;> simp [h] at hcmd'
    | drain hcmd' hport' hclear => rcases hcmd with h | h <;> simp [h] at hcmd'
  · rintro ⟨hlost, hmid⟩
    have hclosing : cl.closing ≠ some p := fun h => hmid (Client.midway_of_closing hfits h)
    have hrecord : (rxFeed p).record cl.session = some () := by simp [rxFeed, hsub]
    obtain ⟨k, hk, heff⟩ := hinv.live () hrecord hlost hclosing
    obtain rfl : op.tx = k := Option.some.inj (hcurrent.symm.trans hk)
    have hslot : (rxFeed p).slot cl.task.maps = some (op.tx, ()) := by
      refine Feed.slot_of_live (fun rx hmem => ?_) ?_
      · exact hmid (Client.midway_of_subscribe_mem hfits hmem)
      · simpa [Mirror.View.effective, Feed.view, Client.pending, hqueue] using heff
    simpa [rxFeed] using hslot

/-- Client 0 subscribes a port, client 1 closes it, the task drops its receiver,
and client 1 opens the port again. Client 0 then tries to subscribe. -/
def reopenedByOther : List Event :=
  [.connect 0, .connect 1] ++ issue 0 (portRequest "open_port" "P") 2 ++
    issue 0 (portRequest "subscribe_rx" "P") 3 ++ [stream 0 []] ++
    issue 1 (portRequest "close_port" "P") 2 ++ [.endReadTask 0] ++
    [stream 0 ["P"], stream 0 [], stream 0 []] ++
    issue 1 (portRequest "open_port" "P") 2 ++
    issue 0 (portRequest "subscribe_rx" "P") 1

/-- Client 0 is subscribed to an open port, nothing is on its way, the task holds
no receiver at all, and the last answer was that the subscription is there. -/
def believesUnserved (w : World) : Bool :=
  (w.serial.ports.lookup "P").isSome &&
    (w.clients 0).any fun cl =>
      cl.dispatch.isNone && cl.queue.isEmpty && !cl.task.isEnded &&
        cl.task.maps.rxReceivers.keys.isEmpty && decide ("P" ∈ cl.session.rxSubscriptions) &&
        cl.returns.getLast?.any fun r => r.2.error == some "P는 이미 구독 중입니다."

private theorem reopenedByOther_believesUnserved :
    (daemon.run reopenedByOther).any believesUnserved = true := by
  decide +kernel

/-- What the run of `believesUnserved` reaches, as propositions. -/
theorem exists_believesUnserved : ∃ w cl op, daemon.run reopenedByOther = some w ∧
    w.clients 0 = some cl ∧ cl.dispatch = none ∧ cl.queue = [] ∧ cl.task.isEnded = false ∧
    (∀ q, cl.task.maps.rxReceivers.lookup q = none) ∧ "P" ∈ cl.session.rxSubscriptions ∧
    w.serial.ports.lookup "P" = some op := by
  obtain ⟨w, hw, hbool⟩ := (Option.any_eq_true _ _).mp reopenedByOther_believesUnserved
  simp only [believesUnserved, Bool.and_eq_true] at hbool
  obtain ⟨hopen, hany⟩ := hbool
  obtain ⟨cl, hcl, htest⟩ := (Option.any_eq_true _ _).mp hany
  obtain ⟨op, hop⟩ := Option.isSome_iff_exists.mp hopen
  simp only [Bool.and_eq_true, Bool.not_eq_true', decide_eq_true_eq, Option.isNone_iff_eq_none,
    List.isEmpty_iff] at htest
  obtain ⟨⟨⟨⟨⟨hidle, hqueue⟩, hlive⟩, hkeys⟩, hsub⟩, -⟩ := htest
  refine ⟨w, cl, op, hw, hcl, hidle, hqueue, hlive, fun q => ?_, hsub, hop⟩
  rw [AList.lookup_eq_none, AList.mem_keys, hkeys]
  exact List.not_mem_nil

/-- A subscription of an open port that the streaming task, which has noticed
every closed channel, does not serve. -/
theorem subscription_not_always_served :
    ¬ ∀ es w c cl p op, daemon.run es = some w → w.clients c = some cl →
      cl.dispatch = none → cl.queue = [] → cl.task.isEnded = false →
      (∀ q rx, cl.task.maps.rxReceivers.lookup q = some rx →
        (w.serial.channels rx.chan).isClosed = false) →
      p ∈ cl.session.rxSubscriptions → w.serial.ports.lookup p = some op →
      ∃ rx, cl.task.maps.rxReceivers.lookup p = some rx ∧ rx.chan = op.tx := by
  intro hserved
  obtain ⟨w, cl, op, hw, hcl, hidle, hqueue, hlive, hnone, hsub, hop⟩ := exists_believesUnserved
  obtain ⟨rx, hrx, -⟩ := hserved reopenedByOther w 0 cl "P" op hw hcl hidle hqueue hlive
    (fun q rx hrx => by simp [hnone q] at hrx) hsub hop
  simp [hnone "P"] at hrx

/-- The theorem at the run in which the port was closed and opened again. -/
theorem subscription_served_iff_reopened : ∃ w cl op, daemon.run reopenedByOther = some w ∧
    w.clients 0 = some cl ∧ w.serial.ports.lookup "P" = some op ∧
    ((∃ rx, cl.task.maps.rxReceivers.lookup "P" = some rx ∧ rx.chan = op.tx) ↔
      ¬ daemon.OccurredSince (ClosedByOther 0 "P") (SubscribeTakes 0 "P") reopenedByOther ∧
        ¬ cl.Midway "P") := by
  obtain ⟨w, cl, op, hw, hcl, -, hqueue, hlive, -, hsub, hop⟩ := exists_believesUnserved
  exact ⟨w, cl, op, hw, hcl, hop, subscription_served_iff hw hcl hlive hqueue hsub hop⟩

end Commmon

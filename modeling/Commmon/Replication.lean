/-
# Which clients see an entry

Every client has its own copy of a port's entries, from the moment its session
takes a receiver of the port: when the client opens the port itself, or with its
first `read_port`. So an entry is in a client's next read exactly if the session
held a receiver when the entry arrived; being connected is not enough.

The runs here close no port and carry fewer entries than a buffer holds, so that no
receiver falls behind and nothing leaves a buffer before it has been read.
-/

import Commmon.ReadLog

set_option autoImplicit false

namespace Commmon

open Broadcast

/-- A request to close a port. -/
def Event.closes : Event → Bool
  | .client _ (.request req _) => req.cmd == "close_port"
  | _ => false

/-- The arrival of an entry. -/
def Event.arrives : Event → Bool
  | .deliver _ _ => true
  | _ => false

/-- The changes of the serial manager, with the event that makes them. -/
inductive SerialManager.Does (m : SerialManager) (e : Event) : SerialManager → Prop
  | kept : Does m e m
  | opened (port : String) (config : PortConfig) (hclosed : m.ports.lookup port = none) :
      Does m e (m.insertPort port config)
  | closed (port : String) (op : OpenPort) (hcloses : e.closes = true) :
      Does m e (m.removePort port op)
  | delivered (k : ChannelId) (entry : RxEntry) (harrives : e.arrives = true) :
      Does m e { m with
        channels := Function.update m.channels k ((m.channels k).send entry) }
  | ended (k : ChannelId) :
      Does m e { m with
        channels := Function.update m.channels k (m.channels k).dropSender
        readTasks := Function.update m.readTasks k .ended }

private theorem Client.Steps.does {m m' : SerialManager} {cl cl' : Client} {ce : ClientEvent}
    (h : cl.Steps m ce m' cl') (c : ClientId) : m.Does (.client c ce) m' := by
  cases h with
  | began req env m' s' pc hidle hbegins =>
      cases hbegins with
      | opened port resp hcmd hport hclosed hok => exact .opened port _ hclosed
      | closed port op resp hcmd hport hopen hok =>
          exact .closed port op (by simp [Event.closes, hcmd])
      | _ => exact .kept
  | advanced req pc cl' hpc hadvances => exact .kept
  | streamed order writeOk task queue lines hrunning hmoves => exact .kept

private theorem World.step_does {w w' : World} {e : Event} (h : w.step e = some w') :
    w.serial.Does e w'.serial := by
  cases e with
  | connect d =>
      simp only [step] at h
      split at h
      · simp at h
      · exact Option.some.inj h ▸ .kept
  | disconnect d =>
      simp only [step] at h
      split at h
      · split_ifs at h
        exact Option.some.inj h ▸ .kept
      · simp at h
  | client d ce =>
      simp only [step] at h
      split at h
      · split_ifs at h
        obtain ⟨r, hr, rfl⟩ := Option.map_eq_some_iff.mp h
        exact (Client.step_steps hr).does d
      · simp at h
  | deliver k entry =>
      obtain ⟨m, hm, rfl⟩ := Option.map_eq_some_iff.mp h
      obtain rfl := SerialManager.deliver_eq_some hm
      exact .delivered k entry rfl
  | endReadTask k =>
      obtain ⟨m, hm, rfl⟩ := Option.map_eq_some_iff.mp h
      unfold SerialManager.endReadTask at hm
      split_ifs at hm
      exact Option.some.inj hm ▸ .ended k

/-- Only a request to close takes a port out of the table. -/
theorem SerialManager.Does.ports_kept {m m' : SerialManager} {e : Event} (h : m.Does e m')
    (hopen : e.closes = false) {p : String} {op : OpenPort} (hop : m.ports.lookup p = some op) :
    m'.ports.lookup p = some op := by
  cases h with
  | opened port config hclosed =>
      have hne : p ≠ port := by
        rintro rfl
        simp [hclosed] at hop
      rw [lookup_ports_insertPort, if_neg hne, hop]
  | closed port op hcloses => simp [hopen] at hcloses
  | _ => exact hop

/-- Only an arrival adds to a channel. -/
theorem SerialManager.Does.tail_le {m m' : SerialManager} {e : Event} (h : m.Does e m')
    (k : ChannelId) :
    (m'.channels k).tail ≤ (m.channels k).tail + if e.arrives = true then 1 else 0 := by
  cases h with
  | kept => exact Nat.le_add_right _ _
  | opened port config hclosed =>
      by_cases hk : k = m.fresh
      · simp [insertPort, hk, Channel.tail, Channel.new]
      · simp [insertPort, hk]
  | closed port op hcloses =>
      by_cases hk : k = op.tx
      · simp [removePort, hk]
      · simp [removePort, hk]
  | delivered k' entry harrives =>
      by_cases hk : k = k'
      · simp [hk, harrives]
      · simp [hk]
  | ended k' =>
      by_cases hk : k = k'
      · simp [hk]
      · simp [hk]

/-- A channel holds no more entries than have arrived. -/
theorem tail_le_arrivals {es : List Event} {w : World} (hrun : daemon.run es = some w)
    (k : ChannelId) : (w.serial.channels k).tail ≤ es.countP Event.arrives := by
  refine daemon.run_history (P := fun es w =>
    (w.serial.channels k).tail ≤ es.countP Event.arrives) le_rfl ?_ hrun
  intro es w e w' _ ih hstep
  rw [List.countP_append, List.countP_singleton]
  exact ((World.step_does hstep).tail_le k).trans (Nat.add_le_add_right ih _)

/-- No client is closing a port, and every receiver is of the current opening. -/
structure Client.Unclosed (m : SerialManager) (cl : Client) : Prop where
  running : ∀ req pc, cl.dispatch = some (req, pc) → req.cmd ≠ "close_port"
  current : ∀ p r, cl.session.receivers.lookup p = some r →
    ∃ op, m.ports.lookup p = some op ∧ r.chan = op.tx

theorem Fetches.current {m : SerialManager} {p : String} {rx rx' : Option Receiver}
    {b b' : List Arrival} (h : Fetches m p rx b rx' b')
    (hrx : ∀ r, rx = some r → ∃ op, m.ports.lookup p = some op ∧ r.chan = op.tx) (r' : Receiver)
    (hr' : rx' = some r') : ∃ op, m.ports.lookup p = some op ∧ r'.chan = op.tx := by
  cases h with
  | same => exact hrx r' hr'
  | attached op b hop =>
      obtain rfl := Option.some.inj hr'
      exact ⟨op, hop, rfl⟩
  | stored r b entry hentry =>
      obtain rfl := Option.some.inj hr'
      exact hrx r rfl

private theorem Client.Steps.unclosed {m m' : SerialManager} {cl cl' : Client} {ce : ClientEvent}
    (h : cl.Steps m ce m' cl') {c : ClientId} (hopen : (Event.client c ce).closes = false)
    (hfits : ∀ req pc, cl.dispatch = some (req, pc) → pc.Fits req) (hcl : cl.Unclosed m) :
    cl'.Unclosed m' := by
  refine ⟨fun req' pc' hpc' => ?_, fun p r' hr' => ?_⟩
  · cases h with
    | began req env m' s' pc hidle hbegins =>
        obtain ⟨rfl, rfl⟩ := Prod.mk.inj (Option.some.inj hpc')
        simpa [Event.closes] using hopen
    | advanced req pc cl' hpc hadvances =>
        obtain ⟨rfl, -⟩ := hadvances.fits (hfits req pc hpc) req' pc' hpc'
        exact hcl.running req' pc hpc
    | streamed order writeOk task queue lines hrunning hmoves => exact hcl.running req' pc' hpc'
  · suffices hcurrent : ∃ op, m.ports.lookup p = some op ∧ r'.chan = op.tx by
      obtain ⟨op, hop, htx⟩ := hcurrent
      exact ⟨op, (h.does c).ports_kept hopen hop, htx⟩
    cases h.portStep hfits p with
    | kept rs hfetches hreturns hother =>
        exact hfetches.current (fun r hr => hcl.current p r hr) r' hr'
    | forgot r hpc hcloses hreturns hrx hbuffer => simp [hrx] at hr'
    | read r rx next hrx hstops hrx' hread hbuffer hreturns =>
        obtain rfl := Option.some.inj (hrx'.symm.trans hr')
        exact hcl.current p rx hrx

private theorem unclosed_of_run {es : List Event} {w : World} (hrun : daemon.run es = some w)
    (hopen : ∀ e ∈ es, e.closes = false) (c : ClientId) :
    ∀ cl, w.clients c = some cl → cl.Unclosed w.serial := by
  intro cl hclient
  refine client_history (P := fun es w cl => (∀ e ∈ es, e.closes = false) →
    cl.Unclosed w.serial) ?_ ?_ ?_ ?_ hrun hclient hopen
  · intro es w _
    exact ⟨by simp [Client.new], by simp [Client.new, ClientSession.new]⟩
  · intro es w w' cl _ _ _
    exact ⟨by simp [Client.disconnect], by simp [Client.disconnect, ClientSession.new]⟩
  · intro es w w' cl cl' ce hes _ hclient _ _ hsteps ih hopen
    have hopen' : (Event.client c ce).closes = false := hopen _ (by simp)
    exact hsteps.unclosed hopen' (fun req pc hpc => fits_of_run hes hclient hpc)
      (ih fun e he => hopen e (List.mem_append_left _ he))
  · intro es w w' e cl _ hstep _ _ _ ih hopen
    have hcl := ih fun e' he' => hopen e' (List.mem_append_left _ he')
    refine ⟨hcl.running, fun p r hr => ?_⟩
    obtain ⟨op, hop, htx⟩ := hcl.current p r hr
    exact ⟨op, (World.step_does hstep).ports_kept (hopen e (by simp)) hop, htx⟩

/-- The entry has been sent, and it is buffered, or the receiver has not come to it. -/
def Owed (a : Arrival) (rx : Option Receiver) (b : List Arrival) : Prop :=
  a ∈ b ∨ ∃ r, rx = some r ∧ r.chan = a.chan ∧ r.next ≤ a.pos

/-- The entry is not buffered, and a receiver of its channel is past it. -/
def Missed (a : Arrival) (rx : Option Receiver) (b : List Arrival) : Prop :=
  a ∉ b ∧ ∀ r, rx = some r → r.chan = a.chan → a.pos < r.next

/-- The entry is in its channel, and the session is about to see it exactly if `held`. -/
structure Pending (a : Arrival) (held : Prop) (m : SerialManager) (rx : Option Receiver)
    (b : List Arrival) : Prop where
  chan_lt : a.chan < m.fresh
  sent : (m.channels a.chan).sent[a.pos]? = some a.entry
  owed : held → Owed a rx b
  missed : ¬ held → Missed a rx b

section Pending

variable {a : Arrival} {held : Prop} {m m' : SerialManager} {rx rx' : Option Receiver}
  {b b' : List Arrival} {p : String}

private theorem Pending.pos_lt (h : Pending a held m rx b) : a.pos < (m.channels a.chan).tail :=
  (List.getElem?_eq_some_iff.mp h.sent).1

theorem Pending.later (h : Pending a held m rx b) (hlater : SerialManager.Later m m') :
    Pending a held m' rx b := by
  refine ⟨Nat.lt_of_lt_of_le h.chan_lt hlater.fresh_le, ?_, h.owed, h.missed⟩
  obtain ⟨more, hmore⟩ := hlater.sent_prefix a.chan h.chan_lt
  rw [← hmore, List.getElem?_append_left h.pos_lt, h.sent]

/-- Fetching brings the entry into the buffer when it is its turn. -/
theorem Owed.fetches (h : Owed a rx b) (ho : Ordered m rx b)
    (hsent : (m.channels a.chan).sent[a.pos]? = some a.entry)
    (hfew : ∀ k, (m.channels k).tail ≤ maxBufferEntries) (hfetches : Fetches m p rx b rx' b') :
    Owed a rx' b' := by
  cases hfetches with
  | same => exact h
  | attached op b hop =>
      obtain hmem | ⟨r, hr, -⟩ := h
      · obtain ⟨r, hr, -⟩ := ho.buffered a hmem
        simp at hr
      · simp at hr
  | stored r b entry hentry =>
      have hlt : b.length < maxBufferEntries :=
        calc b.length ≤ r.next := ho.length_le r rfl
          _ < (m.channels r.chan).tail := (List.getElem?_eq_some_iff.mp hentry).1
          _ ≤ maxBufferEntries := hfew r.chan
      rw [pushEntry, Window.push_of_lt hlt]
      obtain hmem | ⟨r', hr', hchan, hle⟩ := h
      · exact Or.inl (List.mem_append_left _ hmem)
      · obtain rfl := Option.some.inj hr'
        rcases Nat.eq_or_lt_of_le hle with heq | hlt
        · rw [← hchan, ← heq, hentry] at hsent
          obtain rfl := Option.some.inj hsent
          exact Or.inl (by simp [hchan, heq])
        · exact Or.inr ⟨_, rfl, hchan, hlt⟩

theorem Missed.fetches (h : Missed a rx b) (hlt : a.pos < (m.channels a.chan).tail)
    (hfetches : Fetches m p rx b rx' b') : Missed a rx' b' := by
  cases hfetches with
  | same => exact h
  | attached op b hop =>
      refine ⟨List.not_mem_nil, fun r hr hchan => ?_⟩
      obtain rfl := Option.some.inj hr
      have hchan' : op.tx = a.chan := hchan
      exact hchan' ▸ hlt
  | stored r b entry hentry =>
      refine ⟨fun hmem => ?_, fun r' hr' hchan => ?_⟩
      · obtain hmem | rfl := Window.mem_of_mem_push hmem
        · exact h.1 hmem
        · exact absurd (h.2 r rfl rfl) (Nat.lt_irrefl _)
      · obtain rfl := Option.some.inj hr'
        exact Nat.lt_succ_of_lt (h.2 r rfl hchan)

theorem Pending.fetches (h : Pending a held m rx b) (ho : Ordered m rx b)
    (hfew : ∀ k, (m.channels k).tail ≤ maxBufferEntries) (hfetches : Fetches m p rx b rx' b') :
    Pending a held m rx' b' :=
  ⟨h.chan_lt, h.sent, fun hheld => (h.owed hheld).fetches ho h.sent hfew hfetches,
    fun hnot => (h.missed hnot).fetches h.pos_lt hfetches⟩

/-- Where a drain ends, the entry has reached the buffer or never will. -/
theorem Pending.mem_iff_of_stops {r : Receiver} {next : ℕ} (h : Pending a held m (some r) b)
    (hm : m.Sound) (hfew : ∀ k, (m.channels k).tail ≤ maxBufferEntries)
    (hstops : Stops m r next) : a ∈ b ↔ held := by
  refine ⟨fun hmem => ?_, fun hheld => ?_⟩
  · by_contra hnot
    exact (h.missed hnot).1 hmem
  · obtain hmem | ⟨r', hr', hchan, hle⟩ := h.owed hheld
    · exact hmem
    · obtain rfl := Option.some.inj hr'
      have hpos := h.pos_lt
      rw [← hchan] at hpos
      have hbound := hfew r.chan
      obtain ⟨htail, -⟩ | ⟨hlagged, -⟩ := hstops
      · omega
      · simp only [Channel.oldest, hm.capacity, broadcastCapacity] at hlagged
        simp only [maxBufferEntries] at hbound
        omega

/-- Either the client has read `p` since its log was `log`, and the first list
contains the entry exactly if `held`, or the entry is still pending. -/
def NextRead (p : String) (a : Arrival) (held : Prop) (log : List (Request × Response))
    (m : SerialManager) (cl : Client) : Prop :=
  ∃ rs, cl.returns = log ++ rs ∧
    ((∃ L, rs.findSome? (readOf p) = some L ∧ (a ∈ L ↔ held)) ∨
      rs.findSome? (readOf p) = none ∧ (cl.connected = true →
        Pending a held m (cl.session.receivers.lookup p) (cl.session.buffer p)))

variable {log : List (Request × Response)} {cl cl' : Client}

theorem NextRead.later (h : NextRead p a held log m cl) (hlater : SerialManager.Later m m') :
    NextRead p a held log m' cl := by
  obtain ⟨rs, hreturns, hread | ⟨hnone, hpending⟩⟩ := h
  · exact ⟨rs, hreturns, Or.inl hread⟩
  · exact ⟨rs, hreturns, Or.inr ⟨hnone, fun hconnected => (hpending hconnected).later hlater⟩⟩

/-- A client's step before its next read, or the read itself. -/
theorem Client.PortStep.nextRead (h : cl.PortStep m p cl') (hconnected : cl.connected = true)
    (ho : Ordered m (cl.session.receivers.lookup p) (cl.session.buffer p)) (hm : m.Sound)
    (hfew : ∀ k, (m.channels k).tail ≤ maxBufferEntries) (hopen : cl.Unclosed m)
    (hcl : NextRead p a held log m cl) : NextRead p a held log m cl' := by
  obtain ⟨rs, hreturns, ⟨L, hL, hmem⟩ | ⟨hnone, hpending⟩⟩ := hcl
  · -- Whatever is returned from now on, the first list stays the first.
    obtain ⟨rs', hreturns'⟩ : ∃ rs', cl'.returns = cl.returns ++ rs' := by
      cases h with
      | kept rs' hfetches hreturns' hother => exact ⟨rs', hreturns'⟩
      | forgot r hpc hcloses hreturns' hrx hbuffer => exact ⟨[r], hreturns'⟩
      | read r rx next hrx hstops hrx' hread hbuffer hreturns' => exact ⟨[r], hreturns'⟩
    refine ⟨rs ++ rs', by rw [hreturns', hreturns, List.append_assoc], Or.inl ⟨L, ?_, hmem⟩⟩
    rw [List.findSome?_append, hL, Option.some_or]
  · have hp := hpending hconnected
    cases h with
    | kept rs' hfetches hreturns' hother =>
        refine ⟨rs ++ rs', by rw [hreturns', hreturns, List.append_assoc], Or.inr ⟨?_, fun _ =>
          hp.fetches ho hfew hfetches⟩⟩
        rw [List.findSome?_append, hnone, Option.none_or]
        exact List.findSome?_eq_none_iff.mpr hother
    | forgot r hpc hcloses hreturns' hrx hbuffer =>
        obtain ⟨pc, hpc⟩ := hpc
        exact absurd hcloses.1 (hopen.running r.1 pc hpc)
    | read r rx next hrx hstops hrx' hread hbuffer hreturns' =>
        rw [hrx] at hp
        refine ⟨rs ++ [r], by rw [hreturns', hreturns, List.append_assoc],
          Or.inl ⟨cl.session.buffer p, ?_, hp.mem_iff_of_stops hm hfew hstops⟩⟩
        rw [List.findSome?_append, hnone, Option.none_or]
        simp [hread]

end Pending

/-- From a point on where the entry is pending, in runs that close no port and carry
few entries. -/
theorem nextRead_of_run {es before : List Event} {w : World} {c : ClientId} {p : String}
    {a : Arrival} {held : Prop} {log : List (Request × Response)}
    (hbase : ∀ w, daemon.run before = some w → ∃ cl, w.clients c = some cl ∧
      NextRead p a held log w.serial cl)
    (hrun : daemon.run (before ++ es) = some w)
    (hopen : ∀ e ∈ before ++ es, e.closes = false)
    (hfew : (before ++ es).countP Event.arrives ≤ maxBufferEntries) :
    ∃ cl, w.clients c = some cl ∧ NextRead p a held log w.serial cl := by
  refine daemon.run_history_from (P := fun es w => (∀ e ∈ before ++ es, e.closes = false) →
    (before ++ es).countP Event.arrives ≤ maxBufferEntries →
    ∃ cl, w.clients c = some cl ∧ NextRead p a held log w.serial cl) (fun w hw _ _ => hbase w hw)
    ?_ hrun hopen hfew
  intro es w e w' hes ih hstep hopen hfew
  rw [← List.append_assoc] at hopen hfew
  have hopen' : ∀ e' ∈ before ++ es, e'.closes = false :=
    fun e' he' => hopen e' (List.mem_append_left _ he')
  have hfew' : (before ++ es).countP Event.arrives ≤ maxBufferEntries := by
    rw [List.countP_append] at hfew
    exact (Nat.le_add_right _ _).trans hfew
  have hlater := (World.step_seen hstep c).changes.later
  obtain ⟨cl, hcl, hnext⟩ := ih hopen' hfew'
  cases World.step_seen hstep c with
  | joined he hclient hclient' hserial => simp [hcl] at hclient
  | left cl' he hclient hidle hclient' hserial =>
      obtain rfl := Option.some.inj (hcl.symm.trans hclient)
      obtain ⟨rs, hreturns, hread⟩ := hnext
      refine ⟨_, hclient', rs, ?_, hread.imp_right fun h => ⟨h.1, by simp [Client.disconnect]⟩⟩
      rw [← hreturns, Client.returns_of_idle hidle]
      exact Client.returns_of_idle rfl
  | own cl' cl'' ce he hclient hconnected hsteps hclient' =>
      obtain rfl := Option.some.inj (hcl.symm.trans hclient)
      have hfits : ∀ req pc, cl.dispatch = some (req, pc) → pc.Fits req :=
        fun req pc hpc => fits_of_run hes hclient hpc
      have htail : ∀ k, (w.serial.channels k).tail ≤ maxBufferEntries :=
        fun k => (tail_le_arrivals hes k).trans hfew'
      refine ⟨_, hclient', ((hsteps.portStep hfits p).nextRead hconnected
        (ordered_of_run hes c p cl hcl) (sound_of_run hes) htail
        (unclosed_of_run hes hopen' c cl hcl) hnext).later hlater⟩
  | elsewhere hclient hchanges hevent =>
      exact ⟨cl, hclient ▸ hcl, hnext.later hlater⟩

/-- An entry that has just arrived is pending. -/
theorem pending_of_arrival {es : List Event} {w w' : World} {c : ClientId} {cl : Client}
    {p : String} {op : OpenPort} {entry : RxEntry} (hrun : daemon.run es = some w)
    (hopen : ∀ e ∈ es, e.closes = false) (hclient : w.clients c = some cl)
    (hop : w.serial.ports.lookup p = some op)
    (hstep : daemon.step w (.deliver op.tx entry) = some w') :
    w'.clients = w.clients ∧
      Pending ⟨op.tx, (w.serial.channels op.tx).tail, entry⟩
        ((cl.session.receivers.lookup p).isSome = true) w'.serial
        (cl.session.receivers.lookup p) (cl.session.buffer p) := by
  obtain ⟨m, hm, rfl⟩ := Option.map_eq_some_iff.mp hstep
  obtain rfl := SerialManager.deliver_eq_some hm
  have hordered := ordered_of_run hrun c p cl hclient
  refine ⟨rfl, w.serial.tx_lt p op hop, ?_, fun hheld => Or.inr ?_,
    fun hnot => ⟨fun hmem => ?_, ?_⟩⟩
  · simp [Channel.tail]
  · obtain ⟨r, hr⟩ := Option.isSome_iff_exists.mp hheld
    obtain ⟨op', hop', hchan⟩ := (unclosed_of_run hrun hopen c cl hclient).current p r hr
    obtain rfl := Option.some.inj (hop.symm.trans hop')
    refine ⟨r, hr, hchan, ?_⟩
    rw [← hchan]
    exact (hordered.receiver r hr).2
  · obtain ⟨r, hr, -⟩ := hordered.buffered _ hmem
    simp [hr] at hnot
  · intro r hr
    simp [hr] at hnot

/-- Who sees an entry. In runs that close no port and carry fewer entries than a
buffer holds, an entry that arrives on an open port is in a client's next read of the
port exactly if the client's session held a receiver of the port when it arrived. -/
theorem nextRead_contains_iff {before after : List Event} {w₀ w : World} {c : ClientId}
    {cl₀ cl : Client} {p : String} {op : OpenPort} {entry : RxEntry} {L : List Arrival}
    (hbefore : daemon.run before = some w₀) (hclient₀ : w₀.clients c = some cl₀)
    (hop : w₀.serial.ports.lookup p = some op)
    (hrun : daemon.run (before ++ .deliver op.tx entry :: after) = some w)
    (hclient : w.clients c = some cl)
    (hopen : ∀ e ∈ before ++ .deliver op.tx entry :: after, e.closes = false)
    (hfew : (before ++ .deliver op.tx entry :: after).countP Event.arrives < maxBufferEntries)
    (hnext : (cl.returns.drop cl₀.returns.length).findSome? (readOf p) = some L) :
    ⟨op.tx, (w₀.serial.channels op.tx).tail, entry⟩ ∈ L ↔
      (cl₀.session.receivers.lookup p).isSome = true := by
  rw [List.append_cons] at hrun hopen hfew
  have hbase : ∀ w₁, daemon.run (before ++ [.deliver op.tx entry]) = some w₁ →
      ∃ cl, w₁.clients c = some cl ∧
        NextRead p ⟨op.tx, (w₀.serial.channels op.tx).tail, entry⟩
          ((cl₀.session.receivers.lookup p).isSome = true) cl₀.returns w₁.serial cl := by
    intro w₁ hw₁
    obtain ⟨w₀', hw₀', hstep⟩ := daemon.run_snoc_eq_some.mp hw₁
    obtain rfl := Option.some.inj (hbefore.symm.trans hw₀')
    have hopen₀ : ∀ e ∈ before, e.closes = false := fun e he => hopen e (by simp [he])
    obtain ⟨hclients, hpending⟩ := pending_of_arrival hbefore hopen₀ hclient₀ hop hstep
    exact ⟨cl₀, hclients ▸ hclient₀, [], (List.append_nil _).symm, Or.inr ⟨rfl, fun _ => hpending⟩⟩
  obtain ⟨cl', hcl', rs, hreturns, hread⟩ := nextRead_of_run hbase hrun hopen hfew.le
  obtain rfl := Option.some.inj (hclient.symm.trans hcl')
  rw [hreturns, List.drop_left] at hnext
  obtain ⟨L', hL', hmem⟩ | ⟨hnone, -⟩ := hread
  · obtain rfl := Option.some.inj (hnext.symm.trans hL')
    exact hmem
  · simp [hnone] at hnext

/-- Two clients connect, and one of them opens a port. -/
def openedByOther : List Event :=
  [.connect 0, .connect 1] ++ issue 0 (portRequest "open_port" "P") 2

/-- Then an entry arrives, and the other client reads the port. -/
def readByOther : List Event :=
  openedByOther ++ .deliver 0 ⟨"t", [65]⟩ :: issue 1 (portRequest "read_port" "P") 3

/-- The port is open, and client 1 is connected and has been given nothing. -/
def connectedBefore (w : World) : Bool :=
  (w.serial.ports.lookup "P").any (fun op => op.tx == 0) && (w.clients 1).any fun cl =>
    cl.connected && cl.returns.isEmpty

private theorem openedByOther_connectedBefore :
    (daemon.run openedByOther).any connectedBefore = true := by
  decide +kernel

/-- The first list that client 1 reads is empty. -/
def readsNothing (w : World) : Bool :=
  (w.clients 1).any fun cl => (cl.returns.findSome? (readOf "P")).any List.isEmpty

private theorem readByOther_readsNothing : (daemon.run readByOther).any readsNothing = true := by
  decide +kernel

/-- What the two runs reach, as propositions. -/
theorem exists_readsNothing : ∃ w₀ cl₀ op w cl, daemon.run openedByOther = some w₀ ∧
    w₀.clients 1 = some cl₀ ∧ cl₀.connected = true ∧
    w₀.serial.ports.lookup "P" = some op ∧ op.tx = 0 ∧ daemon.run readByOther = some w ∧
    w.clients 1 = some cl ∧
    (cl.returns.drop cl₀.returns.length).findSome? (readOf "P") = some [] := by
  obtain ⟨w₀, hw₀, htest₀⟩ := (Option.any_eq_true _ _).mp openedByOther_connectedBefore
  simp only [connectedBefore, Bool.and_eq_true] at htest₀
  obtain ⟨hopen, hany₀⟩ := htest₀
  obtain ⟨op, hop, htx⟩ := (Option.any_eq_true _ _).mp hopen
  obtain ⟨cl₀, hcl₀, htest₀⟩ := (Option.any_eq_true _ _).mp hany₀
  simp only [Bool.and_eq_true, List.isEmpty_iff] at htest₀
  obtain ⟨w, hw, htest⟩ := (Option.any_eq_true _ _).mp readByOther_readsNothing
  obtain ⟨cl, hcl, htest⟩ := (Option.any_eq_true _ _).mp htest
  obtain ⟨L, hL, hnil⟩ := (Option.any_eq_true _ _).mp htest
  obtain rfl := List.isEmpty_iff.mp hnil
  refine ⟨w₀, cl₀, op, w, cl, hw₀, hcl₀, htest₀.1, hop, by simpa using htx, hw, hcl, ?_⟩
  rw [htest₀.2]
  exact hL

/-- A connected client that does not see an entry. -/
theorem connected_not_always_sees :
    ¬ ∀ before after w₀ w c cl₀ cl p op entry L, daemon.run before = some w₀ →
      w₀.clients c = some cl₀ → cl₀.connected = true →
      w₀.serial.ports.lookup p = some op →
      daemon.run (before ++ .deliver op.tx entry :: after) = some w → w.clients c = some cl →
      (∀ e ∈ before ++ .deliver op.tx entry :: after, e.closes = false) →
      (before ++ .deliver op.tx entry :: after).countP Event.arrives < maxBufferEntries →
      (cl.returns.drop cl₀.returns.length).findSome? (readOf p) = some L →
      (⟨op.tx, (w₀.serial.channels op.tx).tail, entry⟩ : Arrival) ∈ L := by
  intro hcontains
  obtain ⟨w₀, cl₀, op, w, cl, hw₀, hcl₀, hconnected, hop, htx, hw, hcl, hread⟩ :=
    exists_readsNothing
  rw [readByOther, ← htx] at hw
  exact absurd (hcontains openedByOther _ w₀ w 1 cl₀ cl "P" op ⟨"t", [65]⟩ [] hw₀ hcl₀ hconnected
    hop hw hcl (by rw [htx]; decide) (by rw [htx]; decide) hread) List.not_mem_nil

/-- The theorem at the run of two clients. -/
theorem nextRead_contains_iff_other : ∃ w₀ cl₀ op, daemon.run openedByOther = some w₀ ∧
    w₀.clients 1 = some cl₀ ∧ w₀.serial.ports.lookup "P" = some op ∧
    (⟨op.tx, (w₀.serial.channels op.tx).tail, ⟨"t", [65]⟩⟩ ∈ ([] : List Arrival) ↔
      (cl₀.session.receivers.lookup "P").isSome = true) := by
  obtain ⟨w₀, cl₀, op, w, cl, hw₀, hcl₀, -, hop, htx, hw, hcl, hread⟩ := exists_readsNothing
  rw [readByOther, ← htx] at hw
  exact ⟨w₀, cl₀, op, hw₀, hcl₀, hop, nextRead_contains_iff hw₀ hcl₀ hop hw hcl
    (by rw [htx]; decide) (by rw [htx]; decide) hread⟩

end Commmon

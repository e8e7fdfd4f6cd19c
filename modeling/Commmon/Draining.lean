/-
# What a read returns

A receiver that has not fallen behind drains everything that the channel holds
for it, so the read answers with the last entries, up to the buffer's bound, of
all that was buffered or could still be received. A receiver that has fallen
behind is told so by its first receive, and the drain takes that for the end: the
read answers with what was buffered before, although the channel holds a full
window of newer entries.
-/

import Commmon.ReadLog

set_option autoImplicit false

namespace Commmon

open Broadcast

namespace SerialManager

/-- The arrivals that a receiver can still get. -/
def available (m : SerialManager) (rx : Receiver) : List Arrival :=
  ((m.channels rx.chan).available rx.next).map fun v => ⟨rx.chan, v.2, v.1⟩

variable {m : SerialManager} {rx : Receiver}

private theorem available_of_current (hold : (m.channels rx.chan).oldest ≤ rx.next) :
    m.available rx =
      ((m.channels rx.chan).unread rx.next).map fun v => ⟨rx.chan, v.2, v.1⟩ := by
  rw [available, Channel.available, max_eq_left hold]

private theorem available_eq_nil (hle : (m.channels rx.chan).tail ≤ rx.next) :
    m.available rx = [] := by
  have hold : (m.channels rx.chan).oldest ≤ rx.next := (Nat.sub_le _ _).trans hle
  rw [available_of_current hold, Channel.unread_eq_nil hle, List.map_nil]

private theorem available_eq_cons {entry : RxEntry} (hold : (m.channels rx.chan).oldest ≤ rx.next)
    (hentry : (m.channels rx.chan).sent[rx.next]? = some entry) :
    m.available rx =
      ⟨rx.chan, rx.next, entry⟩ :: m.available { rx with next := rx.next + 1 } := by
  obtain ⟨hlt, rfl⟩ := List.getElem?_eq_some_iff.mp hentry
  let rx' : Receiver := { rx with next := rx.next + 1 }
  have hold' : (m.channels rx'.chan).oldest ≤ rx'.next := Nat.le_succ_of_le hold
  rw [available_of_current hold, Channel.unread_eq_cons hlt, List.map_cons,
    available_of_current hold']

/-- The newest entry of the channel is the last one that can be received. -/
theorem getLast?_available (hm : m.Sound) (hlt : rx.next < (m.channels rx.chan).tail) :
    ∃ a, (m.available rx).getLast? = some a ∧ a.chan = rx.chan ∧
      a.pos + 1 = (m.channels rx.chan).tail := by
  have hcapacity : 0 < (m.channels rx.chan).capacity := by
    rw [hm.capacity]
    decide
  have hmax : max rx.next (m.channels rx.chan).oldest < (m.channels rx.chan).tail := by
    simp only [Channel.oldest]
    omega
  obtain ⟨entry, hlast⟩ := Channel.getLast?_unread hmax
  refine ⟨⟨rx.chan, (m.channels rx.chan).tail - 1, entry⟩, ?_, rfl, ?_⟩
  · rw [available, List.getLast?_map, Channel.available, hlast, Option.map_some]
  · exact Nat.sub_add_cancel (Nat.one_le_of_lt hlt)

end SerialManager

namespace ClientSession

variable {s s' : ClientSession} {m : SerialManager} {p : String} {rx : Receiver}

private theorem drainReceiver_of_stopped (h : s.drainOne m p = (s', false)) :
    s.drainReceiver m p = s' := by
  simp only [drainReceiver, drainLoop, h]

/-- A round that stores an entry leaves one entry less to read. -/
theorem backlog_of_stored (h : s.drainOne m p = (s', true)) :
    s.backlog m p = s'.backlog m p + 1 := by
  obtain ⟨-, h'⟩ | ⟨rx, entry, hrx, hentry, -, h'⟩ | ⟨rx, next, -, -, -, h'⟩ :=
    s.drainOne_cases m p
  · simp [h'] at h
  · obtain ⟨rfl, -⟩ := Prod.mk.inj (h'.symm.trans h)
    have hlt : rx.next < (m.channels rx.chan).tail := (List.getElem?_eq_some_iff.mp hentry).1
    simp only [backlog, hrx, receivers_attach, if_true]
    omega
  · simp [h'] at h

/-- The rounds of the drain are those of the loop, one after the other. -/
theorem drainReceiver_of_stored (h : s.drainOne m p = (s', true)) :
    s.drainReceiver m p = s'.drainReceiver m p := by
  rw [drainReceiver, backlog_of_stored h, drainLoop, h]
  rfl

/-- A receiver that has fallen behind stores nothing. -/
theorem drainReceiver_of_lagged (hrx : s.receivers.lookup p = some rx)
    (hlagged : rx.next < (m.channels rx.chan).oldest) :
    ((s.drainReceiver m p).receivers.lookup p).isSome ∧
      (s.drainReceiver m p).buffer p = s.buffer p := by
  obtain ⟨hnone, -⟩ | ⟨rx', entry, hrx', hentry, hold, -⟩ | ⟨rx', next, -, -, -, h⟩ :=
    s.drainOne_cases m p
  · simp [hrx] at hnone
  · obtain rfl := Option.some.inj (hrx.symm.trans hrx')
    exact absurd hold (Nat.not_le.mpr hlagged)
  · rw [drainReceiver_of_stopped h]
    simp

/-- A receiver that has not fallen behind drains everything. -/
theorem drainReceiver_of_current (hrx : s.receivers.lookup p = some rx)
    (hold : (m.channels rx.chan).oldest ≤ rx.next) :
    ((s.drainReceiver m p).receivers.lookup p).isSome ∧
      (s.drainReceiver m p).buffer p =
        (s.buffer p ++ m.available rx).rtake maxBufferEntries := by
  -- By induction on how much there is to read.
  induction hn : s.backlog m p generalizing s rx with
  | zero =>
      obtain ⟨hnone, -⟩ | ⟨rx', entry, -, -, -, h⟩ | ⟨rx', next, hrx', -, hstops, h⟩ :=
        s.drainOne_cases m p
      · simp [hrx] at hnone
      · have hpos := backlog_of_stored h
        omega
      · obtain rfl := Option.some.inj (hrx.symm.trans hrx')
        have htail : (m.channels rx.chan).tail ≤ rx.next := by
          obtain ⟨htail, -⟩ | ⟨hlagged, -⟩ := hstops
          · exact htail
          · exact absurd hold (Nat.not_le.mpr hlagged)
        rw [drainReceiver_of_stopped h, SerialManager.available_eq_nil htail, List.append_nil,
          Window.rtake_of_length_le (s.length_buffer_le p)]
        simp
  | succ n ih =>
      obtain ⟨hnone, -⟩ | ⟨rx', entry, hrx', hentry, -, h⟩ | ⟨rx', next, hrx', -, hstops, h⟩ :=
        s.drainOne_cases m p
      · simp [hrx] at hnone
      · obtain rfl := Option.some.inj (hrx.symm.trans hrx')
        have hbacklog := backlog_of_stored h
        have hrx'' : (s.attach p { rx with next := rx.next + 1 }
            (pushEntry (s.buffer p) ⟨rx.chan, rx.next, entry⟩)
            (length_pushEntry_le (s.length_buffer_le p) _)).receivers.lookup p =
              some { rx with next := rx.next + 1 } := by
          rw [receivers_attach, if_pos rfl]
        obtain ⟨hsome, hbuffer⟩ := ih hrx'' (Nat.le_succ_of_le hold) (by omega)
        rw [drainReceiver_of_stored h]
        refine ⟨hsome, hbuffer.trans ?_⟩
        rw [buffer_attach, if_pos rfl, SerialManager.available_eq_cons hold hentry, pushEntry,
          Window.push_eq_rtake (s.length_buffer_le p), Window.rtake_rtake_append,
          List.append_assoc, List.singleton_append]
      · obtain rfl := Option.some.inj (hrx.symm.trans hrx')
        obtain ⟨htail, -⟩ | ⟨hlagged, -⟩ := hstops
        · simp only [backlog, hrx] at hn
          omega
        · exact absurd hold (Nat.not_le.mpr hlagged)

/-- A read with a receiver answers with the drained buffer. -/
theorem readPort_eq (clear : Bool)
    (hsome : ((s.drainReceiver m p).receivers.lookup p).isSome) :
    (s.readPort m p clear).2 = .success (.entries ((s.drainReceiver m p).buffer p)) := by
  obtain ⟨hnone, -⟩ | ⟨-, hresp, -⟩ := (s.drainReceiver m p).answerRead_cases p clear
  · simp [hnone] at hsome
  · exact hresp

/-- The read returns the last entries, up to the buffer's bound, of those that are
buffered or can still be received. If any can still be received, the newest entry
of the channel comes last. -/
def ReadsAvailable (s : ClientSession) (m : SerialManager) (p : String) (rx : Receiver)
    (clear : Bool) : Prop :=
  ∃ L, (s.readPort m p clear).2 = .success (.entries L) ∧
    L = (s.buffer p ++ m.available rx).rtake maxBufferEntries ∧
    (rx.next < (m.channels rx.chan).tail → ∃ a, L.getLast? = some a ∧ a.chan = rx.chan ∧
      a.pos + 1 = (m.channels rx.chan).tail)

end ClientSession

/-- The newest entry that can be received ends any window of the bound. -/
theorem getLast?_rtake_available {m : SerialManager} (hm : m.Sound) {rx : Receiver}
    (b : List Arrival) (hlt : rx.next < (m.channels rx.chan).tail) :
    ∃ a, ((b ++ m.available rx).rtake maxBufferEntries).getLast? = some a ∧
      a.chan = rx.chan ∧ a.pos + 1 = (m.channels rx.chan).tail := by
  obtain ⟨a, hlast, hchan, hpos⟩ := SerialManager.getLast?_available hm hlt
  refine ⟨a, ?_, hchan, hpos⟩
  rw [Window.getLast?_rtake (by decide), List.getLast?_append, hlast, Option.some_or]

section Run

variable {es : List Event} {w : World} {c : ClientId} {cl : Client} {p : String} {rx : Receiver}

private theorem oldest_of_run (hrun : daemon.run es = some w) (k : ChannelId) :
    (w.serial.channels k).oldest = (w.serial.channels k).tail - broadcastCapacity := by
  rw [Channel.oldest, (sound_of_run hrun).capacity]

/-- A receiver that has not fallen behind reads everything. -/
theorem readsAvailable_of_current (hrun : daemon.run es = some w)
    (hrx : cl.session.receivers.lookup p = some rx)
    (hold : (w.serial.channels rx.chan).oldest ≤ rx.next) (clear : Bool) :
    cl.session.ReadsAvailable w.serial p rx clear := by
  obtain ⟨hsome, hbuffer⟩ := ClientSession.drainReceiver_of_current hrx hold
  refine ⟨_, ClientSession.readPort_eq clear hsome, hbuffer, fun hlt => ?_⟩
  rw [hbuffer]
  exact getLast?_rtake_available (sound_of_run hrun) _ hlt

/-- A receiver that has fallen behind returns the buffer as it was, and everything
in it is older than the newest entry. -/
theorem not_readsAvailable_of_lagged (hrun : daemon.run es = some w)
    (hclient : w.clients c = some cl) (hrx : cl.session.receivers.lookup p = some rx)
    (hlagged : rx.next < (w.serial.channels rx.chan).oldest) (clear : Bool) :
    ¬ cl.session.ReadsAvailable w.serial p rx clear := by
  rintro ⟨L, hresp, -, hnewest⟩
  have hlt : rx.next < (w.serial.channels rx.chan).tail := by
    have holdest := oldest_of_run hrun rx.chan
    omega
  obtain ⟨a, hlast, -, hpos⟩ := hnewest hlt
  obtain ⟨hsome, hbuffer⟩ := ClientSession.drainReceiver_of_lagged hrx hlagged
  rw [ClientSession.readPort_eq clear hsome, hbuffer] at hresp
  obtain rfl : cl.session.buffer p = L := by
    simpa [Response.success] using hresp
  obtain ⟨rx', hrx', -, hbefore⟩ :=
    (ordered_of_run hrun c p cl hclient).buffered a (List.mem_of_getLast? hlast)
  obtain rfl := Option.some.inj (hrx.symm.trans hrx')
  omega

/-- When a read returns everything that is still available. In every reachable
world, a read of a port that the session has a receiver of does so exactly if no
more entries have arrived since the receiver's position than the channel keeps. -/
theorem readPort_available_iff (hrun : daemon.run es = some w)
    (hclient : w.clients c = some cl) (hrx : cl.session.receivers.lookup p = some rx)
    (clear : Bool) :
    cl.session.ReadsAvailable w.serial p rx clear ↔
      (w.serial.channels rx.chan).tail - rx.next ≤ broadcastCapacity := by
  have holdest := oldest_of_run hrun rx.chan
  rcases Nat.lt_or_ge rx.next (w.serial.channels rx.chan).oldest with hlagged | hold
  · exact iff_of_false (not_readsAvailable_of_lagged hrun hclient hrx hlagged clear) (by omega)
  · exact iff_of_true (readsAvailable_of_current hrun hrx hold clear) (by omega)

/-- A step of a client's command, as a step of the daemon. -/
theorem daemon_step_dispatch (hclient : w.clients c = some cl) (hconnected : cl.connected = true)
    {req : Request} {pc : Pc} {cl' : Client} (hpc : cl.dispatch = some (req, pc))
    (hadvance : cl.advance w.serial req pc = some cl') :
    daemon.step w (.client c .dispatch) = some (w.setClient c cl') := by
  simp [daemon, World.step, hclient, hconnected, Client.step, hpc, hadvance]

/-- The steps of a read that nothing interrupts do what `readPort` does. -/
theorem drain_uninterrupted (hclient : w.clients c = some cl) (hconnected : cl.connected = true)
    {req : Request} {clear : Bool} (hpc : cl.dispatch = some (req, .drain p clear)) :
    ∃ n w', daemon.runFrom w (List.replicate n (.client c .dispatch)) = some w' ∧
      w'.serial = w.serial ∧ w'.clients c = some { cl with
        session := (cl.session.readPort w.serial p clear).1
        dispatch := some (req, .reply (cl.session.readPort w.serial p clear).2) } := by
  -- By induction on how much there is to read.
  induction hn : cl.session.backlog w.serial p using Nat.strong_induction_on
    generalizing w cl with
  | _ n ih =>
      rcases hround : cl.session.drainOne w.serial p with ⟨s, stored⟩
      cases stored with
      | false =>
          have hadvance : cl.advance w.serial req (.drain p clear) = some { cl with
              session := (s.answerRead p clear).1
              dispatch := some (req, .reply (s.answerRead p clear).2) } := by
            simp only [Client.advance, hround]
          have hstep := daemon_step_dispatch hclient hconnected hpc hadvance
          refine ⟨1, _, daemon.runFrom_cons_eq_some.mpr ⟨_, hstep, rfl⟩, rfl, ?_⟩
          rw [ClientSession.readPort, ClientSession.drainReceiver_of_stopped hround]
          exact Function.update_self _ _ _
      | true =>
          let cl' : Client := { cl with session := s }
          have hadvance : cl.advance w.serial req (.drain p clear) = some cl' := by
            simp only [Client.advance, hround, cl']
          have hstep := daemon_step_dispatch hclient hconnected hpc hadvance
          have hclient' : (w.setClient c cl').clients c = some cl' := Function.update_self _ _ _
          have hless : s.backlog w.serial p < n := by
            have hbacklog := ClientSession.backlog_of_stored hround
            omega
          obtain ⟨k, w', hrun, hserial, hclient''⟩ := ih _ hless hclient' hconnected hpc rfl
          refine ⟨k + 1, w', daemon.runFrom_cons_eq_some.mpr ⟨_, hstep, hrun⟩, hserial, ?_⟩
          rw [hclient'', ClientSession.readPort, ClientSession.readPort,
            ClientSession.drainReceiver_of_stored hround]
          rfl

end Run

/-- Client 0 opens a port, and more entries arrive than the channel keeps. -/
def burst : List Event :=
  [.connect 0] ++ issue 0 (portRequest "open_port" "P") 2 ++
    List.replicate 257 (.deliver 0 ⟨"t", [65]⟩)

/-- The receiver is one entry further behind than the channel keeps, and the port
is still the one that was opened. -/
def hasFallenBehind (w : World) : Bool :=
  (w.serial.ports.lookup "P").any (fun op => op.tx == 0) && (w.clients 0).any fun cl =>
    cl.session.receivers.lookup "P" == some ⟨0, 0⟩ && (w.serial.channels 0).tail == 257

private theorem burst_hasFallenBehind : (daemon.run burst).any hasFallenBehind = true := by
  decide +kernel

/-- What the run reaches, as propositions. -/
theorem exists_hasFallenBehind : ∃ w cl op, daemon.run burst = some w ∧
    w.clients 0 = some cl ∧ w.serial.ports.lookup "P" = some op ∧ op.tx = 0 ∧
    cl.session.receivers.lookup "P" = some ⟨0, 0⟩ ∧ (w.serial.channels 0).tail = 257 := by
  obtain ⟨w, hw, htest⟩ := (Option.any_eq_true _ _).mp burst_hasFallenBehind
  simp only [hasFallenBehind, Bool.and_eq_true] at htest
  obtain ⟨hopen, hany⟩ := htest
  obtain ⟨op, hop, htx⟩ := (Option.any_eq_true _ _).mp hopen
  obtain ⟨cl, hcl, htest⟩ := (Option.any_eq_true _ _).mp hany
  simp only [Bool.and_eq_true, beq_iff_eq] at htest
  exact ⟨w, cl, op, hw, hcl, hop, by simpa using htx, htest⟩

/-- A read that returns nothing, while the channel holds a full window. -/
theorem readPort_not_always_available :
    ¬ ∀ es w c cl p op rx clear, daemon.run es = some w → w.clients c = some cl →
      w.serial.ports.lookup p = some op → cl.session.receivers.lookup p = some rx →
      rx.chan = op.tx → cl.session.ReadsAvailable w.serial p rx clear := by
  intro havailable
  obtain ⟨w, cl, op, hw, hcl, hop, htx, hrx, htail⟩ := exists_hasFallenBehind
  refine not_readsAvailable_of_lagged hw hcl hrx ?_ true
    (havailable burst w 0 cl "P" op ⟨0, 0⟩ true hw hcl hop hrx htx.symm)
  rw [oldest_of_run hw, htail]
  decide

/-- The theorem at the run with a burst. -/
theorem readPort_available_iff_burst : ∃ w cl, daemon.run burst = some w ∧
    w.clients 0 = some cl ∧ (cl.session.ReadsAvailable w.serial "P" ⟨0, 0⟩ true ↔
      (w.serial.channels 0).tail - 0 ≤ broadcastCapacity) := by
  obtain ⟨w, cl, op, hw, hcl, -, -, hrx, -⟩ := exists_hasFallenBehind
  exact ⟨w, cl, hw, hcl, readPort_available_iff hw hcl hrx true⟩

end Commmon

/-
# Resolvers and the sockets they wait for

The client keeps one queue of resolvers, whichever socket it writes to. It makes
a socket when the last one is destroyed, installs its handlers once the socket is
connected, and empties the queue when a handled socket closes. A call that finds
the socket still connecting does not wait for it: it is queued at once, and is
written when the socket connects.

A socket closes some time after it was destroyed, and a socket that failed to
connect has no handlers. So the queue belongs to the socket at hand only if no
attempt fails while calls are queued behind it, and if the client does not turn
to a new socket before the old one has closed.
-/

import Commmon.Lib.StepSystem
import Commmon.Pairing

set_option autoImplicit false

namespace Commmon

/-! ## Sockets -/

/-- A destroyed socket has still to emit its close event. -/
inductive SocketPhase
  | connecting
  | connected
  | destroyed
  | closed
  deriving DecidableEq

/-- A socket with the number of times that handlers were installed on it, the
sends that were written to it, in order, and the number of those that the daemon
has answered. -/
structure Socket where
  phase : SocketPhase
  handlers : ℕ
  written : List SendId
  answered : ℕ

namespace Socket

/-- A socket that has not been made. -/
def unused : Socket := ⟨.closed, 0, [], 0⟩

def new : Socket := ⟨.connecting, 0, [], 0⟩

/-- `!socket.destroyed` -/
def Live (s : Socket) : Prop := s.phase = .connecting ∨ s.phase = .connected

instance (s : Socket) : Decidable s.Live := inferInstanceAs (Decidable (_ ∨ _))

/-- A write to a destroyed socket is lost. -/
def write (s : Socket) (i : SendId) : Socket :=
  if s.Live then { s with written := s.written ++ [i] } else s

/-- The sends that were written and have not been answered. -/
def unanswered (s : Socket) : List SendId := s.written.drop s.answered

end Socket

/-- Where a send stands. A send waits once its resolver is in the queue; `s` is
the socket that it was written to. `answered` says which send the message was the
response to. -/
inductive SendState
  | connecting (s : SocketId)
  | waiting (s : SocketId)
  | answered (request : SendId)
  | failed
  deriving DecidableEq

structure SocketWorld where
  client : DaemonClient
  sockets : SocketId → Socket
  freshSocket : SocketId
  sends : SendId → Option SendState
  freshSend : SendId

/-- `connected` and `connectFailed` name the send that made the socket. -/
inductive SocketEvent
  | send
  | connected (s : SocketId) (i : SendId)
  | connectFailed (s : SocketId) (i : SendId)
  | response (s : SocketId) (resp : Response)
  | notification (s : SocketId) (n : Notification)
  | drop (s : SocketId)
  | destroy
  | close (s : SocketId)

namespace SocketWorld

def setSocket (w : SocketWorld) (s : SocketId) (socket : Socket) : SocketWorld :=
  { w with sockets := Function.update w.sockets s socket }

def setSend (w : SocketWorld) (i : SendId) (state : SendState) : SocketWorld :=
  { w with sends := Function.update w.sends i (some state) }

/-- Settle the promises whose resolvers were called. -/
def settle (w : SocketWorld) (settled : List (SendId × Json)) (state : SendState) : SocketWorld :=
  { w with sends := fun i => if i ∈ settled.map Prod.fst then some state else w.sends i }

/-- The socket at hand, if it is not destroyed. -/
def liveSocket (w : SocketWorld) : Option SocketId :=
  w.client.socket.filter fun s => (w.sockets s).Live

/-- `connect` for a client without a live socket. -/
def makeSocket (w : SocketWorld) : SocketWorld :=
  { w with
    client := { w.client with socket := some w.freshSocket, buffer := [] }
    sockets := Function.update w.sockets w.freshSocket .new
    freshSocket := w.freshSocket + 1 }

/-- The end of `send`: queue the resolver and write to the socket at hand. -/
def queue (w : SocketWorld) (s : SocketId) (i : SendId) : SocketWorld :=
  { w with client := w.client.push i }.setSocket s ((w.sockets s).write i)
    |>.setSend i (.waiting s)

/-- The data handlers of a socket, one after the other. -/
def handleTimes (msg : Json) : ℕ → DaemonClient → DaemonClient × List (SendId × Json)
  | 0, c => (c, [])
  | n + 1, c =>
      let r := c.handle msg
      let rs := handleTimes msg n r.1
      (rs.1, r.2.toList ++ rs.2)

section

variable (showFloat : Rat → NumLit)

def step (w : SocketWorld) : SocketEvent → Option SocketWorld
  | .send =>
      match w.liveSocket with
      | some s => some ({ w with freshSend := w.freshSend + 1 }.queue s w.freshSend)
      | none =>
          some ({ w.makeSocket with freshSend := w.freshSend + 1 }.setSend w.freshSend
            (.connecting w.freshSocket))
  | .connected s i =>
      if (w.sockets s).phase = .connecting ∧ w.sends i = some (.connecting s) then
        let w := w.setSocket s { w.sockets s with phase := .connected }
        match w.client.socket with
        | some t =>
            -- the handlers go to the socket at hand, which need not be `s`
            let socket := { w.sockets t with handlers := (w.sockets t).handlers + 1 }
            some ((w.setSocket t socket).queue t i)
        | none => some (w.setSend i .failed)
      else none
  | .connectFailed s i =>
      if (w.sockets s).phase = .connecting ∧ w.sends i = some (.connecting s) then
        some ((w.setSocket s { w.sockets s with phase := .destroyed }).setSend i .failed)
      else none
  | .response s resp =>
      match (w.sockets s).unanswered with
      | request :: _ =>
          if (w.sockets s).phase = .connected ∧ 0 < (w.sockets s).handlers then
            let r := handleTimes (resp.toJson showFloat) (w.sockets s).handlers w.client
            let socket := { w.sockets s with answered := (w.sockets s).answered + 1 }
            some (({ w with client := r.1 }.setSocket s socket).settle r.2 (.answered request))
          else none
      | [] => none
  | .notification s n =>
      if (w.sockets s).phase = .connected ∧ 0 < (w.sockets s).handlers ∧ n.notify ≠ "" then
        some { w with
          client := (handleTimes (n.toJson showFloat) (w.sockets s).handlers w.client).1 }
      else none
  | .drop s =>
      if (w.sockets s).phase = .connected then
        some (w.setSocket s { w.sockets s with phase := .destroyed })
      else none
  | .destroy =>
      match w.liveSocket with
      | some s => some (w.setSocket s { w.sockets s with phase := .destroyed })
      | none => none
  | .close s =>
      if (w.sockets s).phase = .destroyed then
        let w := w.setSocket s { w.sockets s with phase := .closed }
        if 0 < (w.sockets s).handlers then
          some ({ w with client := w.client.onClose.1 }.settle w.client.onClose.2 .failed)
        else some w
      else none

end

end SocketWorld

/-- All runs of the client over its sockets. -/
def clientSockets (showFloat : Rat → NumLit) : StepSystem SocketWorld SocketEvent where
  init := ⟨.new, fun _ => .unused, 0, fun _ => none, 0⟩
  step := SocketWorld.step showFloat

namespace SocketWorld

/-! ## What the queue should be -/

/-- The sends that the socket at hand has still to answer. -/
def unanswered (w : SocketWorld) : List SendId :=
  match w.client.socket with
  | some s => (w.sockets s).unanswered
  | none => []

/-- The queue is that of the socket at hand, no promise has another request's
response, and no promise waits for a socket that has closed. -/
structure Fresh (w : SocketWorld) : Prop where
  pending : w.client.pending = w.unanswered
  answered : ∀ i request, w.sends i = some (.answered request) → request = i
  settled : ∀ i s, (w.sockets s).phase = .closed →
    w.sends i ≠ some (.connecting s) ∧ w.sends i ≠ some (.waiting s)

/-- No attempt fails while calls are queued, no connecting socket is destroyed,
no socket is made while calls are queued, and a handled socket closes while it is
at hand. -/
def Orderly (w : SocketWorld) : SocketEvent → Prop
  | .send => w.liveSocket = none → w.client.pending = []
  | .connectFailed _ _ => w.client.pending = []
  | .destroy => ∀ s, w.client.socket = some s → (w.sockets s).phase ≠ .connecting
  | .close s => 0 < (w.sockets s).handlers → w.client.socket = some s
  | .connected _ _ | .response _ _ | .notification _ _ | .drop _ => True

/-- What holds between the steps of an orderly run. -/
structure Ordered (w : SocketWorld) : Prop where
  pending : w.client.pending = w.unanswered
  nodup : w.client.pending.Nodup
  answered_le : ∀ s, (w.sockets s).answered ≤ (w.sockets s).written.length
  waiting : ∀ i, i ∈ w.client.pending → ∃ s, w.sends i = some (.waiting s)
  queued : ∀ i s, w.sends i = some (.waiting s) →
    w.client.socket = some s ∧ i ∈ w.client.pending
  current : ∀ s, (w.sockets s).Live → w.client.socket = some s
  bare : ∀ s, (w.sockets s).phase = .connecting → (w.sockets s).handlers = 0
  handled : ∀ s, (w.sockets s).phase = .connected → (w.sockets s).handlers = 1
  lost : ∀ s, w.client.socket = some s → (w.sockets s).handlers = 0 ∨
    (w.sockets s).phase = .closed → (w.sockets s).phase ≠ .connecting → w.client.pending = []
  maker : ∀ i s, w.sends i = some (.connecting s) → (w.sockets s).phase = .connecting
  maker_unique : ∀ i j s, w.sends i = some (.connecting s) → w.sends j = some (.connecting s) →
    i = j
  socket_lt : ∀ s, w.client.socket = some s → s < w.freshSocket
  unused : ∀ s, w.freshSocket ≤ s → w.sockets s = .unused
  send_lt : ∀ i, w.freshSend ≤ i → w.sends i = none
  answered : ∀ i request, w.sends i = some (.answered request) → request = i

variable {showFloat : Rat → NumLit} {w w' : SocketWorld} {s : SocketId} {i : SendId}

/-! ## The parts of a step -/

private theorem sockets_setSocket (socket : Socket) (t : SocketId) :
    (w.setSocket s socket).sockets t = if t = s then socket else w.sockets t :=
  Function.update_apply ..

private theorem sends_setSend (state : SendState) (j : SendId) :
    (w.setSend i state).sends j = if j = i then some state else w.sends j :=
  Function.update_apply ..

@[simp]
theorem phase_write (socket : Socket) (i : SendId) : (socket.write i).phase = socket.phase := by
  unfold Socket.write
  split_ifs <;> rfl

@[simp]
theorem handlers_write (socket : Socket) (i : SendId) :
    (socket.write i).handlers = socket.handlers := by
  unfold Socket.write
  split_ifs <;> rfl

private theorem sockets_queue (t : SocketId) :
    (w.queue s i).sockets t = if t = s then (w.sockets s).write i else w.sockets t :=
  Function.update_apply ..

private theorem sends_queue (j : SendId) :
    (w.queue s i).sends j = if j = i then some (.waiting s) else w.sends j :=
  Function.update_apply ..

private theorem unanswered_of_socket (hs : w.client.socket = some s) :
    w.unanswered = (w.sockets s).unanswered := by
  rw [SocketWorld.unanswered, hs]

/-- After a change of one send, another state is that of another send. -/
theorem sends_of_update {sends : SendId → Option SendState} {state state' : SendState} {j : SendId}
    (h : (if j = i then some state else sends j) = some state') (hne : state ≠ state') :
    j ≠ i ∧ sends j = some state' := by
  split_ifs at h with hji
  · exact absurd (Option.some.inj h) hne
  · exact ⟨hji, h⟩

private theorem liveSocket_eq_some : w.liveSocket = some s ↔
    w.client.socket = some s ∧ (w.sockets s).Live := by
  simp [liveSocket, Option.filter_eq_some_iff]

private theorem not_live_of_liveSocket (h : w.liveSocket = none) (hs : w.client.socket = some s) :
    ¬ (w.sockets s).Live := fun hlive => by
  have := liveSocket_eq_some.mpr ⟨hs, hlive⟩
  simp [h] at this

/-- A response resolves the promise at the front of the queue. -/
theorem handleTimes_response (showFloat : Rat → NumLit) {rest : List SendId} (resp : Response)
    (hpending : w.client.pending = i :: rest) :
    handleTimes (resp.toJson showFloat) 1 w.client =
      ({ w.client with pending := rest }, [(i, resp.toJson showFloat)]) := by
  have hhandle := DaemonClient.handle_response (c := w.client) showFloat resp
  rw [hpending] at hhandle
  simp [handleTimes, hhandle]

/-- A notification leaves the queue as it is. -/
theorem handleTimes_notification (showFloat : Rat → NumLit) {n : Notification}
    (hname : n.notify ≠ "") :
    ∀ (k : ℕ) (c : DaemonClient),
      (handleTimes (n.toJson showFloat) k c).1.pending = c.pending ∧
      (handleTimes (n.toJson showFloat) k c).1.socket = c.socket := by
  intro k
  induction k with
  | zero => exact fun c => ⟨rfl, rfl⟩
  | succ k ih =>
      intro c
      rw [handleTimes, DaemonClient.handle_notification showFloat hname]
      obtain ⟨hpending, hsocket⟩ :=
        ih (c.onNotify (.str n.notify) (some (n.data.toJson showFloat)))
      exact ⟨by rw [hpending, DaemonClient.pending_onNotify],
        by rw [hsocket, DaemonClient.socket_onNotify]⟩

/-! ## What each part keeps -/

/-- The socket at hand takes a message or gives one, and one send goes on. It is left to show
what becomes of the queue. -/
theorem Ordered.exchanged (h : w.Ordered) (hs : w.client.socket = some s) {socket : Socket}
    {state : SendState} (hclient : w'.client.socket = w.client.socket)
    (hfresh : w'.freshSocket = w.freshSocket ∧ w'.freshSend = w.freshSend)
    (hsockets : ∀ t, w'.sockets t = if t = s then socket else w.sockets t)
    (hsends : ∀ j, w'.sends j = if j = i then some state else w.sends j)
    (hphase : socket.phase = (w.sockets s).phase)
    (hhandlers : socket.handlers = (w.sockets s).handlers)
    (hup : (w.sockets s).handlers = 0 ∨ (w.sockets s).phase = .closed →
      (w.sockets s).phase = .connecting)
    (hstate : ∀ t, state ≠ .connecting t) (hi : i < w.freshSend)
    (hanswered : ∀ request, state = .answered request → request = i)
    (hanswered_le : socket.answered ≤ socket.written.length)
    (hpending : w'.client.pending = socket.unanswered) (hnodup : w'.client.pending.Nodup)
    (hwaiting : ∀ j, j ∈ w'.client.pending → ∃ t, w'.sends j = some (.waiting t))
    (hqueued : ∀ j t, w'.sends j = some (.waiting t) → t = s ∧ j ∈ w'.client.pending) :
    w'.Ordered := by
  have hs' : w'.client.socket = some s := hclient.trans hs
  have hsame : ∀ t, (w'.sockets t).phase = (w.sockets t).phase ∧
      (w'.sockets t).handlers = (w.sockets t).handlers := by
    intro t
    rw [hsockets]
    split_ifs with ht
    · exact ht ▸ ⟨hphase, hhandlers⟩
    · exact ⟨rfl, rfl⟩
  have hold : ∀ {j t}, w'.sends j = some (.connecting t) → w.sends j = some (.connecting t) := by
    intro j t hj
    rw [hsends] at hj
    exact (sends_of_update hj (hstate t)).2
  refine ⟨?_, hnodup, ?_, hwaiting, fun j t hj => ?_, ?_, ?_, ?_, ?_, ?_, ?_, ?_, ?_, ?_, ?_⟩
  · rw [unanswered_of_socket hs', hsockets, if_pos rfl, hpending]
  · intro t
    rw [hsockets]
    split_ifs
    · exact hanswered_le
    · exact h.answered_le t
  · obtain ⟨rfl, hmem⟩ := hqueued j t hj
    exact ⟨hs', hmem⟩
  · intro t ht
    rw [Socket.Live, (hsame t).1] at ht
    exact hclient.trans (h.current t ht)
  · intro t
    rw [(hsame t).1, (hsame t).2]
    exact h.bare t
  · intro t
    rw [(hsame t).1, (hsame t).2]
    exact h.handled t
  · intro t ht hlost hnot
    obtain rfl : s = t := Option.some.inj (hs'.symm.trans ht)
    rw [(hsame s).1, (hsame s).2] at hlost
    exact absurd ((hsame s).1.trans (hup hlost)) hnot
  · intro j t hj
    exact (hsame t).1.trans (h.maker j t (hold hj))
  · intro j k t hj hk
    exact h.maker_unique j k t (hold hj) (hold hk)
  · intro t ht
    rw [hfresh.1]
    exact h.socket_lt t (hclient.symm.trans ht)
  · intro t ht
    rw [hfresh.1] at ht
    have hts : t ≠ s := fun heq => absurd (h.socket_lt s hs) (Nat.not_lt.mpr (heq ▸ ht))
    rw [hsockets, if_neg hts]
    exact h.unused t ht
  · intro j hj
    rw [hfresh.2] at hj
    have hji : j ≠ i := fun heq => absurd hi (Nat.not_lt.mpr (heq ▸ hj))
    rw [hsends, if_neg hji]
    exact h.send_lt j hj
  · intro j request hj
    rw [hsends] at hj
    split_ifs at hj with hji
    · exact (hanswered request (Option.some.inj hj)).trans hji.symm
    · exact h.answered j request hj

theorem Ordered.queue (h : w.Ordered) (hs : w.client.socket = some s) (hlive : (w.sockets s).Live)
    (hi : i < w.freshSend) (hsend : w.sends i = none ∨ w.sends i = some .failed) :
    (w.queue s i).Ordered := by
  have hnew : i ∉ w.client.pending := by
    intro hmem
    obtain ⟨t, ht⟩ := h.waiting i hmem
    simp [ht] at hsend
  have hwritten : (w.sockets s).write i =
      { w.sockets s with written := (w.sockets s).written ++ [i] } := if_pos hlive
  have hpending : (w.queue s i).client.pending = w.client.pending ++ [i] := rfl
  refine h.exchanged hs rfl ⟨rfl, rfl⟩ sockets_queue sends_queue (phase_write ..)
    (handlers_write ..) ?_ (by simp) hi (by simp) ?_ ?_ ?_ ?_ ?_
  · intro hlost
    obtain hphase | hphase := hlive
    · exact hphase
    · simp [hphase, h.handled s hphase] at hlost
  · rw [hwritten]
    simpa using Nat.le_succ_of_le (h.answered_le s)
  · rw [hpending, h.pending, unanswered_of_socket hs, hwritten]
    exact (List.drop_append_of_le_length (h.answered_le s)).symm
  · rw [hpending, List.nodup_append]
    exact ⟨h.nodup, List.nodup_singleton i, fun j hj k hk heq =>
      hnew (List.mem_singleton.mp hk ▸ heq ▸ hj)⟩
  · intro j hj
    rw [sends_queue]
    split_ifs with hji
    · exact ⟨s, rfl⟩
    · exact h.waiting j ((List.mem_append.mp hj).resolve_right (by simpa using hji))
  · intro j t hj
    rw [sends_queue] at hj
    split_ifs at hj with hji
    · exact ⟨(SendState.waiting.inj (Option.some.inj hj)).symm,
        List.mem_append_right _ (by simp [hji])⟩
    · obtain ⟨ht, hmem⟩ := h.queued j t hj
      exact ⟨(Option.some.inj (hs.symm.trans ht)).symm, List.mem_append_left _ hmem⟩

/-- A send is given a number. -/
theorem Ordered.number (h : w.Ordered) : { w with freshSend := w.freshSend + 1 }.Ordered :=
  ⟨h.pending, h.nodup, h.answered_le, h.waiting, h.queued, h.current, h.bare, h.handled, h.lost,
    h.maker, h.maker_unique, h.socket_lt, h.unused,
    fun i hi => h.send_lt i (Nat.le_of_succ_le hi), h.answered⟩

/-- Only the queue and the socket of the client matter. -/
theorem Ordered.sameQueue (h : w.Ordered) {c : DaemonClient}
    (hpending : c.pending = w.client.pending) (hsocket : c.socket = w.client.socket) :
    { w with client := c }.Ordered := by
  refine ⟨?_, ?_, h.answered_le, ?_, ?_, ?_, h.bare, h.handled, ?_, h.maker, h.maker_unique, ?_,
    h.unused, h.send_lt, h.answered⟩
  all_goals simp only [SocketWorld.unanswered, hpending, hsocket]
  · exact h.pending
  · exact h.nodup
  · exact h.waiting
  · exact h.queued
  · exact h.current
  · exact h.lost
  · exact h.socket_lt

/-- A socket changes its phase. -/
theorem Ordered.setSocket (h : w.Ordered) {socket : Socket}
    (hwritten : socket.written = (w.sockets s).written)
    (hanswered : socket.answered = (w.sockets s).answered)
    (hlt : s < w.freshSocket) (hcurrent : socket.Live → w.client.socket = some s)
    (hbare : socket.phase = .connecting → socket.handlers = 0)
    (hhandled : socket.phase = .connected → socket.handlers = 1)
    (hlost : w.client.socket = some s → socket.handlers = 0 ∨ socket.phase = .closed →
      socket.phase ≠ .connecting → w.client.pending = [])
    (hmaker : ∀ i, w.sends i = some (.connecting s) → socket.phase = .connecting) :
    (w.setSocket s socket).Ordered := by
  have hunanswered : ∀ t, ((w.setSocket s socket).sockets t).unanswered =
      (w.sockets t).unanswered := by
    intro t
    rw [sockets_setSocket]
    split_ifs with ht
    · rw [Socket.unanswered, hwritten, hanswered, ht, Socket.unanswered]
    · rfl
  refine ⟨?_, h.nodup, ?_, h.waiting, h.queued, ?_, ?_, ?_, ?_, ?_, h.maker_unique, h.socket_lt,
    ?_, h.send_lt, h.answered⟩
  · have hsame : (w.setSocket s socket).unanswered = w.unanswered := by
      have hclient : (w.setSocket s socket).client = w.client := rfl
      simp only [SocketWorld.unanswered, hclient, hunanswered]
    rw [hsame]
    exact h.pending
  · intro t
    rw [sockets_setSocket]
    split_ifs with ht
    · rw [hwritten, hanswered]
      exact h.answered_le s
    · exact h.answered_le t
  · intro t
    rw [sockets_setSocket]
    split_ifs with ht
    · exact ht ▸ hcurrent
    · exact h.current t
  · intro t
    rw [sockets_setSocket]
    split_ifs
    · exact hbare
    · exact h.bare t
  · intro t
    rw [sockets_setSocket]
    split_ifs
    · exact hhandled
    · exact h.handled t
  · intro t
    rw [sockets_setSocket]
    split_ifs with ht
    · exact ht ▸ hlost
    · exact h.lost t
  · intro i t hi
    rw [sockets_setSocket]
    split_ifs with ht
    · exact hmaker i (ht ▸ hi)
    · exact h.maker i t hi
  · intro t ht
    have hts : t ≠ s := fun heq => absurd hlt (Nat.not_lt.mpr (heq ▸ ht))
    rw [sockets_setSocket, if_neg hts]
    exact h.unused t ht

/-- The attempt of a send is over. -/
theorem Ordered.fail (h : w.Ordered) (hi : w.sends i = some (.connecting s)) :
    (w.setSend i .failed).Ordered ∧ ∀ j, (w.setSend i .failed).sends j ≠ some (.connecting s) := by
  have hnew : i ∉ w.client.pending := by
    intro hmem
    obtain ⟨t, ht⟩ := h.waiting i hmem
    simp [hi] at ht
  refine ⟨⟨h.pending, h.nodup, h.answered_le, ?_, ?_, h.current, h.bare, h.handled, h.lost, ?_, ?_,
    h.socket_lt, h.unused, ?_, ?_⟩, ?_⟩
  · intro j hj
    have hji : j ≠ i := fun heq => hnew (heq ▸ hj)
    rw [sends_setSend, if_neg hji]
    exact h.waiting j hj
  · intro j t hj
    rw [sends_setSend] at hj
    exact h.queued j t (sends_of_update hj (by simp)).2
  · intro j t hj
    rw [sends_setSend] at hj
    exact h.maker j t (sends_of_update hj (by simp)).2
  · intro j k t hj hk
    rw [sends_setSend] at hj hk
    exact h.maker_unique j k t (sends_of_update hj (by simp)).2 (sends_of_update hk (by simp)).2
  · intro j hj
    have hji : j ≠ i := by
      rintro rfl
      simp [h.send_lt j hj] at hi
    rw [sends_setSend, if_neg hji]
    exact h.send_lt j hj
  · intro j request hj
    rw [sends_setSend] at hj
    exact h.answered j request (sends_of_update hj (by simp)).2
  · intro j hj
    rw [sends_setSend] at hj
    obtain ⟨hji, hj⟩ := sends_of_update hj (by simp)
    exact hji (h.maker_unique j i s hj hi)

/-- A send makes a socket. -/
theorem Ordered.make (h : w.Ordered) (hdead : w.liveSocket = none)
    (hpending : w.client.pending = []) :
    ({ w.makeSocket with freshSend := w.freshSend + 1 }.setSend w.freshSend
      (.connecting w.freshSocket)).Ordered := by
  have hsockets : ∀ t, (w.makeSocket).sockets t =
      if t = w.freshSocket then .new else w.sockets t := fun t => Function.update_apply ..
  have hsends : ∀ j, ({ w.makeSocket with freshSend := w.freshSend + 1 }.setSend w.freshSend
      (.connecting w.freshSocket)).sends j =
      if j = w.freshSend then some (.connecting w.freshSocket) else w.sends j :=
    fun j => Function.update_apply ..
  have hnolive : ∀ t, ¬ (w.sockets t).Live := fun t ht =>
    not_live_of_liveSocket hdead (h.current t ht) ht
  have hnomaker : ∀ j t, w.sends j ≠ some (.connecting t) := fun j t hj =>
    hnolive t (Or.inl (h.maker j t hj))
  have hmaker : ∀ j t, (if j = w.freshSend then some (.connecting w.freshSocket) else w.sends j) =
      some (SendState.connecting t) → j = w.freshSend ∧ t = w.freshSocket := by
    intro j t hj
    split_ifs at hj with hjf
    · exact ⟨hjf, (SendState.connecting.inj (Option.some.inj hj)).symm⟩
    · exact absurd hj (hnomaker j t)
  refine ⟨?_, h.nodup, ?_, ?_, ?_, ?_, ?_, ?_, ?_, ?_, ?_, ?_, ?_, ?_, ?_⟩
  · have hnew : (w.makeSocket).sockets w.freshSocket = .new := by rw [hsockets, if_pos rfl]
    have hnone : ((w.makeSocket).sockets w.freshSocket).unanswered = [] := by rw [hnew]; rfl
    exact hpending.trans hnone.symm
  · intro t
    change ((w.makeSocket).sockets t).answered ≤ ((w.makeSocket).sockets t).written.length
    rw [hsockets]
    split_ifs
    · exact le_rfl
    · exact h.answered_le t
  · intro j hj
    have hnil : j ∈ w.client.pending := hj
    simp [hpending] at hnil
  · intro j t hj
    rw [hsends] at hj
    obtain ⟨-, hmem⟩ := h.queued j t (sends_of_update hj (by simp)).2
    simp [hpending] at hmem
  · intro t ht
    change ((w.makeSocket).sockets t).Live at ht
    rw [hsockets] at ht
    split_ifs at ht with htf
    · exact congrArg some htf.symm
    · exact absurd ht (hnolive t)
  · intro t
    change ((w.makeSocket).sockets t).phase = _ → ((w.makeSocket).sockets t).handlers = 0
    rw [hsockets]
    split_ifs
    · exact fun _ => rfl
    · exact h.bare t
  · intro t
    change ((w.makeSocket).sockets t).phase = _ → ((w.makeSocket).sockets t).handlers = 1
    rw [hsockets]
    split_ifs
    · exact fun hphase => absurd hphase (by decide)
    · exact h.handled t
  · exact fun _ _ _ _ => hpending
  · intro j t hj
    rw [hsends] at hj
    change ((w.makeSocket).sockets t).phase = _
    rw [hsockets, if_pos (hmaker j t hj).2]
    rfl
  · intro j k t hj hk
    rw [hsends] at hj hk
    exact (hmaker j t hj).1.trans (hmaker k t hk).1.symm
  · intro t ht
    obtain rfl := Option.some.inj ht
    exact Nat.lt_succ_self _
  · intro t ht
    have htf : t ≠ w.freshSocket := Nat.ne_of_gt ht
    change (w.makeSocket).sockets t = _
    rw [hsockets, if_neg htf]
    exact h.unused t (Nat.le_of_succ_le ht)
  · intro j hj
    have hjf : j ≠ w.freshSend := Nat.ne_of_gt hj
    rw [hsends, if_neg hjf]
    exact h.send_lt j (Nat.le_of_succ_le hj)
  · intro j request hj
    rw [hsends] at hj
    exact h.answered j request (sends_of_update hj (by simp)).2

/-- A response arrives at the socket at hand. -/
theorem Ordered.respond (h : w.Ordered) {rest : List SendId} (hs : w.client.socket = some s)
    (hphase : (w.sockets s).phase = .connected)
    (hunanswered : (w.sockets s).unanswered = i :: rest) {msg : Json} :
    (({ w with client := { w.client with pending := rest } }.setSocket s
      { w.sockets s with answered := (w.sockets s).answered + 1 }).settle [(i, msg)]
      (.answered i)).Ordered := by
  have hpending : w.client.pending = i :: rest := by
    rw [h.pending, unanswered_of_socket hs, hunanswered]
  have hnodup := h.nodup
  rw [hpending] at hnodup
  obtain ⟨hnot, hrest⟩ := List.nodup_cons.mp hnodup
  have hdrop : (w.sockets s).written.drop ((w.sockets s).answered + 1) = rest := by
    rw [← List.drop_drop]
    rw [Socket.unanswered] at hunanswered
    rw [hunanswered]
    rfl
  let w' := ({ w with client := { w.client with pending := rest } }.setSocket s
    { w.sockets s with answered := (w.sockets s).answered + 1 }).settle [(i, msg)] (.answered i)
  have hsends : ∀ j, w'.sends j = if j = i then some (.answered i) else w.sends j := fun j => by
    simp [w', settle, SocketWorld.setSocket]
  refine h.exchanged hs rfl ⟨rfl, rfl⟩ (fun t => Function.update_apply ..) hsends
    rfl rfl ?_ (by simp) ?_ (by simp) ?_ hdrop.symm hrest ?_ ?_
  · simp [h.handled s hphase, hphase]
  · obtain ⟨t, ht⟩ := h.waiting i (hpending ▸ List.mem_cons_self)
    exact Nat.lt_of_not_le fun hle => by simp [h.send_lt i hle] at ht
  · apply Nat.lt_of_not_le
    intro hle
    rw [Socket.unanswered, List.drop_eq_nil_of_le hle] at hunanswered
    simp at hunanswered
  · intro j hj
    have hji : j ≠ i := fun heq => hnot (heq ▸ hj)
    rw [hsends, if_neg hji]
    exact h.waiting j (hpending ▸ List.mem_cons_of_mem i hj)
  · intro j t hj
    rw [hsends] at hj
    obtain ⟨hji, hj⟩ := sends_of_update hj (by simp)
    obtain ⟨ht, hmem⟩ := h.queued j t hj
    rw [hpending] at hmem
    exact ⟨(Option.some.inj (hs.symm.trans ht)).symm, (List.mem_cons.mp hmem).resolve_left hji⟩

/-- The handled socket at hand closes. -/
theorem Ordered.lose (h : w.Ordered) (hs : w.client.socket = some s)
    (hdead : ¬ (w.sockets s).Live) :
    ({ w with client := w.client.onClose.1 }.settle w.client.onClose.2 .failed).Ordered := by
  let w' := { w with client := w.client.onClose.1 }.settle w.client.onClose.2 .failed
  have hsends : ∀ j, w'.sends j =
      if j ∈ w.client.pending then some .failed else w.sends j := fun j => by
    simp [w', settle, DaemonClient.onClose]
  have hold : ∀ {j state}, w'.sends j = some state → state ≠ .failed →
      j ∉ w.client.pending ∧ w.sends j = some state := by
    intro j state hj hne
    rw [hsends] at hj
    split_ifs at hj with hmem
    · exact absurd (Option.some.inj hj).symm hne
    · exact ⟨hmem, hj⟩
  refine ⟨rfl, List.nodup_nil, h.answered_le, ?_, ?_, ?_, h.bare, h.handled, ?_, ?_, ?_, ?_,
    h.unused, ?_, ?_⟩
  · intro j hj
    simp [settle, DaemonClient.onClose] at hj
  · intro j t hj
    obtain ⟨hnot, hj⟩ := hold hj (by simp)
    exact absurd (h.queued j t hj).2 hnot
  · intro t ht
    have hts : s = t := Option.some.inj (hs.symm.trans (h.current t ht))
    exact absurd (hts ▸ ht) hdead
  · intro t ht
    simp [settle, DaemonClient.onClose] at ht
  · intro j t hj
    exact h.maker j t (hold hj (by simp)).2
  · intro j k t hj hk
    exact h.maker_unique j k t (hold hj (by simp)).2 (hold hk (by simp)).2
  · intro t ht
    simp [settle, DaemonClient.onClose] at ht
  · intro j hj
    have hnot : j ∉ w.client.pending := by
      intro hmem
      obtain ⟨t, ht⟩ := h.waiting j hmem
      simp [h.send_lt j hj] at ht
    rw [hsends, if_neg hnot]
    exact h.send_lt j hj
  · intro j request hj
    exact h.answered j request (hold hj (by simp)).2

/-! ## Runs -/

private theorem init_ordered : (clientSockets showFloat).init.Ordered where
  pending := rfl
  nodup := List.nodup_nil
  answered_le _ := le_rfl
  waiting i h := by simp [clientSockets, DaemonClient.new] at h
  queued i s h := by simp [clientSockets] at h
  current s h := by simp [clientSockets, Socket.Live, Socket.unused] at h
  bare _ _ := rfl
  handled s h := by simp [clientSockets, Socket.unused] at h
  lost _ _ _ _ := rfl
  maker i s h := by simp [clientSockets] at h
  maker_unique i j s h := by simp [clientSockets] at h
  socket_lt s h := by simp [clientSockets, DaemonClient.new] at h
  unused _ _ := rfl
  send_lt _ _ := rfl
  answered i request h := by simp [clientSockets] at h

/-- An attempt succeeds: the handlers are installed and the send is queued. -/
theorem Ordered.connected (h : w.Ordered) (hphase : (w.sockets s).phase = .connecting)
    (hi : w.sends i = some (.connecting s)) :
    ((w.setSocket s
      { w.sockets s with phase := .connected, handlers := 1 }).queue s i).Ordered := by
  have hs := h.current s (Or.inl hphase)
  obtain ⟨hfail, hnomaker⟩ := h.fail hi
  have hlt : i < w.freshSend := by
    apply Nat.lt_of_not_le
    intro hle
    simp [h.send_lt i hle] at hi
  have hsocket : ((w.setSend i .failed).setSocket s
      { w.sockets s with phase := .connected, handlers := 1 }).Ordered :=
    hfail.setSocket rfl rfl (h.socket_lt s hs) (fun _ => hs) (by simp) (by simp)
      (fun _ hlost => by simp at hlost) fun j hj => absurd hj (hnomaker j)
  have hqueue := hsocket.queue hs (Or.inr (by simp [sockets_setSocket])) hlt
    (Or.inr (by rw [SocketWorld.setSocket, sends_setSend, if_pos rfl]))
  -- the send's failed attempt is overwritten
  have hsame : ((w.setSend i .failed).setSocket s
      { w.sockets s with phase := .connected, handlers := 1 }).queue s i =
      (w.setSocket s { w.sockets s with phase := .connected, handlers := 1 }).queue s i := by
    simp [SocketWorld.queue, SocketWorld.setSocket, setSend]
  exact hsame ▸ hqueue

/-- A socket is destroyed, by its peer or by the client. -/
theorem Ordered.destroyed (h : w.Ordered) (hphase : (w.sockets s).phase = .connected) :
    (w.setSocket s { w.sockets s with phase := .destroyed }).Ordered := by
  have hs := h.current s (Or.inr hphase)
  refine h.setSocket rfl rfl (h.socket_lt s hs) (fun _ => hs) (by simp) (by simp)
    (fun _ hlost => ?_) fun i hi => ?_
  · simp [h.handled s hphase] at hlost
  · simp [h.maker i s hi] at hphase

/-- An attempt fails while nothing is queued. -/
theorem Ordered.connectFailed (h : w.Ordered) (hphase : (w.sockets s).phase = .connecting)
    (hi : w.sends i = some (.connecting s)) (hpending : w.client.pending = []) :
    ((w.setSocket s { w.sockets s with phase := .destroyed }).setSend i .failed).Ordered := by
  have hs := h.current s (Or.inl hphase)
  obtain ⟨hfail, hnomaker⟩ := h.fail hi
  have hdestroyed : ((w.setSend i .failed).setSocket s
      { w.sockets s with phase := .destroyed }).Ordered :=
    hfail.setSocket rfl rfl (h.socket_lt s hs) (fun _ => hs) (by simp) (by simp)
      (fun _ _ _ => hpending) fun j hj => absurd hj (hnomaker j)
  exact hdestroyed

/-- The handled socket at hand closes, and the queue is emptied. -/
theorem Ordered.closed (h : w.Ordered) (hs : w.client.socket = some s)
    (hphase : (w.sockets s).phase = .destroyed) :
    (({ w with client := w.client.onClose.1 }.settle w.client.onClose.2
      .failed).setSocket s { w.sockets s with phase := .closed }).Ordered := by
  have hdead : ¬ (w.sockets s).Live := by simp [Socket.Live, hphase]
  have hlost := h.lose hs hdead
  refine hlost.setSocket rfl rfl (h.socket_lt s hs) (by simp [Socket.Live]) (by simp)
    (by simp) (fun _ _ _ => rfl) fun i hi => ?_
  have hmaker := hlost.maker i s hi
  simp [settle, hphase] at hmaker

/-- A socket without handlers closes, and leaves the queue alone. -/
theorem Ordered.closedBare (h : w.Ordered) (hphase : (w.sockets s).phase = .destroyed)
    (hhandlers : (w.sockets s).handlers = 0) :
    (w.setSocket s { w.sockets s with phase := .closed }).Ordered := by
  have hlt : s < w.freshSocket := by
    apply Nat.lt_of_not_le
    intro hle
    simp [h.unused s hle, Socket.unused] at hphase
  refine h.setSocket rfl rfl hlt (by simp [Socket.Live]) (by simp) (by simp)
    (fun hs _ _ => h.lost s hs (Or.inl hhandlers) (by simp [hphase])) fun i hi => ?_
  simp [h.maker i s hi] at hphase

/-- The data handler of the socket at hand resolves the promise at the front. -/
theorem Ordered.response (h : w.Ordered) {request : SendId} {rest : List SendId}
    (hphase : (w.sockets s).phase = .connected)
    (hunanswered : (w.sockets s).unanswered = request :: rest) (resp : Response) :
    (({ w with client :=
        (handleTimes (resp.toJson showFloat) (w.sockets s).handlers w.client).1 }.setSocket s
      { w.sockets s with answered := (w.sockets s).answered + 1 }).settle
      (handleTimes (resp.toJson showFloat) (w.sockets s).handlers w.client).2
      (.answered request)).Ordered := by
  have hs := h.current s (Or.inr hphase)
  have hpending : w.client.pending = request :: rest := by
    rw [h.pending, unanswered_of_socket hs, hunanswered]
  rw [h.handled s hphase, handleTimes_response showFloat resp hpending]
  exact h.respond hs hphase hunanswered

/-- What an orderly step preserves. -/
theorem Ordered.step {e : SocketEvent} (h : w.Ordered) (horderly : w.Orderly e)
    (hstep : w.step showFloat e = some w') : w'.Ordered := by
  cases e with
  | send =>
      simp only [SocketWorld.step] at hstep
      split at hstep
      · rename_i s hlive
        obtain rfl := Option.some.inj hstep
        obtain ⟨hs, hlive⟩ := liveSocket_eq_some.mp hlive
        exact h.number.queue hs hlive (Nat.lt_succ_self _) (Or.inl (h.send_lt _ le_rfl))
      · rename_i hdead
        obtain rfl := Option.some.inj hstep
        exact h.make hdead (horderly hdead)
  | connected s i =>
      simp only [SocketWorld.step] at hstep
      split_ifs at hstep with hconnects
      obtain ⟨hphase, hi⟩ := hconnects
      have hs : (w.setSocket s { w.sockets s with phase := .connected }).client.socket = some s :=
        h.current s (Or.inl hphase)
      rw [hs] at hstep
      obtain rfl := Option.some.inj hstep
      have hconnected := h.connected hphase hi
      simpa [SocketWorld.setSocket, h.bare s hphase] using hconnected
  | connectFailed s i =>
      simp only [SocketWorld.step] at hstep
      split_ifs at hstep with hconnects
      obtain rfl := Option.some.inj hstep
      exact h.connectFailed hconnects.1 hconnects.2 horderly
  | response s resp =>
      simp only [SocketWorld.step] at hstep
      split at hstep
      · rename_i request rest hunanswered
        split_ifs at hstep with hconnected
        obtain rfl := Option.some.inj hstep
        exact h.response hconnected.1 hunanswered resp
      · simp at hstep
  | notification s n =>
      simp only [SocketWorld.step] at hstep
      split_ifs at hstep with hconnected
      obtain rfl := Option.some.inj hstep
      have hkeeps :=
        handleTimes_notification showFloat hconnected.2.2 (w.sockets s).handlers w.client
      exact h.sameQueue hkeeps.1 hkeeps.2
  | drop s =>
      simp only [SocketWorld.step] at hstep
      split_ifs at hstep with hphase
      obtain rfl := Option.some.inj hstep
      exact h.destroyed hphase
  | destroy =>
      simp only [SocketWorld.step] at hstep
      split at hstep
      · rename_i s hlive
        obtain rfl := Option.some.inj hstep
        obtain ⟨hs, hlive⟩ := liveSocket_eq_some.mp hlive
        exact h.destroyed (hlive.resolve_left (horderly s hs))
      · simp at hstep
  | close s =>
      simp only [SocketWorld.step] at hstep
      split_ifs at hstep with hphase hhandlers
      · obtain rfl := Option.some.inj hstep
        have hcount : 0 < (w.sockets s).handlers := by
          simpa [sockets_setSocket] using hhandlers
        exact h.closed (horderly hcount) hphase
      · obtain rfl := Option.some.inj hstep
        have hcount : (w.sockets s).handlers = 0 := by
          simpa [sockets_setSocket] using hhandlers
        exact h.closedBare hphase hcount

theorem Ordered.fresh (h : w.Ordered) : w.Fresh := by
  refine ⟨h.pending, h.answered, fun i s hclosed => ⟨fun hi => ?_, fun hi => ?_⟩⟩
  · simp [h.maker i s hi] at hclosed
  · obtain ⟨hs, hmem⟩ := h.queued i s hi
    rw [h.lost s hs (Or.inr hclosed) (by simp [hclosed])] at hmem
    exact absurd hmem List.not_mem_nil

instance (w : SocketWorld) : DecidablePred w.Orderly := fun e =>
  match e with
  | .send => inferInstanceAs (Decidable (_ → _))
  | .connectFailed _ _ => inferInstanceAs (Decidable (_ = _))
  | .destroy =>
      match h : w.client.socket with
      | none => isTrue fun s hs => by simp [h] at hs
      | some s => decidable_of_iff ((w.sockets s).phase ≠ .connecting) (by simp [Orderly, h])
  | .close _ => inferInstanceAs (Decidable (_ → _))
  | .connected _ _ | .response _ _ | .notification _ _ | .drop _ => isTrue trivial

end SocketWorld

/-- No stale resolver. In an orderly run the queue is always that of the
socket at hand, responses resolve the promises of their requests, and no promise
is left behind by a socket that has closed. -/
theorem no_stale_resolver (showFloat : Rat → NumLit) {es : List SocketEvent} {w : SocketWorld}
    (hrun : (clientSockets showFloat).run es = some w)
    (horderly : (clientSockets showFloat).Along (fun w e _ => w.Orderly e)
      (clientSockets showFloat).init es) : w.Fresh := by
  have hordered : w.Ordered :=
    (clientSockets showFloat).runFrom_invariant_along (P := SocketWorld.Ordered)
      (A := fun _ => True) (fun s e t _ horderly hs hstep => hs.step horderly hstep)
      (fun _ _ => trivial) horderly SocketWorld.init_ordered hrun
  exact hordered.fresh

/-- Two overlapping calls are answered, the daemon goes away, and the next call
connects again. -/
def reconnected : List SocketEvent :=
  [.send, .send, .connected 0 0, .response 0 (.successMsg "a"), .response 0 (.successMsg "b"),
    .send, .drop 0, .close 0, .send, .connected 1 3]

theorem no_stale_resolver_reconnected :
    ∃ w, (clientSockets fun _ => .ofNat 0).run reconnected = some w ∧
      [0, 1, 2, 3].map w.sends =
        [some (.answered 0), some (.answered 1), some .failed, some (.waiting 1)] ∧
      w.Fresh := by
  have hruns : ((clientSockets fun _ => .ofNat 0).run reconnected).any (fun w =>
      [0, 1, 2, 3].map w.sends =
        [some (.answered 0), some (.answered 1), some .failed, some (.waiting 1)]) = true := by
    decide +kernel
  obtain ⟨w, hrun, hsends⟩ := (Option.any_eq_true _ _).mp hruns
  refine ⟨w, hrun, by simpa using hsends, no_stale_resolver _ hrun ?_⟩
  decide +kernel

/-- A second call is queued behind an attempt that fails. The response to the
third one goes to it. -/
theorem resolver_not_always_fresh :
    ¬ ∀ (es : List SocketEvent) (w : SocketWorld),
      (clientSockets fun _ => .ofNat 0).run es = some w → w.Fresh := by
  intro hfresh
  have hruns : ((clientSockets fun _ => .ofNat 0).run
      [.send, .send, .connectFailed 0 0, .close 0, .send, .connected 1 2,
        .response 1 (.successMsg "c")]).any
      (fun w => w.sends 1 = some (.answered 2)) = true := by decide +kernel
  obtain ⟨w, hrun, hsends⟩ := (Option.any_eq_true _ _).mp hruns
  have hstale := (hfresh _ w hrun).answered 1 2 (by simpa using hsends)
  exact absurd hstale (by decide)

end Commmon

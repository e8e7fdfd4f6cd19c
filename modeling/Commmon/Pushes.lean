/-
# Pushing one port

What a streaming task does about one subscribed port: it takes the receiver of a
subscription out of its queue, receives entry after entry, writes each before it
receives the next, and drops the receiver after a pass that has met its closed
channel. Every step of the task is one of these for the port, or leaves the port
alone.
-/

import Commmon.Registrations

set_option autoImplicit false

namespace Commmon

open Broadcast

/-- The entry that a line pushes for a port. -/
def Push.rxOf (p : String) : Push → Option Arrival
  | .rxData port a => if port = p then some a else none
  | .filterHit _ _ => none

def Outgoing.rxOf (p : String) : Outgoing → Option Arrival
  | .response _ _ => none
  | .push line => line.rxOf p

/-- The entries of a port that have been pushed to a client. -/
def rxPushes (p : String) (written : List Outgoing) : List Arrival :=
  written.filterMap (Outgoing.rxOf p)

theorem rxPushes_pushed (p : String) (written : List Outgoing) (lines : List Push) :
    rxPushes p (written ++ lines.map .push) =
      rxPushes p written ++ lines.filterMap (Push.rxOf p) := by
  rw [rxPushes, rxPushes, List.filterMap_append, List.filterMap_map]
  rfl

/-- A response pushes nothing. -/
@[simp]
theorem rxPushes_answered (p : String) (written : List Outgoing) (req : Request)
    (resp : Response) : rxPushes p (written ++ [.response req resp]) = rxPushes p written := by
  simp [rxPushes, Outgoing.rxOf]

/-- The lines that a task has to write before it receives again. -/
def TaskPc.lines : TaskPc → List Push
  | .pollRx lines _ _ _ => lines
  | .pollFilters lines _ _ _ => lines
  | _ => []

/-- The task looks into its queue. -/
def TaskPc.takesCommand : TaskPc → Bool
  | .commands => true
  | .waiting => true
  | _ => false

/-- One port of a streaming task: its receiver, the entries that have been
received and not been written, and whether the pass has met its closed channel. -/
structure RxState where
  slot : Option Receiver
  inHand : List Arrival
  noticed : Bool

def StreamTask.rx (t : StreamTask) (p : String) : RxState where
  slot := t.maps.rxReceivers.lookup p
  inHand := t.pc.lines.filterMap (Push.rxOf p)
  noticed := decide (p ∈ t.pc.closedRx)

/-- The pushing pass is at the port, and has no line to write. -/
def StreamTask.polls (t : StreamTask) (p : String) : Bool :=
  match t.pc with
  | .pollRx [] (port :: _) _ _ => port = p
  | _ => false

/-- What a step that takes no command does about a port, and what it writes.
It receives only where the pass is at the port. -/
inductive RxState.Polls (m : SerialManager) (polling : Prop) :
    RxState → RxState → List Arrival → Prop
  | still (v : RxState) : Polls m polling v v []
  | wrote (slot : Option Receiver) (a : Arrival) (rest : List Arrival) (noticed : Bool) :
      Polls m polling ⟨slot, a :: rest, noticed⟩ ⟨slot, rest, noticed⟩ [a]
  | received (rx : Receiver) (entry : RxEntry) (noticed : Bool) (hpolling : polling)
      (hentry : (m.channels rx.chan).sent[rx.next]? = some entry)
      (hheld : (m.channels rx.chan).oldest ≤ rx.next) :
      Polls m polling ⟨some rx, [], noticed⟩
        ⟨some { rx with next := rx.next + 1 }, [⟨rx.chan, rx.next, entry⟩], noticed⟩ []
  | lagged (rx : Receiver) (noticed : Bool) (hpolling : polling)
      (hlost : rx.next < (m.channels rx.chan).oldest) :
      Polls m polling ⟨some rx, [], noticed⟩
        ⟨some { rx with next := (m.channels rx.chan).oldest }, [], noticed⟩ []
  | noticed (rx : Receiver) (before : Bool) (hread : (m.channels rx.chan).tail ≤ rx.next)
      (hclosed : (m.channels rx.chan).isClosed = true) :
      Polls m polling ⟨some rx, [], before⟩ ⟨some rx, [], true⟩ []
  | dropped (slot : Option Receiver) : Polls m polling ⟨slot, [], true⟩ ⟨none, [], false⟩ []

namespace StreamTask

variable {m : SerialManager} {t : StreamTask} {p : String}

private theorem pollRxAt_polls {port : String} {todo closed : List String} {gotData : Bool}
    (hpc : t.pc = .pollRx [] (port :: todo) closed gotData) :
    (t.rx p).Polls m (t.polls p) ((t.pollRxAt m port todo closed gotData).rx p) [] := by
  have hrx : t.rx p = ⟨t.maps.rxReceivers.lookup p, [], decide (p ∈ closed)⟩ := by
    simp only [StreamTask.rx, hpc, TaskPc.lines, TaskPc.closedRx, List.filterMap_nil]
  rw [hrx]
  unfold pollRxAt
  rcases hlookup : t.maps.rxReceivers.lookup port with - | rx
  · exact .still _
  · simp only [SerialManager.tryRecv]
    by_cases hp : p = port
    · subst hp
      have hpolling : t.polls p = true := by simp [polls, hpc]
      rw [hlookup]
      obtain ⟨entry, hentry, hheld, -, h⟩ | ⟨hlost, h⟩ | ⟨-, -, h⟩ | ⟨hread, hclosed, h⟩ :=
        (m.channels rx.chan).tryRecv_cases rx.next <;>
        simp only [h, StreamTask.rx, TaskPc.lines, TaskPc.closedRx, List.filterMap_nil,
          AList.lookup_insert, hlookup]
      · simpa [Push.rxOf] using RxState.Polls.received rx entry _ hpolling hentry hheld
      · exact .lagged rx _ hpolling hlost
      · exact .still _
      · simpa using RxState.Polls.noticed rx _ hread hclosed
    · obtain ⟨entry, hentry, hheld, -, h⟩ | ⟨hlost, h⟩ | ⟨-, -, h⟩ | ⟨hread, hclosed, h⟩ :=
        (m.channels rx.chan).tryRecv_cases rx.next <;>
        simp only [h, StreamTask.rx, TaskPc.lines, TaskPc.closedRx, List.filterMap_nil,
          AList.lookup_insert_ne hp]
      · simpa [Push.rxOf, Ne.symm hp] using RxState.Polls.still _
      · exact .still _
      · exact .still _
      · simpa [hp] using RxState.Polls.still _

private theorem pollFilterAt_polls {port : String} {todo closed : List String} {gotData : Bool}
    (hpc : t.pc = .pollFilters [] (port :: todo) closed gotData) :
    (t.rx p).Polls m (t.polls p) ((t.pollFilterAt m port todo closed gotData).rx p) [] := by
  have hrx : t.rx p = ⟨t.maps.rxReceivers.lookup p, [], false⟩ := by
    simp [StreamTask.rx, hpc, TaskPc.lines, TaskPc.closedRx]
  have hhits : ∀ hits : List FilterHit,
      (hits.map (Push.filterHit port)).filterMap (Push.rxOf p) = [] := by
    intro hits
    rw [List.filterMap_map, List.filterMap_eq_nil_iff]
    exact fun _ _ => rfl
  rw [hrx]
  unfold pollFilterAt
  rcases hlookup : t.maps.filterStates.lookup port with - | st
  · exact .still _
  · simp only [SerialManager.tryRecv]
    obtain ⟨entry, -, -, -, h⟩ | ⟨-, h⟩ | ⟨-, -, h⟩ | ⟨-, -, h⟩ :=
      (m.channels st.rx.chan).tryRecv_cases st.rx.next <;>
      simp only [h, FilterState.scan_eq, StreamTask.rx, TaskPc.lines, TaskPc.closedRx, hhits,
        List.filterMap_nil, List.not_mem_nil, decide_false]
    all_goals exact .still _

/-- Writing the first of the lines. -/
theorem polls_line {line : Push} {lines : List Push} (polling : Prop) (slot : Option Receiver)
    (noticed : Bool) :
    RxState.Polls m polling ⟨slot, (line :: lines).filterMap (Push.rxOf p), noticed⟩
      ⟨slot, lines.filterMap (Push.rxOf p), noticed⟩ ([line].filterMap (Push.rxOf p)) := by
  rcases hline : line.rxOf p with - | a
  · simpa [hline] using RxState.Polls.still _
  · simpa [hline] using RxState.Polls.wrote slot a _ noticed

/-- A task takes the first of its commands, and has nothing in hand. -/
structure Takes (t : StreamTask) (queue : List RxSubCommand) (p : String) (t' : StreamTask)
    (queue' : List RxSubCommand) : Prop where
  taking : t.pc.takesCommand = true
  command : ∃ cmd, queue = cmd :: queue' ∧ t'.maps = t.maps.apply cmd
  inHand : (t.rx p).inHand = []
  inHand' : (t'.rx p).inHand = []
  noticed : (t.rx p).noticed = false
  noticed' : (t'.rx p).noticed = false

/-- What a step of a streaming task does about a port. -/
theorem step_polls {queue : List RxSubCommand} {order : List String} {writeOk : Bool}
    {r : StreamTask × List RxSubCommand × List Push}
    (h : t.step m queue order writeOk = some r) :
    (t.Takes queue p r.1 r.2.1 ∧ r.2.2 = []) ∨
    (r.2.1 = queue ∧ (t.rx p).Polls m (t.polls p) (r.1.rx p) (r.2.2.filterMap (Push.rxOf p))) ∨
    ((writeOk = false ∧ t.pc.lines ≠ []) ∧ r.1 = .stopped ∧ r.2.1 = [] ∧ r.2.2 = []) := by
  unfold step at h
  split at h
  · rename_i hpc
    split at h
    · obtain rfl := Option.some.inj h
      exact Or.inl ⟨⟨by rw [hpc]; rfl, ⟨_, rfl, rfl⟩, by simp [rx, hpc, TaskPc.lines],
        by simp [rx, hpc, TaskPc.lines], by simp [rx, hpc, TaskPc.closedRx],
        by simp [rx, hpc, TaskPc.closedRx]⟩, rfl⟩
    · split_ifs at h <;> obtain rfl := Option.some.inj h
      · refine Or.inr (Or.inl ⟨rfl, ?_⟩)
        simpa [rx, hpc, TaskPc.lines, TaskPc.closedRx] using RxState.Polls.still _
      · refine Or.inr (Or.inl ⟨rfl, ?_⟩)
        simpa [rx, hpc, TaskPc.lines, TaskPc.closedRx] using RxState.Polls.still _
  · rename_i hpc
    split at h
    · obtain rfl := Option.some.inj h
      exact Or.inl ⟨⟨by rw [hpc]; rfl, ⟨_, rfl, rfl⟩, by simp [rx, hpc, TaskPc.lines],
        by simp [rx, TaskPc.lines],
        by simp [rx, hpc, TaskPc.closedRx], by simp [rx, TaskPc.closedRx]⟩, rfl⟩
    · exact absurd h (by simp)
  · rename_i hpc
    split_ifs at h with hok <;> obtain rfl := Option.some.inj h
    · refine Or.inr (Or.inl ⟨rfl, ?_⟩)
      simp only [rx, hpc]
      exact polls_line _ _ _
    · exact Or.inr (Or.inr ⟨⟨by simpa using hok, by simp [hpc, TaskPc.lines]⟩, rfl, rfl, rfl⟩)
  · rename_i hpc
    obtain rfl := Option.some.inj h
    exact Or.inr (Or.inl ⟨rfl, pollRxAt_polls hpc⟩)
  · rename_i closed gotData hpc
    split_ifs at h
    obtain rfl := Option.some.inj h
    refine Or.inr (Or.inl ⟨rfl, ?_⟩)
    by_cases hp : p ∈ closed
    · simpa [rx, hpc, TaskPc.lines, TaskPc.closedRx, Table.lookup_eraseAll, hp] using
        RxState.Polls.dropped _
    · simpa [rx, hpc, TaskPc.lines, TaskPc.closedRx, Table.lookup_eraseAll, hp] using
        RxState.Polls.still _
  · rename_i hpc
    split_ifs at h with hok <;> obtain rfl := Option.some.inj h
    · refine Or.inr (Or.inl ⟨rfl, ?_⟩)
      simp only [rx, hpc]
      exact polls_line _ _ _
    · exact Or.inr (Or.inr ⟨⟨by simpa using hok, by simp [hpc, TaskPc.lines]⟩, rfl, rfl, rfl⟩)
  · rename_i hpc
    obtain rfl := Option.some.inj h
    simp only [pollFilterAt_isEnded, Bool.false_eq_true, if_false]
    exact Or.inr (Or.inl ⟨trivial, pollFilterAt_polls hpc⟩)
  · rename_i closed gotData hpc
    obtain rfl := Option.some.inj h
    refine Or.inr (Or.inl ⟨rfl, ?_⟩)
    cases gotData <;>
      simpa [rx, hpc, TaskPc.lines, TaskPc.closedRx] using RxState.Polls.still _
  · rename_i hpc
    obtain rfl := Option.some.inj h
    refine Or.inr (Or.inl ⟨rfl, ?_⟩)
    simpa [rx, hpc, TaskPc.lines, TaskPc.closedRx] using RxState.Polls.still _
  · exact absurd h (by simp)

end StreamTask

/-- A step of a client's task, with what it makes of the client. -/
theorem World.step_task {w w' : World} {c : ClientId} {cl cl' : Client} {order : List String}
    {writeOk : Bool} (h : w.step (.client c (.task order writeOk)) = some w')
    (hclient : w.clients c = some cl) (hclient' : w'.clients c = some cl') :
    ∃ task queue lines, cl.task.step w.serial cl.queue order writeOk = some (task, queue, lines) ∧
      cl' = { cl with
        task := task, queue := queue, written := cl.written ++ lines.map Outgoing.push } := by
  simp only [step, hclient, Option.ite_none_right_eq_some, Option.map_eq_some_iff, Client.step]
    at h
  obtain ⟨-, r, ⟨⟨task, queue, lines⟩, hstep, rfl⟩, rfl⟩ := h
  refine ⟨task, queue, lines, hstep, ?_⟩
  simpa [setClient] using hclient'.symm

end Commmon

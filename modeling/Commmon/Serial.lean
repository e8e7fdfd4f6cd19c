/-
# The serial manager's ports

A port that is open has a broadcast channel and a read task. Opening a port
makes a fresh channel with two senders, one in the port table and one in the
read task; closing it drops the table's sender and asks the read task to abort.
The channel closes when the read task has gone too, so an entry may still
arrive between the two.

Channels are numbered by opening. That the table only holds channels that have
been made, and never one channel under two ports, is part of the type.
-/

import Mathlib.Logic.Function.Basic
import Commmon.Lib.Table
import Commmon.Protocol

set_option autoImplicit false

namespace Commmon

open Broadcast

/-- Entries that a port's channel keeps for a receiver. -/
def broadcastCapacity : ℕ := 256

/-- The read task's buffer, in bytes. -/
def readBufferSize : ℕ := 1024

/-- The line settings that `open_port` records. -/
structure PortConfig where
  baudRate : ℕ
  dataBits : ℕ
  parity : Char
  stopBits : ℕ

structure OpenPort where
  tx : ChannelId
  config : PortConfig

/-- A read task that has been aborted may still be in the middle of a read. -/
inductive ReadTask
  | running
  | aborted
  | ended
  deriving DecidableEq

structure SerialManager where
  ports : Table String OpenPort
  channels : ChannelId → Channel RxEntry
  readTasks : ChannelId → ReadTask
  fresh : ChannelId
  tx_lt : ∀ port op, ports.lookup port = some op → op.tx < fresh
  tx_inj : ∀ port₁ port₂ op₁ op₂, ports.lookup port₁ = some op₁ →
    ports.lookup port₂ = some op₂ → op₁.tx = op₂.tx → port₁ = port₂

namespace SerialManager

/-- No port is open, and no channel has been made. -/
def new : SerialManager where
  ports := ∅
  channels _ := ⟨broadcastCapacity, [], 0⟩
  readTasks _ := .ended
  fresh := 0
  tx_lt := by simp
  tx_inj := by simp

/-- Record an opened port: a fresh channel, whose second sender goes to the read
task that is spawned. -/
def insertPort (m : SerialManager) (portName : String) (config : PortConfig) :
    SerialManager where
  ports := m.ports.insert portName ⟨m.fresh, config⟩
  channels := Function.update m.channels m.fresh (Channel.new broadcastCapacity).cloneSender
  readTasks := Function.update m.readTasks m.fresh .running
  fresh := m.fresh + 1
  tx_lt := by
    intro port op h
    rw [Table.lookup_insert] at h
    split_ifs at h with heq
    · obtain rfl := Option.some.inj h
      exact Nat.lt_succ_self _
    · exact Nat.lt_succ_of_lt (m.tx_lt port op h)
  tx_inj := by
    intro port₁ port₂ op₁ op₂ h₁ h₂ htx
    rw [Table.lookup_insert] at h₁ h₂
    split_ifs at h₁ h₂ with heq₁ heq₂ heq₂
    · exact heq₁.trans heq₂.symm
    · obtain rfl := Option.some.inj h₁
      exact absurd htx.symm (Nat.ne_of_lt (m.tx_lt port₂ op₂ h₂))
    · obtain rfl := Option.some.inj h₂
      exact absurd htx (Nat.ne_of_lt (m.tx_lt port₁ op₁ h₁))
    · exact m.tx_inj port₁ port₂ op₁ op₂ h₁ h₂ htx

/-- Forget an open port: its sender is dropped and its read task aborted. -/
def removePort (m : SerialManager) (portName : String) (op : OpenPort) : SerialManager where
  ports := m.ports.erase portName
  channels := Function.update m.channels op.tx (m.channels op.tx).dropSender
  readTasks := Function.update m.readTasks op.tx
    (if m.readTasks op.tx = .running then .aborted else m.readTasks op.tx)
  fresh := m.fresh
  tx_lt := by
    intro port op' h
    rw [Table.lookup_erase] at h
    split_ifs at h
    exact m.tx_lt port op' h
  tx_inj := by
    intro port₁ port₂ op₁ op₂ h₁ h₂ htx
    rw [Table.lookup_erase] at h₁ h₂
    split_ifs at h₁ h₂
    exact m.tx_inj port₁ port₂ op₁ op₂ h₁ h₂ htx

/-- The line settings a request asks for, with the defaults for everything that
is missing or not recognised. -/
def portConfig (args : Value) : PortConfig where
  baudRate := ((args.get "baudRate").bind Value.asU64).getD 115200 % UInt32.size
  dataBits :=
    match (args.strArg "dataBits").getD "8" with
    | "5" => 5
    | "6" => 6
    | "7" => 7
    | _ => 8
  parity :=
    match (args.strArg "parity").getD "none" with
    | "even" => 'E'
    | "odd" => 'O'
    | _ => 'N'
  stopBits :=
    match (args.strArg "stopBits").getD "1" with
    | "2" => 2
    | _ => 1

/-- `open_port`. Whether the device can be opened is the operating system's
answer, an error text if not. -/
def openPort (m : SerialManager) (args : Value) (opened : Except String Unit) :
    SerialManager × Response :=
  match args.strArg "port" with
  | none => (m, .ofError "port 파라미터가 필요합니다.")
  | some portName =>
      let config := portConfig args
      if (m.ports.lookup portName).isSome then
        (m, .ofError s!"{portName}는 이미 열려 있습니다.")
      else
        match opened with
        | .error e => (m, .ofError s!"{portName} 열기 실패: {e}")
        | .ok () =>
            (m.insertPort portName config, .successMsg
              (s!"{portName} 열기 성공 ({config.baudRate}bps, " ++
                s!"{config.dataBits}{config.parity}{config.stopBits})"))

/-- `close_port`, after it has stopped the port's log. -/
def closePort (m : SerialManager) (args : Value) : SerialManager × Response :=
  match args.strArg "port" with
  | none => (m, .ofError "port 파라미터가 필요합니다.")
  | some portName =>
      match m.ports.lookup portName with
      | some op => (m.removePort portName op, .successMsg s!"{portName} 닫기 성공")
      | none => (m, .ofError s!"{portName}가 열려 있지 않습니다.")

/-- A receiver of the port's channel, if the port is open. -/
def subscribe (m : SerialManager) (portName : String) : Option Receiver :=
  (m.ports.lookup portName).map fun op => ⟨op.tx, (m.channels op.tx).subscribe⟩

def isPortOpen (m : SerialManager) (portName : String) : Bool :=
  (m.ports.lookup portName).isSome

/-- One non-blocking receive. -/
def tryRecv (m : SerialManager) (rx : Receiver) : TryRecv RxEntry × Receiver :=
  let p := (m.channels rx.chan).tryRecv rx.next
  (p.1, { rx with next := p.2 })

/-- The read task has read some bytes and broadcasts them. It may still do so
after it has been aborted. -/
def deliver (m : SerialManager) (k : ChannelId) (entry : RxEntry) : Option SerialManager :=
  if m.readTasks k ≠ .ended ∧ 0 < entry.data.length ∧ entry.data.length ≤ readBufferSize then
    some { m with channels := Function.update m.channels k ((m.channels k).send entry) }
  else none

/-- The read task ends, at end of file, on a read error or because it was
aborted, and drops its sender. -/
def endReadTask (m : SerialManager) (k : ChannelId) : Option SerialManager :=
  if m.readTasks k ≠ .ended then
    some { m with
      channels := Function.update m.channels k (m.channels k).dropSender
      readTasks := Function.update m.readTasks k .ended }
  else none

@[simp]
theorem lookup_ports_insertPort (m : SerialManager) (portName : String) (config : PortConfig)
    (p : String) : (m.insertPort portName config).ports.lookup p =
      if p = portName then some ⟨m.fresh, config⟩ else m.ports.lookup p :=
  Table.lookup_insert _ _ _ _

@[simp]
theorem lookup_ports_removePort (m : SerialManager) (portName : String) (op : OpenPort)
    (p : String) : (m.removePort portName op).ports.lookup p =
      if p = portName then none else m.ports.lookup p :=
  Table.lookup_erase _ _ _

/-- `open_port` either changes nothing and fails, or inserts a port that was not
open and succeeds. -/
theorem openPort_cases (m : SerialManager) (args : Value) (opened : Except String Unit) :
    ((m.openPort args opened).1 = m ∧ (m.openPort args opened).2.ok = false) ∨
    ∃ portName, args.strArg "port" = some portName ∧ m.ports.lookup portName = none ∧
      (m.openPort args opened).1 = m.insertPort portName (portConfig args) ∧
      (m.openPort args opened).2.ok = true := by
  unfold openPort
  cases hport : args.strArg "port" with
  | none => exact Or.inl ⟨rfl, rfl⟩
  | some portName =>
      cases hlookup : m.ports.lookup portName with
      | some op => exact Or.inl (by simp [hlookup])
      | none =>
          cases opened with
          | error e => exact Or.inl (by simp [hlookup])
          | ok u => exact Or.inr ⟨portName, rfl, hlookup, by simp [hlookup]⟩

/-- `close_port` either changes nothing and fails, or removes an open port and
succeeds. -/
theorem closePort_cases (m : SerialManager) (args : Value) :
    ((m.closePort args).1 = m ∧ (m.closePort args).2.ok = false) ∨
    ∃ portName op, args.strArg "port" = some portName ∧ m.ports.lookup portName = some op ∧
      (m.closePort args).1 = m.removePort portName op ∧ (m.closePort args).2.ok = true := by
  unfold closePort
  cases hport : args.strArg "port" with
  | none => exact Or.inl ⟨rfl, rfl⟩
  | some portName =>
      cases hlookup : m.ports.lookup portName with
      | none => exact Or.inl (by simp [hlookup])
      | some op => exact Or.inr ⟨portName, op, rfl, hlookup, by simp [hlookup]⟩

/-- A failed `open_port` carries no data. -/
theorem openPort_data_of_failed {m : SerialManager} {args : Value}
    {opened : Except String Unit} (h : (m.openPort args opened).2.ok = false) :
    (m.openPort args opened).2.data = none := by
  unfold openPort at h ⊢
  split at h
  · rfl
  · split_ifs at h ⊢
    · rfl
    · cases opened with
      | error e => rfl
      | ok u => exact absurd h (by simp)

/-- A failed `close_port` carries no data. -/
theorem closePort_data_of_failed {m : SerialManager} {args : Value}
    (h : (m.closePort args).2.ok = false) : (m.closePort args).2.data = none := by
  unfold closePort at h ⊢
  split at h
  · rfl
  · split at h
    · exact absurd h (by simp)
    · rfl

/-- A receiver is always one of the port's current channel, at its tail. -/
theorem subscribe_eq_some {m : SerialManager} {portName : String} {rx : Receiver} :
    m.subscribe portName = some rx ↔
      ∃ op, m.ports.lookup portName = some op ∧
        rx = ⟨op.tx, (m.channels op.tx).tail⟩ := by
  unfold subscribe
  rw [Option.map_eq_some_iff]
  exact exists_congr fun op => and_congr_right fun _ => eq_comm

theorem subscribe_eq_none {m : SerialManager} {portName : String} :
    m.subscribe portName = none ↔ m.ports.lookup portName = none := by
  simp [subscribe]

/-- The changes of one step: a command opens or closes a port, or a read task
broadcasts or ends. -/
inductive Changes : SerialManager → SerialManager → Prop
  | same (m : SerialManager) : Changes m m
  | opened (m : SerialManager) (port : String) (config : PortConfig)
      (hclosed : m.ports.lookup port = none) : Changes m (m.insertPort port config)
  | closed (m : SerialManager) (port : String) (op : OpenPort)
      (hopen : m.ports.lookup port = some op) : Changes m (m.removePort port op)
  | delivered (m : SerialManager) (k : ChannelId) (entry : RxEntry) :
      Changes m { m with
        channels := Function.update m.channels k ((m.channels k).send entry) }
  | ended (m : SerialManager) (k : ChannelId) (hlive : m.readTasks k ≠ .ended) :
      Changes m { m with
        channels := Function.update m.channels k (m.channels k).dropSender
        readTasks := Function.update m.readTasks k .ended }

theorem deliver_eq_some {m m' : SerialManager} {k : ChannelId} {entry : RxEntry}
    (h : m.deliver k entry = some m') :
    m' = { m with channels := Function.update m.channels k ((m.channels k).send entry) } := by
  unfold deliver at h
  split_ifs at h
  exact (Option.some.inj h).symm

theorem endReadTask_changes {m m' : SerialManager} {k : ChannelId}
    (h : m.endReadTask k = some m') : Changes m m' := by
  unfold endReadTask at h
  split_ifs at h with hlive
  obtain rfl := Option.some.inj h
  exact .ended m k hlive

/-- What a port's entry in the table can become: it stays, it appears with a
channel that is new, or it goes. -/
theorem Changes.lookup_ports {m m' : SerialManager} (h : Changes m m') (p : String) :
    (m'.ports.lookup p = m.ports.lookup p ∧ m.fresh ≤ m'.fresh) ∨
    (m.ports.lookup p = none ∧ (∃ op, m'.ports.lookup p = some op ∧ op.tx = m.fresh) ∧
      m'.fresh = m.fresh + 1) ∨
    ((m.ports.lookup p).isSome ∧ m'.ports.lookup p = none ∧ m'.fresh = m.fresh) := by
  cases h with
  | same => exact Or.inl ⟨rfl, le_rfl⟩
  | opened port config hclosed =>
      by_cases hp : p = port
      · subst hp
        exact Or.inr (Or.inl ⟨hclosed, ⟨⟨m.fresh, config⟩, by simp, rfl⟩, rfl⟩)
      · exact Or.inl ⟨by simp [hp], Nat.le_succ _⟩
  | closed port op hopen =>
      by_cases hp : p = port
      · subst hp
        exact Or.inr (Or.inr ⟨by simp [hopen], by simp, rfl⟩)
      · exact Or.inl ⟨by simp [hp], le_rfl⟩
  | delivered k entry => exact Or.inl ⟨rfl, le_rfl⟩
  | ended k hlive => exact Or.inl ⟨rfl, le_rfl⟩

/-- A channel that has been made keeps what was sent on it. -/
structure Later (m m' : SerialManager) : Prop where
  fresh_le : m.fresh ≤ m'.fresh
  sent_prefix : ∀ k, k < m.fresh → (m.channels k).sent <+: (m'.channels k).sent

theorem Later.refl (m : SerialManager) : Later m m := ⟨le_rfl, fun _ _ => List.prefix_rfl⟩

theorem Later.trans {m m' m'' : SerialManager} (h : Later m m') (h' : Later m' m'') :
    Later m m'' :=
  ⟨Nat.le_trans h.fresh_le h'.fresh_le, fun k hk =>
    (h.sent_prefix k hk).trans (h'.sent_prefix k (Nat.lt_of_lt_of_le hk h.fresh_le))⟩

theorem Changes.later {m m' : SerialManager} (h : Changes m m') : Later m m' := by
  cases h with
  | same => exact ⟨le_rfl, fun _ _ => List.prefix_rfl⟩
  | opened port config hclosed =>
      refine ⟨Nat.le_succ _, fun k hk => ?_⟩
      have hne : k ≠ m.fresh := Nat.ne_of_lt hk
      simp [insertPort, hne]
  | closed port op hopen =>
      refine ⟨le_rfl, fun k _ => ?_⟩
      by_cases hk : k = op.tx
      · subst hk
        simp [removePort]
      · simp [removePort, hk]
  | delivered k' entry =>
      refine ⟨le_rfl, fun k _ => ?_⟩
      by_cases hk : k = k'
      · subst hk
        simp
      · simp [hk]
  | ended k' hlive =>
      refine ⟨le_rfl, fun k _ => ?_⟩
      by_cases hk : k = k'
      · subst hk
        simp
      · simp [hk]

/-- The tail of a channel that has been made never goes back. -/
theorem Later.tail_le {m m' : SerialManager} (h : Later m m') {k : ChannelId}
    (hk : k < m.fresh) : (m.channels k).tail ≤ (m'.channels k).tail :=
  (h.sent_prefix k hk).length_le

/-- Every channel has the same capacity, and the channel of an open port has the
table's sender and, while it runs, its read task's. -/
structure Sound (m : SerialManager) : Prop where
  capacity : ∀ k, (m.channels k).capacity = broadcastCapacity
  senders : ∀ p op, m.ports.lookup p = some op →
    (if m.readTasks op.tx = .ended then 1 else 2) ≤ (m.channels op.tx).senders

theorem sound_new : Sound new := ⟨fun _ => rfl, fun p op h => by simp [new] at h⟩

theorem Changes.sound {m m' : SerialManager} (h : Changes m m') (hm : Sound m) : Sound m' := by
  cases h with
  | same => exact hm
  | opened port config hclosed =>
      refine ⟨fun k => ?_, fun p op hop => ?_⟩
      · by_cases hk : k = m.fresh
        · simp [insertPort, hk, Channel.cloneSender, Channel.new]
        · simpa [insertPort, hk] using hm.capacity k
      · rw [lookup_ports_insertPort] at hop
        split_ifs at hop with hp
        · obtain rfl := Option.some.inj hop
          simp [insertPort, Channel.cloneSender, Channel.new]
        · have hne : op.tx ≠ m.fresh := Nat.ne_of_lt (m.tx_lt p op hop)
          simpa [insertPort, hne] using hm.senders p op hop
  | closed port op hopen =>
      refine ⟨fun k => ?_, fun p op' hop => ?_⟩
      · by_cases hk : k = op.tx
        · simpa [removePort, hk] using hm.capacity op.tx
        · simpa [removePort, hk] using hm.capacity k
      · rw [lookup_ports_removePort] at hop
        split_ifs at hop with hp
        have hne : op'.tx ≠ op.tx := fun htx => hp (m.tx_inj p port op' op hop hopen htx)
        simpa [removePort, hne] using hm.senders p op' hop
  | delivered k' entry =>
      refine ⟨fun k => ?_, fun p op hop => ?_⟩
      · by_cases hk : k = k'
        · simpa [hk] using hm.capacity k'
        · simpa [hk] using hm.capacity k
      · by_cases hk : op.tx = k'
        · simpa [hk, Channel.send] using hm.senders p op hop
        · simpa [hk] using hm.senders p op hop
  | ended k' hlive =>
      refine ⟨fun k => ?_, fun p op hop => ?_⟩
      · by_cases hk : k = k'
        · simpa [hk] using hm.capacity k'
        · simpa [hk] using hm.capacity k
      · have hsenders := hm.senders p op hop
        by_cases hk : op.tx = k'
        · rw [hk, if_neg hlive] at hsenders
          simp only [hk, Function.update_self, if_true, Channel.dropSender]
          omega
        · simpa [hk] using hsenders

/-- The channel of an open port is not closed. -/
theorem Sound.isClosed_eq_false {m : SerialManager} (hm : Sound m) {p : String} {op : OpenPort}
    (hop : m.ports.lookup p = some op) : (m.channels op.tx).isClosed = false := by
  have hsenders := hm.senders p op hop
  have hpos : 1 ≤ if m.readTasks op.tx = .ended then 1 else 2 := by split_ifs <;> omega
  simp only [Channel.isClosed, beq_eq_false_iff_ne]
  omega

end SerialManager

end Commmon

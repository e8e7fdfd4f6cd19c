/-
# Read tasks and their devices

Behind an open port stands a device. Its read task takes the results of its reads
one at a time: bytes, which it broadcasts, and at last no bytes or an error, on
which it ends. The port table is not told. So a port whose device has gone stays
in the table, where it still counts as open, until it is closed by a command.

This module puts the devices beside the daemon, each with the results that its
read task has still to take. Every run of the two together is a run of the daemon.
-/

import Commmon.Streaming

set_option autoImplicit false

namespace Commmon

open Broadcast

/-! ## Devices -/

/-- What one read of a device returns. -/
inductive ReadResult
  | ok (data : List UInt8)
  | err (error : String)

/-- The results on which a read task ends: no bytes at all, and an error. -/
def ReadResult.isFailure : ReadResult → Bool
  | .ok data => data.isEmpty
  | .err _ => true

/-- A read fills the task's buffer at most. -/
def ReadResult.Fits : ReadResult → Prop
  | .ok data => data.length ≤ readBufferSize
  | .err _ => True

instance : DecidablePred ReadResult.Fits
  | .ok data => inferInstanceAs (Decidable (data.length ≤ readBufferSize))
  | .err _ => isTrue trivial

/-- The daemon, and what the device behind each channel has given that the read
task has not taken yet. -/
structure Attached where
  world : World
  pending : ChannelId → List ReadResult

inductive DeviceEvent
  | connect (c : ClientId)
  | disconnect (c : ClientId)
  | client (c : ClientId) (e : ClientEvent)
  | arrive (k : ChannelId) (result : ReadResult)
  | read (k : ChannelId) (timestamp : String)
  | cancel (k : ChannelId)

namespace Attached

def serial (w : Attached) : SerialManager := w.world.serial

/-- One pass of a read task's loop. -/
def readOnce (w : World) (k : ChannelId) (timestamp : String) : ReadResult → Option World
  | .ok [] => w.step (.endReadTask k)
  | .ok data => w.step (.deliver k ⟨timestamp, data⟩)
  | .err _ => w.step (.endReadTask k)

/-- A task that has been aborted goes when it next gives way. Until then it may
take another result. -/
def step (w : Attached) : DeviceEvent → Option Attached
  | .connect c => (w.world.step (.connect c)).map fun d => { w with world := d }
  | .disconnect c => (w.world.step (.disconnect c)).map fun d => { w with world := d }
  | .client c e => (w.world.step (.client c e)).map fun d => { w with world := d }
  | .arrive k result =>
      if k < w.serial.fresh ∧ result.Fits then
        some { w with pending := Function.update w.pending k (w.pending k ++ [result]) }
      else none
  | .read k timestamp =>
      match w.pending k with
      | [] => none
      | result :: rest => (readOnce w.world k timestamp result).map fun d =>
          ⟨d, Function.update w.pending k rest⟩
  | .cancel k =>
      if w.serial.readTasks k = .aborted then
        (w.world.step (.endReadTask k)).map fun d => { w with world := d }
      else none

end Attached

/-- All runs of the daemon with its devices. -/
def attached : StepSystem Attached DeviceEvent where
  init := ⟨daemon.init, fun _ => []⟩
  step := Attached.step

/-- No read task has a step left: none has a result to take, and none is still to
go after it was aborted. -/
def Attached.Quiescent (w : Attached) : Prop :=
  ∀ k, (∀ timestamp, w.step (.read k timestamp) = none) ∧ w.step (.cancel k) = none

/-- The device behind the channel has given end of file or an error. -/
def DeviceFailed (k : ChannelId) (es : List DeviceEvent) : Prop :=
  ∃ result, DeviceEvent.arrive k result ∈ es ∧ result.isFailure = true

/-! ## Ports that can receive -/

namespace SerialManager

/-- The port is open and its read task runs. -/
def CanReceive (m : SerialManager) (port : String) : Prop :=
  ∃ op, m.ports.lookup port = some op ∧ m.readTasks op.tx = .running

/-- Every open port is a live port, and what follows for those who ask. -/
structure LivePorts (m : SerialManager) : Prop where
  running : ∀ port op, m.ports.lookup port = some op → m.readTasks op.tx = .running
  isPortOpen : ∀ port, m.isPortOpen port = true → m.CanReceive port
  subscribe : ∀ port rx, m.subscribe port = some rx → m.readTasks rx.chan = .running
  readPort : ∀ (s : ClientSession) (args : Value) (port : String),
    args.strArg "port" = some port →
    (Dispatch.readPort m s args).2 = .reply (notOpen port) ∨ m.CanReceive port
  reopened : ∀ (args : Value) (port : String), args.strArg "port" = some port →
    ¬ m.CanReceive port → (m.openPort args (.ok ())).2.ok = true
  closed : ∀ k, k < m.fresh → m.readTasks k ≠ .running → (m.channels k).isClosed = true

end SerialManager

/-! ## What commands do to the ports -/

namespace SerialManager

/-- What a client's step can do to the ports. -/
inductive Commanded : SerialManager → SerialManager → Prop
  | same (m : SerialManager) : Commanded m m
  | opened (m : SerialManager) (port : String) (config : PortConfig)
      (hclosed : m.ports.lookup port = none) : Commanded m (m.insertPort port config)
  | closed (m : SerialManager) (port : String) (op : OpenPort)
      (hopen : m.ports.lookup port = some op) : Commanded m (m.removePort port op)

end SerialManager

private theorem Client.Steps.commanded {cl cl' : Client} {m m' : SerialManager} {ce : ClientEvent}
    (h : Steps m cl ce m' cl') : SerialManager.Commanded m m' := by
  cases h with
  | began req env m' s' pc hidle hbegins =>
      cases hbegins with
      | opened port resp hcmd hport hclosed hok => exact .opened m port _ hclosed
      | closed port op resp hcmd hport hopen hok => exact .closed m port op hopen
      | _ => exact .same m
  | advanced req pc cl' hpc hadvances => exact .same m
  | streamed order writeOk task queue lines hrunning hmoves => exact .same m

private theorem World.step_commanded {w w' : World} {e : Event} (h : w.step e = some w')
    (hevent : ∀ k, (∀ entry, e ≠ .deliver k entry) ∧ e ≠ .endReadTask k) :
    SerialManager.Commanded w.serial w'.serial := by
  cases e with
  | connect c =>
      simp only [step] at h
      split at h
      · exact absurd h (by simp)
      · obtain rfl := Option.some.inj h
        exact .same _
  | disconnect c =>
      simp only [step] at h
      split at h
      · split_ifs at h
        obtain rfl := Option.some.inj h
        exact .same _
      · exact absurd h (by simp)
  | client c ce =>
      simp only [step] at h
      split at h
      · split_ifs at h
        obtain ⟨r, hr, rfl⟩ := Option.map_eq_some_iff.mp h
        exact (Client.step_steps hr).commanded
      · exact absurd h (by simp)
  | deliver k entry => exact absurd rfl ((hevent k).1 entry)
  | endReadTask k => exact absurd rfl (hevent k).2

/-! ## Who holds a sender -/

namespace SerialManager

/-- The senders of a channel that its read task holds. -/
def taskSenders (m : SerialManager) (k : ChannelId) : ℕ := if m.readTasks k = .ended then 0 else 1

/-- A channel's senders are counted out: one in the table while its port is open,
and one in its read task until that ends. The task of an open port has not been
aborted. -/
structure Counted (m : SerialManager) : Prop where
  unmade : ∀ k, m.fresh ≤ k → m.readTasks k = .ended
  unaborted : ∀ port op, m.ports.lookup port = some op → m.readTasks op.tx ≠ .aborted
  held : ∀ port op, m.ports.lookup port = some op →
    (m.channels op.tx).senders = 1 + m.taskSenders op.tx
  dropped : ∀ k, k < m.fresh → (∀ port op, m.ports.lookup port = some op → op.tx ≠ k) →
    (m.channels k).senders = m.taskSenders k

private theorem counted_new : Counted new :=
  ⟨fun _ _ => rfl, by simp [new], by simp [new], fun k hk => absurd hk (Nat.not_lt_zero k)⟩

theorem Counted.insertPort {m : SerialManager} (hm : m.Counted) {port : String}
    (config : PortConfig) (hclosed : m.ports.lookup port = none) :
    (m.insertPort port config).Counted where
  unmade k hk := by
    have hne : k ≠ m.fresh := Nat.ne_of_gt hk
    simpa [SerialManager.insertPort, hne] using hm.unmade k (Nat.le_of_succ_le hk)
  unaborted p op hop := by
    rw [lookup_ports_insertPort] at hop
    split_ifs at hop with hp
    · obtain rfl := Option.some.inj hop
      simp [SerialManager.insertPort]
    · have hne : op.tx ≠ m.fresh := Nat.ne_of_lt (m.tx_lt p op hop)
      simpa [SerialManager.insertPort, hne] using hm.unaborted p op hop
  held p op hop := by
    rw [lookup_ports_insertPort] at hop
    split_ifs at hop with hp
    · obtain rfl := Option.some.inj hop
      simp [SerialManager.insertPort, taskSenders, Channel.cloneSender, Channel.new]
    · have hne : op.tx ≠ m.fresh := Nat.ne_of_lt (m.tx_lt p op hop)
      simpa [SerialManager.insertPort, taskSenders, hne] using hm.held p op hop
  dropped k hk hfree := by
    have hne : k ≠ m.fresh := fun h => hfree port ⟨m.fresh, config⟩ (by simp) h.symm
    have hlt : k < m.fresh := Nat.lt_of_le_of_ne (Nat.le_of_lt_succ hk) hne
    have hfree' : ∀ p op, m.ports.lookup p = some op → op.tx ≠ k := by
      intro p op hop
      have hp : p ≠ port := by
        rintro rfl
        exact absurd (hclosed.symm.trans hop) (by simp)
      exact hfree p op (by simpa [hp] using hop)
    simpa [SerialManager.insertPort, taskSenders, hne] using hm.dropped k hlt hfree'

theorem Counted.removePort {m : SerialManager} (hm : m.Counted) {port : String} {op : OpenPort}
    (hopen : m.ports.lookup port = some op) : (m.removePort port op).Counted where
  unmade k hk := by
    have hne : k ≠ op.tx := Nat.ne_of_gt (Nat.lt_of_lt_of_le (m.tx_lt port op hopen) hk)
    simpa [SerialManager.removePort, hne] using hm.unmade k hk
  unaborted p op' hop := by
    rw [lookup_ports_removePort] at hop
    split_ifs at hop with hp
    have hne : op'.tx ≠ op.tx := fun htx => hp (m.tx_inj p port op' op hop hopen htx)
    simpa [SerialManager.removePort, hne] using hm.unaborted p op' hop
  held p op' hop := by
    rw [lookup_ports_removePort] at hop
    split_ifs at hop with hp
    have hne : op'.tx ≠ op.tx := fun htx => hp (m.tx_inj p port op' op hop hopen htx)
    simpa [SerialManager.removePort, taskSenders, hne] using hm.held p op' hop
  dropped k hk hfree := by
    by_cases hkey : k = op.tx
    · subst hkey
      have hheld := hm.held port op hopen
      have hlive := hm.unaborted port op hopen
      cases htask : m.readTasks op.tx with
      | running => simp [SerialManager.removePort, taskSenders, Channel.dropSender, htask, hheld]
      | aborted => exact absurd htask hlive
      | ended => simp [SerialManager.removePort, taskSenders, Channel.dropSender, htask, hheld]
    · have hfree' : ∀ p op', m.ports.lookup p = some op' → op'.tx ≠ k := by
        intro p op' hop htx
        have hp : p ≠ port := by
          rintro rfl
          obtain rfl := Option.some.inj (hopen.symm.trans hop)
          exact hkey htx.symm
        exact hfree p op' (by simpa [hp] using hop) htx
      simpa [SerialManager.removePort, taskSenders, hkey] using hm.dropped k hk hfree'

theorem Counted.delivered {m : SerialManager} (hm : m.Counted) (k : ChannelId)
    (entry : RxEntry) :
    Counted { m with
      channels := Function.update m.channels k ((m.channels k).send entry) } := by
  have hsenders : ∀ j, (Function.update m.channels k ((m.channels k).send entry) j).senders =
      (m.channels j).senders := by
    intro j
    by_cases hj : j = k
    · subst hj
      simp [Channel.send]
    · simp [hj]
  refine ⟨hm.unmade, hm.unaborted, fun port op hop => ?_, fun j hj hfree => ?_⟩
  · exact (hsenders op.tx).trans (hm.held port op hop)
  · exact (hsenders j).trans (hm.dropped j hj hfree)

theorem Counted.ended {m : SerialManager} (hm : m.Counted) {k : ChannelId}
    (hlive : m.readTasks k ≠ .ended) :
    Counted { m with
      channels := Function.update m.channels k (m.channels k).dropSender
      readTasks := Function.update m.readTasks k .ended } := by
  have htask : m.taskSenders k = 1 := if_neg hlive
  refine ⟨fun j hj => ?_, fun port op hop => ?_, fun port op hop => ?_, fun j hj hfree => ?_⟩
  · by_cases hjk : j = k
    · simp [hjk]
    · simpa [hjk] using hm.unmade j hj
  · by_cases hjk : op.tx = k
    · simp [hjk]
    · simpa [hjk] using hm.unaborted port op hop
  · have hheld := hm.held port op hop
    by_cases hjk : op.tx = k
    · rw [hjk, htask] at hheld
      simp [hjk, taskSenders, Channel.dropSender, hheld]
    · simpa [hjk, taskSenders] using hheld
  · have hdropped := hm.dropped j hj hfree
    by_cases hjk : j = k
    · rw [hjk, htask] at hdropped
      simp [hjk, taskSenders, Channel.dropSender, hdropped]
    · simpa [hjk, taskSenders] using hdropped

private theorem Changes.counted {m m' : SerialManager} (h : Changes m m') (hm : m.Counted) :
    m'.Counted := by
  cases h with
  | same => exact hm
  | opened port config hclosed => exact hm.insertPort config hclosed
  | closed port op hopen => exact hm.removePort hopen
  | delivered k entry => exact hm.delivered k entry
  | ended k hlive => exact hm.ended hlive

end SerialManager

private theorem counted_of_run {es : List Event} {w : World} (hrun : daemon.run es = some w) :
    w.serial.Counted :=
  daemon.run_invariant (P := fun w => w.serial.Counted) SerialManager.counted_new
    (fun _ _ _ hw hstep => (World.step_seen hstep 0).changes.counted hw) hrun

/-! ## One step of the daemon with its devices -/

namespace Attached

/-- The daemon's part of a step is none or one of its own. -/
theorem step_daemon {w w' : Attached} {e : DeviceEvent} (h : w.step e = some w') :
    w'.world = w.world ∨ ∃ de, w.world.step de = some w'.world := by
  cases e with
  | connect c =>
      obtain ⟨d, hd, rfl⟩ := Option.map_eq_some_iff.mp h
      exact Or.inr ⟨_, hd⟩
  | disconnect c =>
      obtain ⟨d, hd, rfl⟩ := Option.map_eq_some_iff.mp h
      exact Or.inr ⟨_, hd⟩
  | client c ce =>
      obtain ⟨d, hd, rfl⟩ := Option.map_eq_some_iff.mp h
      exact Or.inr ⟨_, hd⟩
  | arrive k result =>
      simp only [step] at h
      split_ifs at h
      obtain rfl := Option.some.inj h
      exact Or.inl rfl
  | read k timestamp =>
      simp only [step] at h
      split at h
      · exact absurd h (by simp)
      · obtain ⟨d, hd, rfl⟩ := Option.map_eq_some_iff.mp h
        unfold readOnce at hd
        split at hd <;> exact Or.inr ⟨_, hd⟩
  | cancel k =>
      simp only [step] at h
      split_ifs at h
      obtain ⟨d, hd, rfl⟩ := Option.map_eq_some_iff.mp h
      exact Or.inr ⟨_, hd⟩

/-- The daemon of a run with devices is on a run of its own. -/
theorem daemon_run_of_run {es : List DeviceEvent} {w : Attached}
    (hrun : attached.run es = some w) : ∃ ds, daemon.run ds = some w.world := by
  refine attached.run_invariant (P := fun w => ∃ ds, daemon.run ds = some w.world)
    ⟨[], rfl⟩ ?_ hrun
  intro w e w' ⟨ds, hds⟩ hstep
  obtain hsame | ⟨de, hde⟩ := step_daemon hstep
  · exact ⟨ds, by rw [hsame]; exact hds⟩
  · exact ⟨ds ++ [de], (daemon.run_snoc_eq_some).mpr ⟨w.world, hds, hde⟩⟩

/-- The senders are counted out on every run with devices. -/
theorem counted_of_run {es : List DeviceEvent} {w : Attached}
    (hrun : attached.run es = some w) : w.serial.Counted := by
  obtain ⟨ds, hds⟩ := daemon_run_of_run hrun
  exact Commmon.counted_of_run hds

/-- What one step does to the tasks and to what they have still to take. -/
inductive Seen (w : Attached) : DeviceEvent → Attached → Prop
  | commanded (e : DeviceEvent) (d : World) (hevent : ∀ k result, e ≠ .arrive k result)
      (hcommanded : SerialManager.Commanded w.serial d.serial) : Seen w e ⟨d, w.pending⟩
  | arrived (k : ChannelId) (result : ReadResult) (hmade : k < w.serial.fresh)
      (hfits : result.Fits) :
      Seen w (.arrive k result)
        ⟨w.world, Function.update w.pending k (w.pending k ++ [result])⟩
  | took (k : ChannelId) (timestamp : String) (result : ReadResult) (rest : List ReadResult)
      (d : World) (hpending : w.pending k = result :: rest) (hok : result.isFailure = false)
      (hports : d.serial.ports = w.serial.ports) (hfresh : d.serial.fresh = w.serial.fresh)
      (htasks : d.serial.readTasks = w.serial.readTasks) :
      Seen w (.read k timestamp) ⟨d, Function.update w.pending k rest⟩
  | failed (k : ChannelId) (timestamp : String) (result : ReadResult) (rest : List ReadResult)
      (d : World) (hpending : w.pending k = result :: rest) (hfailure : result.isFailure = true)
      (hports : d.serial.ports = w.serial.ports) (hfresh : d.serial.fresh = w.serial.fresh)
      (htasks : d.serial.readTasks = Function.update w.serial.readTasks k .ended) :
      Seen w (.read k timestamp) ⟨d, Function.update w.pending k rest⟩
  | cancelled (k : ChannelId) (d : World) (haborted : w.serial.readTasks k = .aborted)
      (hports : d.serial.ports = w.serial.ports) (hfresh : d.serial.fresh = w.serial.fresh)
      (htasks : d.serial.readTasks = Function.update w.serial.readTasks k .ended) :
      Seen w (.cancel k) ⟨d, w.pending⟩

/-- A step of the daemon in which a read task ends. -/
theorem endReadTask_step {w d : World} {k : ChannelId}
    (h : w.step (.endReadTask k) = some d) : d.serial.ports = w.serial.ports ∧
      d.serial.fresh = w.serial.fresh ∧
      d.serial.readTasks = Function.update w.serial.readTasks k .ended := by
  obtain ⟨m, hm, rfl⟩ := Option.map_eq_some_iff.mp h
  unfold SerialManager.endReadTask at hm
  split_ifs at hm
  obtain rfl := Option.some.inj hm
  exact ⟨rfl, rfl, rfl⟩

/-- A step of the daemon in which a read task broadcasts. -/
theorem deliver_step {w d : World} {k : ChannelId} {entry : RxEntry}
    (h : w.step (.deliver k entry) = some d) : d.serial.ports = w.serial.ports ∧
      d.serial.fresh = w.serial.fresh ∧ d.serial.readTasks = w.serial.readTasks := by
  obtain ⟨m, hm, rfl⟩ := Option.map_eq_some_iff.mp h
  obtain rfl := SerialManager.deliver_eq_some hm
  exact ⟨rfl, rfl, rfl⟩

theorem step_seen {w w' : Attached} {e : DeviceEvent} (h : w.step e = some w') :
    Seen w e w' := by
  cases e with
  | connect c =>
      obtain ⟨d, hd, rfl⟩ := Option.map_eq_some_iff.mp h
      exact .commanded _ d (by simp) (World.step_commanded hd (by simp))
  | disconnect c =>
      obtain ⟨d, hd, rfl⟩ := Option.map_eq_some_iff.mp h
      exact .commanded _ d (by simp) (World.step_commanded hd (by simp))
  | client c ce =>
      obtain ⟨d, hd, rfl⟩ := Option.map_eq_some_iff.mp h
      exact .commanded _ d (by simp) (World.step_commanded hd (by simp))
  | arrive k result =>
      simp only [step] at h
      split_ifs at h with hguard
      obtain rfl := Option.some.inj h
      exact .arrived k result hguard.1 hguard.2
  | read k timestamp =>
      simp only [step] at h
      split at h
      · exact absurd h (by simp)
      · rename_i result rest hpending
        obtain ⟨d, hd, rfl⟩ := Option.map_eq_some_iff.mp h
        unfold readOnce at hd
        split at hd
        · obtain ⟨hports, hfresh, htasks⟩ := endReadTask_step hd
          exact .failed k timestamp _ rest d hpending rfl hports hfresh htasks
        · rename_i data hdata
          obtain ⟨hports, hfresh, htasks⟩ := deliver_step hd
          have hok : (ReadResult.ok data).isFailure = false :=
            List.isEmpty_eq_false_iff.mpr fun hnil => hdata (hnil ▸ rfl)
          exact .took k timestamp _ rest d hpending hok hports hfresh htasks
        · obtain ⟨hports, hfresh, htasks⟩ := endReadTask_step hd
          exact .failed k timestamp _ rest d hpending rfl hports hfresh htasks
  | cancel k =>
      simp only [step] at h
      split_ifs at h with haborted
      obtain ⟨d, hd, rfl⟩ := Option.map_eq_some_iff.mp h
      obtain ⟨hports, hfresh, htasks⟩ := endReadTask_step hd
      exact .cancelled k d haborted hports hfresh htasks

end Attached

/-! ## What is known of failed devices -/

/-- A step adds a failure to the history just when it is the arrival of one. -/
theorem deviceFailed_snoc {k : ChannelId} {es : List DeviceEvent} {e : DeviceEvent} :
    DeviceFailed k (es ++ [e]) ↔
      DeviceFailed k es ∨ ∃ result, e = .arrive k result ∧ result.isFailure = true := by
  simp only [DeviceFailed, List.mem_append, List.mem_singleton, or_and_right, exists_or]
  exact or_congr_right (exists_congr fun result => by rw [eq_comm])

private theorem deviceFailed_snoc_of_ne {k : ChannelId} {es : List DeviceEvent} {e : DeviceEvent}
    (he : ∀ k result, e ≠ .arrive k result) :
    DeviceFailed k (es ++ [e]) ↔ DeviceFailed k es := by
  rw [deviceFailed_snoc, or_iff_left]
  rintro ⟨result, h, -⟩
  exact he k result h

namespace Attached

/-- Where the failures of the devices show: one that a running task has not met is
still to be taken, and a port whose task has ended has a failed device. -/
structure FailuresShow (es : List DeviceEvent) (w : Attached) : Prop where
  made : ∀ k, DeviceFailed k es → k < w.serial.fresh
  fits : ∀ k, ∀ result ∈ w.pending k, result.Fits
  given : ∀ k, ∀ result ∈ w.pending k, result.isFailure = true → DeviceFailed k es
  waiting : ∀ k, DeviceFailed k es → w.serial.readTasks k = .running →
    ∃ result ∈ w.pending k, result.isFailure = true
  ended : ∀ port op, w.serial.ports.lookup port = some op →
    w.serial.readTasks op.tx = .ended → DeviceFailed op.tx es

private theorem failuresShow_init : FailuresShow [] attached.init :=
  ⟨fun _ ⟨_, h, _⟩ => absurd h (by simp), by simp [attached], by simp [attached],
    fun _ ⟨_, h, _⟩ => absurd h (by simp), by simp [attached, daemon, serial,
      SerialManager.new]⟩

variable {es : List DeviceEvent} {w : Attached}

/-- A command leaves the devices alone, and a new port has a device that has given
nothing yet. -/
theorem FailuresShow.commanded (h : FailuresShow es w) {e : DeviceEvent}
    (he : ∀ k result, e ≠ .arrive k result) {d : World}
    (hd : SerialManager.Commanded w.serial d.serial) :
    FailuresShow (es ++ [e]) ⟨d, w.pending⟩ := by
  have hfailed : ∀ k, DeviceFailed k (es ++ [e]) ↔ DeviceFailed k es :=
    fun k => deviceFailed_snoc_of_ne he
  simp only [serial] at hd
  generalize hm : d.serial = m at hd
  cases hd with
  | same =>
      refine ⟨fun k hk => ?_, h.fits, fun k r hr hfail => ?_, fun k hk hrun => ?_,
        fun port op hop hend => ?_⟩
      · simp only [serial, hm]
        exact h.made k ((hfailed k).mp hk)
      · exact (hfailed k).mpr (h.given k r hr hfail)
      · simp only [serial, hm] at hrun
        exact h.waiting k ((hfailed k).mp hk) hrun
      · simp only [serial, hm] at hop hend
        exact (hfailed op.tx).mpr (h.ended port op hop hend)
  | opened port config hclosed =>
      refine ⟨fun k hk => ?_, h.fits, fun k r hr hfail => ?_, fun k hk hrun => ?_,
        fun p op hop hend => ?_⟩
      · simp only [serial, hm]
        exact Nat.lt_succ_of_lt (h.made k ((hfailed k).mp hk))
      · exact (hfailed k).mpr (h.given k r hr hfail)
      · have hne : k ≠ w.world.serial.fresh := Nat.ne_of_lt (h.made k ((hfailed k).mp hk))
        simp only [serial, hm, SerialManager.insertPort, Function.update_of_ne hne] at hrun
        exact h.waiting k ((hfailed k).mp hk) hrun
      · simp only [serial, hm, SerialManager.lookup_ports_insertPort] at hop hend
        split_ifs at hop with hp
        · obtain rfl := Option.some.inj hop
          simp [SerialManager.insertPort] at hend
        · have hne : op.tx ≠ w.world.serial.fresh :=
            Nat.ne_of_lt (w.world.serial.tx_lt p op hop)
          simp only [SerialManager.insertPort, Function.update_of_ne hne] at hend
          exact (hfailed op.tx).mpr (h.ended p op hop hend)
  | closed port op hopen =>
      refine ⟨fun k hk => ?_, h.fits, fun k r hr hfail => ?_, fun k hk hrun => ?_,
        fun p op' hop hend => ?_⟩
      · simp only [serial, hm]
        exact h.made k ((hfailed k).mp hk)
      · exact (hfailed k).mpr (h.given k r hr hfail)
      · simp only [serial, hm, SerialManager.removePort] at hrun
        by_cases hk' : k = op.tx
        · subst hk'
          simp only [Function.update_self] at hrun
          split_ifs at hrun with htask
          exact absurd hrun htask
        · rw [Function.update_of_ne hk'] at hrun
          exact h.waiting k ((hfailed k).mp hk) hrun
      · simp only [serial, hm, SerialManager.lookup_ports_removePort] at hop hend
        split_ifs at hop with hp
        have hne : op'.tx ≠ op.tx := fun htx =>
          hp (w.world.serial.tx_inj p port op' op hop hopen htx)
        simp only [SerialManager.removePort, Function.update_of_ne hne] at hend
        exact (hfailed op'.tx).mpr (h.ended p op' hop hend)

/-- What is still to be taken after an arrival. -/
theorem mem_arrived {pending : ChannelId → List ReadResult} {j k : ChannelId}
    {r result : ReadResult} :
    r ∈ Function.update pending k (pending k ++ [result]) j ↔
      r ∈ pending j ∨ j = k ∧ r = result := by
  by_cases hjk : j = k
  · subst hjk
    simp
  · simp [hjk]

theorem FailuresShow.arrived (h : FailuresShow es w) {k : ChannelId} {result : ReadResult}
    (hmade : k < w.serial.fresh) (hfits : result.Fits) :
    FailuresShow (es ++ [.arrive k result])
      ⟨w.world, Function.update w.pending k (w.pending k ++ [result])⟩ := by
  have hkept : ∀ j, DeviceFailed j es → DeviceFailed j (es ++ [.arrive k result]) :=
    fun j hj => deviceFailed_snoc.mpr (Or.inl hj)
  refine ⟨fun j hj => ?_, fun j r hr => ?_, fun j r hr hfail => ?_, fun j hj hrun => ?_,
    fun port op hop hend => ?_⟩
  · obtain hj | ⟨r, he, -⟩ := deviceFailed_snoc.mp hj
    · exact h.made j hj
    · obtain ⟨rfl, rfl⟩ := DeviceEvent.arrive.inj he
      exact hmade
  · obtain hr | ⟨-, rfl⟩ := mem_arrived.mp hr
    · exact h.fits j r hr
    · exact hfits
  · obtain hr | ⟨rfl, rfl⟩ := mem_arrived.mp hr
    · exact hkept j (h.given j r hr hfail)
    · exact deviceFailed_snoc.mpr (Or.inr ⟨r, rfl, hfail⟩)
  · obtain hj | ⟨r, he, hfail⟩ := deviceFailed_snoc.mp hj
    · obtain ⟨r, hr, hfail⟩ := h.waiting j hj hrun
      exact ⟨r, mem_arrived.mpr (Or.inl hr), hfail⟩
    · obtain ⟨rfl, rfl⟩ := DeviceEvent.arrive.inj he
      exact ⟨result, mem_arrived.mpr (Or.inr ⟨rfl, rfl⟩), hfail⟩
  · exact hkept op.tx (h.ended port op hop hend)

/-- What was still to be taken before the first result was. -/
theorem mem_read {pending : ChannelId → List ReadResult} {j k : ChannelId}
    {r result : ReadResult} {rest : List ReadResult} (hpending : pending k = result :: rest) :
    r ∈ pending j ↔ r ∈ Function.update pending k rest j ∨ j = k ∧ r = result := by
  by_cases hjk : j = k
  · subst hjk
    simp [hpending, or_comm]
  · simp [hjk]

/-- A task takes its first result: what the others see, and what stays to be
taken. -/
theorem FailuresShow.read (h : FailuresShow es w) {k : ChannelId} {timestamp : String}
    {result : ReadResult} {rest : List ReadResult} {d : World}
    (hpending : w.pending k = result :: rest) (hports : d.serial.ports = w.serial.ports)
    (hfresh : d.serial.fresh = w.serial.fresh)
    (hrunning : ∀ j, d.serial.readTasks j = .running →
      w.serial.readTasks j = .running ∧ (j = k → result.isFailure = false))
    (hended : ∀ j, d.serial.readTasks j = .ended →
      w.serial.readTasks j = .ended ∨ j = k ∧ result.isFailure = true) :
    FailuresShow (es ++ [.read k timestamp]) ⟨d, Function.update w.pending k rest⟩ := by
  have hfailed : ∀ j, DeviceFailed j (es ++ [.read k timestamp]) ↔ DeviceFailed j es :=
    fun j => deviceFailed_snoc_of_ne (by simp)
  have hrest : ∀ j, ∀ r ∈ Function.update w.pending k rest j, r ∈ w.pending j :=
    fun j r hr => (mem_read hpending).mpr (Or.inl hr)
  refine ⟨fun j hj => ?_, fun j r hr => h.fits j r (hrest j r hr), fun j r hr hfail => ?_,
    fun j hj hrun => ?_, fun port op hop hend => ?_⟩
  · exact Nat.lt_of_lt_of_eq (h.made j ((hfailed j).mp hj)) hfresh.symm
  · exact (hfailed j).mpr (h.given j r (hrest j r hr) hfail)
  · obtain ⟨hbefore, hok⟩ := hrunning j hrun
    obtain ⟨r, hr, hfail⟩ := h.waiting j ((hfailed j).mp hj) hbefore
    obtain hr | ⟨rfl, rfl⟩ := (mem_read hpending).mp hr
    · exact ⟨r, hr, hfail⟩
    · exact absurd hfail (by simp [hok rfl])
  · have hop' : w.serial.ports.lookup port = some op := hports ▸ hop
    obtain hbefore | ⟨rfl, hfail⟩ := hended op.tx hend
    · exact (hfailed op.tx).mpr (h.ended port op hop' hbefore)
    · exact (hfailed op.tx).mpr
        (h.given op.tx result (hpending ▸ List.mem_cons_self) hfail)

theorem FailuresShow.step (h : FailuresShow es w) (hcounted : w.serial.Counted)
    {e : DeviceEvent} {w' : Attached} (hstep : w.step e = some w') :
    FailuresShow (es ++ [e]) w' := by
  cases step_seen hstep with
  | commanded e d hevent hcommanded => exact h.commanded hevent hcommanded
  | arrived k result hmade hfits => exact h.arrived hmade hfits
  | took k timestamp result rest d hpending hok hports hfresh htasks =>
      refine h.read hpending hports hfresh (fun j hj => ?_) (fun j hj => ?_)
      · exact ⟨htasks ▸ hj, fun _ => hok⟩
      · exact Or.inl (htasks ▸ hj)
  | failed k timestamp result rest d hpending hfailure hports hfresh htasks =>
      refine h.read hpending hports hfresh (fun j hj => ?_) (fun j hj => ?_)
      · by_cases hjk : j = k
        · simp [htasks, hjk] at hj
        · rw [htasks, Function.update_of_ne hjk] at hj
          exact ⟨hj, fun heq => absurd heq hjk⟩
      · by_cases hjk : j = k
        · exact Or.inr ⟨hjk, hfailure⟩
        · rw [htasks, Function.update_of_ne hjk] at hj
          exact Or.inl hj
  | cancelled k d haborted hports hfresh htasks =>
      have hfailed : ∀ j, DeviceFailed j (es ++ [.cancel k]) ↔ DeviceFailed j es :=
        fun j => deviceFailed_snoc_of_ne (by simp)
      refine ⟨fun j hj => ?_, h.fits, fun j r hr hfail => ?_, fun j hj hrun => ?_,
        fun port op hop hend => ?_⟩
      · exact Nat.lt_of_lt_of_eq (h.made j ((hfailed j).mp hj)) hfresh.symm
      · exact (hfailed j).mpr (h.given j r hr hfail)
      · have hne : j ≠ k := fun heq => by simp [serial, htasks, heq] at hrun
        simp only [serial, htasks, Function.update_of_ne hne] at hrun
        exact h.waiting j ((hfailed j).mp hj) hrun
      · have hop' : w.serial.ports.lookup port = some op := hports ▸ hop
        -- the task of an open port is never one that was aborted
        have hne : op.tx ≠ k := fun heq =>
          hcounted.unaborted port op hop' (heq ▸ haborted)
        simp only [serial, htasks, Function.update_of_ne hne] at hend
        exact (hfailed op.tx).mpr (h.ended port op hop' hend)

private theorem failuresShow_of_run (hrun : attached.run es = some w) : FailuresShow es w :=
  attached.run_history failuresShow_init
    (fun _ _ _ _ hes h hstep => h.step (counted_of_run hes) hstep) hrun

/-! ## When the tasks have come to rest -/

/-- A running task with a result to take can take it. -/
theorem FailuresShow.pending_eq_nil (h : FailuresShow es w) (hquiet : w.Quiescent)
    {k : ChannelId} (hrun : w.serial.readTasks k = .running) : w.pending k = [] := by
  cases hpending : w.pending k with
  | nil => rfl
  | cons result rest =>
      have hstuck := (hquiet k).1 ""
      have hlive : w.world.serial.readTasks k ≠ .ended := fun hend => by
        simp [serial, hend] at hrun
      have hfits : result.Fits := h.fits k result (hpending ▸ List.mem_cons_self)
      simp only [Attached.step, hpending, Option.map_eq_none_iff] at hstuck
      cases result with
      | ok data =>
          cases data with
          | nil => simp [readOnce, World.step, SerialManager.endReadTask, hlive] at hstuck
          | cons b bs =>
              have hlength : bs.length + 1 ≤ readBufferSize := hfits
              simp [readOnce, World.step, SerialManager.deliver, hlive, hlength] at hstuck
      | err error => simp [readOnce, World.step, SerialManager.endReadTask, hlive] at hstuck

/-- No task is left that was aborted and has not gone. -/
theorem Quiescent.ne_aborted (hquiet : w.Quiescent) (k : ChannelId) :
    w.serial.readTasks k ≠ .aborted := by
  intro haborted
  have hstuck := (hquiet k).2
  have hlive : w.world.serial.readTasks k ≠ .ended := fun hend => by
    simp [serial, hend] at haborted
  simp [step, haborted, World.step, SerialManager.endReadTask, hlive] at hstuck

/-- At rest, the task of an open port runs just when its device has not failed. -/
theorem running_iff (hrun : attached.run es = some w) (hquiet : w.Quiescent) {port : String}
    {op : OpenPort} (hopen : w.serial.ports.lookup port = some op) :
    w.serial.readTasks op.tx = .running ↔ ¬ DeviceFailed op.tx es := by
  have hshow := failuresShow_of_run hrun
  constructor
  · intro htask hfailed
    obtain ⟨result, hmem, -⟩ := hshow.waiting op.tx hfailed htask
    rw [hshow.pending_eq_nil hquiet htask] at hmem
    exact absurd hmem (by simp)
  · intro hfine
    cases htask : w.serial.readTasks op.tx with
    | running => rfl
    | aborted => exact absurd htask (hquiet.ne_aborted op.tx)
    | ended => exact absurd (hshow.ended port op hopen htask) hfine

end Attached

namespace SerialManager

/-- What follows once every open port has a running task. -/
theorem LivePorts.of_running {m : SerialManager} (hm : m.Counted)
    (hunaborted : ∀ k, m.readTasks k ≠ .aborted)
    (hrunning : ∀ port op, m.ports.lookup port = some op → m.readTasks op.tx = .running) :
    m.LivePorts where
  running := hrunning
  isPortOpen port hopen := by
    obtain ⟨op, hop⟩ := Option.isSome_iff_exists.mp hopen
    exact ⟨op, hop, hrunning port op hop⟩
  subscribe port rx hrx := by
    obtain ⟨op, hop, rfl⟩ := subscribe_eq_some.mp hrx
    exact hrunning port op hop
  readPort s args port hport := by
    simp only [Dispatch.readPort, hport]
    cases hlookup : m.ports.lookup port with
    | none => simp [SerialManager.isPortOpen, hlookup]
    | some op => exact Or.inr ⟨op, hlookup, hrunning port op hlookup⟩
  reopened args port hport hdead := by
    cases hlookup : m.ports.lookup port with
    | none => simp [openPort, hport, hlookup]
    | some op => exact absurd ⟨op, hlookup, hrunning port op hlookup⟩ hdead
  closed k hk hstopped := by
    have hended : m.readTasks k = .ended := by
      cases htask : m.readTasks k with
      | running => exact absurd htask hstopped
      | aborted => exact absurd htask (hunaborted k)
      | ended => rfl
    have hfree : ∀ port op, m.ports.lookup port = some op → op.tx ≠ k := by
      rintro port op hop rfl
      exact hstopped (hrunning port op hop)
    simp [Channel.isClosed, hm.dropped k hk hfree, taskSenders, hended]

end SerialManager

/-- Open ports and their devices. Once the read tasks have nothing left to take,
the open ports are live ports exactly if none of them has a device that has given end
of file or an error. -/
theorem livePorts_iff_no_open_device_failed {es : List DeviceEvent} {w : Attached}
    (hrun : attached.run es = some w) (hquiet : w.Quiescent) :
    w.serial.LivePorts ↔
      ∀ port op, w.serial.ports.lookup port = some op → ¬ DeviceFailed op.tx es := by
  constructor
  · intro hlive port op hop
    exact (Attached.running_iff hrun hquiet hop).mp (hlive.running port op hop)
  · intro hfine
    exact .of_running (Attached.counted_of_run hrun) hquiet.ne_aborted fun port op hop =>
      (Attached.running_iff hrun hquiet hop).mpr (hfine port op hop)

/-! ## A device that is pulled out -/

/-- A client opens a port. -/
def portOpened : List DeviceEvent :=
  [.connect 0, .client 0 (.request (portRequest "open_port" "COM3") ⟨.ok (), .successMsg ""⟩)]

/-- The device is read to its end. -/
def devicePulled : List DeviceEvent := portOpened ++ [.arrive 0 (.ok []), .read 0 "t"]

/-- The tasks of all channels made so far have nothing left to take. -/
def Attached.isAtRest (w : Attached) : Bool :=
  (List.range w.serial.fresh).all fun k =>
    w.serial.readTasks k == .ended ||
      w.serial.readTasks k == .running && (w.pending k).isEmpty

private theorem Attached.quiescent_of_isAtRest {es : List DeviceEvent} {w : Attached}
    (hrun : attached.run es = some w) (hrest : w.isAtRest = true) : w.Quiescent := by
  intro k
  have htask : w.serial.readTasks k = .ended ∨
      w.serial.readTasks k = .running ∧ w.pending k = [] := by
    by_cases hk : k < w.serial.fresh
    · have hall := List.all_eq_true.mp hrest k (List.mem_range.mpr hk)
      simpa using hall
    · exact Or.inl ((counted_of_run hrun).unmade k (Nat.le_of_not_lt hk))
  obtain hend | ⟨hrunning, hpending⟩ := htask
  · have hdead : w.world.serial.readTasks k = .ended := hend
    refine ⟨fun timestamp => ?_, by simp [step, hend]⟩
    simp only [step]
    cases hpending : w.pending k with
    | nil => rfl
    | cons result rest =>
        match result with
        | .ok [] => simp [readOnce, World.step, SerialManager.endReadTask, hdead]
        | .ok (b :: bs) => simp [readOnce, World.step, SerialManager.deliver, hdead]
        | .err error => simp [readOnce, World.step, SerialManager.endReadTask, hdead]
  · exact ⟨fun timestamp => by simp [step, hpending], by simp [step, hrunning]⟩

/-- The port is in the table and its task has ended. -/
def Attached.hasDeadPort (w : Attached) : Bool :=
  w.isAtRest && (w.serial.ports.lookup "COM3").any fun op =>
    w.serial.readTasks op.tx == .ended

/-- The pulled device's port still counts as open. -/
theorem livePorts_not_always : ¬ ∀ es w, attached.run es = some w → w.Quiescent →
    w.serial.LivePorts := by
  intro hports
  have hpulled : (attached.run devicePulled).any Attached.hasDeadPort = true := by
    decide +kernel
  obtain ⟨w, hw, htest⟩ := (Option.any_eq_true _ _).mp hpulled
  simp only [Attached.hasDeadPort, Bool.and_eq_true] at htest
  obtain ⟨hrest, hany⟩ := htest
  obtain ⟨op, hop, hended⟩ := (Option.any_eq_true _ _).mp hany
  have hlive := hports devicePulled w hw (Attached.quiescent_of_isAtRest hw hrest)
  have hrunning := hlive.running "COM3" op hop
  simp [hrunning] at hended

/-- A request of the client, and the steps that it takes. -/
def deviceIssue (req : Request) (n : ℕ) : List DeviceEvent :=
  .client 0 (.request req ⟨.ok (), .successMsg ""⟩) :: List.replicate n (.client 0 .dispatch)

/-- A device is read to its end. Its port is closed and opened again, and there is data. -/
def deviceReplaced : List DeviceEvent :=
  .connect 0 :: deviceIssue (portRequest "open_port" "COM3") 2 ++
    [.arrive 0 (.ok []), .read 0 "t"] ++ deviceIssue (portRequest "close_port" "COM3") 2 ++
    deviceIssue (portRequest "open_port" "COM3") 2 ++ [.arrive 1 (.ok [65]), .read 1 "t"]

/-- The port that has been opened again is live, though a device failed before. -/
theorem livePorts_reopened : ∃ w, attached.run deviceReplaced = some w ∧
    DeviceFailed 0 deviceReplaced ∧ w.serial.isPortOpen "COM3" = true ∧ w.serial.LivePorts := by
  have hreplaced : (attached.run deviceReplaced).any (fun w => w.isAtRest &&
      w.serial.isPortOpen "COM3" && decide (w.serial.ports.keys = ["COM3"]) &&
        decide ((w.serial.ports.lookup "COM3").map (·.tx) = some 1)) = true := by decide +kernel
  obtain ⟨w, hw, htest⟩ := (Option.any_eq_true _ _).mp hreplaced
  simp only [Bool.and_eq_true, decide_eq_true_eq] at htest
  obtain ⟨⟨⟨hrest, hopen⟩, hkeys⟩, htx⟩ := htest
  refine ⟨w, hw, ⟨.ok [], by simp [deviceReplaced], rfl⟩, hopen,
    (livePorts_iff_no_open_device_failed hw
      (Attached.quiescent_of_isAtRest hw hrest)).mpr fun port op hop => ?_⟩
  -- the only open port has the second channel
  obtain rfl : port = "COM3" := by simpa [hkeys] using Table.mem_keys_of_lookup hop
  have hop' : op.tx = 1 := by simpa [hop] using htx
  rw [hop']
  rintro ⟨result, hmem, hfailure⟩
  obtain rfl : result = .ok [65] := by simpa [deviceReplaced, deviceIssue] using hmem
  exact absurd hfailure (by decide)

end Commmon

/-
# Parameters that are honoured

What a request asks for is read off its arguments here as the client meant it, and
compared with what is in force after a call that has succeeded: the settings that
the device was opened with and that the port table records, the port that the
monitor's listener is bound to, and the timer of a log.

The daemon takes a number only when it is written as an integer of sixty-four bits,
cuts it to the width it needs, and replaces everything else that it does not know
by a default. A number that a tool was given is written anew, and what the daemon reads
may be another one.
-/

import Mathlib.Data.Rat.Cast.CharZero
import Commmon.CallOwners
import Commmon.LogStops
import Commmon.ProducedRequests

set_option autoImplicit false

namespace Commmon

/-! ## Line settings -/

inductive DataBits
  | five
  | six
  | seven
  | eight
  deriving DecidableEq

inductive StopBits
  | one
  | two
  deriving DecidableEq

inductive Parity
  | none
  | even
  | odd
  deriving DecidableEq

/-- What a device is opened with. -/
structure PortBuilder where
  path : String
  baudRate : ℕ
  dataBits : DataBits
  stopBits : StopBits
  parity : Parity

namespace DataBits

def ofName (name : String) : DataBits :=
  match name with
  | "5" => .five
  | "6" => .six
  | "7" => .seven
  | _ => .eight

def name : DataBits → String
  | five => "5"
  | six => "6"
  | seven => "7"
  | eight => "8"

def count : DataBits → ℕ
  | five => 5
  | six => 6
  | seven => 7
  | eight => 8

end DataBits

namespace StopBits

def ofName (name : String) : StopBits :=
  match name with
  | "2" => .two
  | _ => .one

def name : StopBits → String
  | one => "1"
  | two => "2"

def count : StopBits → ℕ
  | one => 1
  | two => 2

end StopBits

namespace Parity

def ofName (name : String) : Parity :=
  match name with
  | "even" => .even
  | "odd" => .odd
  | _ => .none

def name : Parity → String
  | none => "none"
  | even => "even"
  | odd => "odd"

def letter : Parity → Char
  | none => 'N'
  | even => 'E'
  | odd => 'O'

end Parity

/-- What the port table records of a device that is configured so. -/
def PortBuilder.recorded (b : PortBuilder) : PortConfig where
  baudRate := b.baudRate
  dataBits := b.dataBits.count
  parity := b.parity.letter
  stopBits := b.stopBits.count

/-- What `open_port` opens the device with. -/
def SerialManager.builder (portName : String) (args : Value) : PortBuilder where
  path := portName
  baudRate := ((args.get "baudRate").bind Value.asU64).getD 115200 % UInt32.size
  dataBits := .ofName ((args.strArg "dataBits").getD "8")
  stopBits := .ofName ((args.strArg "stopBits").getD "1")
  parity := .ofName ((args.strArg "parity").getD "none")

/-- The table records what the device is configured with. -/
theorem SerialManager.portConfig_eq_recorded (portName : String) (args : Value) :
    portConfig args = (builder portName args).recorded := by
  simp only [portConfig, PortBuilder.recorded, builder, PortConfig.mk.injEq, true_and]
  refine ⟨?_, ?_, ?_⟩
  · generalize (args.strArg "dataBits").getD "8" = name
    unfold DataBits.ofName
    split <;> simp_all [DataBits.count]
  · generalize (args.strArg "parity").getD "none" = name
    unfold Parity.ofName
    split <;> simp_all [Parity.letter]
  · generalize (args.strArg "stopBits").getD "1" = name
    unfold StopBits.ofName
    split <;> simp_all [StopBits.count]

private theorem DataBits.name_ofName_iff (name : String) :
    (ofName name).name = name ↔ name ∈ ["5", "6", "7", "8"] := by
  unfold ofName
  split <;> simp_all [DataBits.name, eq_comm]

private theorem StopBits.name_ofName_iff (name : String) :
    (ofName name).name = name ↔ name ∈ ["1", "2"] := by
  unfold ofName
  split <;> simp_all [StopBits.name, eq_comm]

private theorem Parity.name_ofName_iff (name : String) :
    (ofName name).name = name ↔ name ∈ ["none", "even", "odd"] := by
  unfold ofName
  split <;> simp_all [Parity.name, eq_comm]

/-- A text that is read by a match with a default is honoured if it is one of the known. -/
private theorem name_honoured_iff {Setting : Type} {ofName : String → Setting}
    {name : Setting → String} {known : List String}
    (hknown : ∀ text, name (ofName text) = text ↔ text ∈ known) (asked : Option String)
    (default : String) :
    (∀ text ∈ asked, name (ofName (asked.getD default)) = text) ↔ ∀ text ∈ asked, text ∈ known := by
  refine forall₂_congr fun text htext => ?_
  rw [Option.mem_def.mp htext]
  exact hknown text

/-! ## Numbers -/

namespace Number

/-- One of so many natural numbers. -/
def Fits (size : ℕ) (x : Number) : Prop := ∃ n < size, x.value = (n : ℚ)

/-- What is written for the number is read as the same natural number. -/
def Written (write : ℚ → Option NumLit) (readFloat : NumLit → Rat) (x : Number) : Prop :=
  ∃ n : ℕ, x.value = n ∧ ∃ lit ∈ write n, ofLit readFloat lit = .posInt n

variable {write : ℚ → Option NumLit} {readFloat : NumLit → Rat}

/-- The number of sixty-four bits that the daemon has. -/
theorem asU64_received (x : Number) : ((Value.number x).received write readFloat).asU64 =
    (write x.value).bind fun lit => (Value.number (ofLit readFloat lit)).asU64 := by
  rw [Value.received_number]
  cases write x.value <;> rfl

private theorem asU64_received_of_small (hwrite : ∀ n : ℕ, n ≤ 2 ^ 53 → write n = some (.ofNat n))
    {x : Number} {n : ℕ} (hx : x.value = n) (hn : n ≤ 2 ^ 53) :
    ((Value.number x).received write readFloat).asU64 = some n := by
  rw [asU64_received, hx, hwrite n hn, Option.bind_some,
    ofLit_ofNat readFloat (Nat.lt_of_le_of_lt hn (by decide))]
  rfl

/-- A cut number is the number asked for exactly when it fits. -/
theorem cut_eq_value_iff (hwrite : ∀ n : ℕ, n ≤ 2 ^ 53 → write n = some (.ofNat n))
    {size default : ℕ} (hpos : 0 < size) (hsize : size ≤ 2 ^ 53) (x : Number) :
    (((((Value.number x).received write readFloat).asU64.getD default % size : ℕ) : ℚ) =
      x.value ↔ x.Fits size) := by
  constructor
  · exact fun h => ⟨_, Nat.mod_lt _ hpos, h.symm⟩
  · rintro ⟨n, hn, hx⟩
    rw [asU64_received_of_small hwrite hx (hn.le.trans hsize), Option.getD_some,
      Nat.mod_eq_of_lt hn, hx]

private theorem asU64_eq_some {x : Number} {n : ℕ} :
    (Value.number x).asU64 = some n ↔ x = .posInt n := by
  cases x <;> simp [Value.asU64]

/-- The daemon has the number asked for exactly when it is read as it was written. -/
theorem exists_asU64_iff (x : Number) :
    (∃ n ∈ ((Value.number x).received write readFloat).asU64, (n : ℚ) = x.value) ↔
      x.Written write readFloat := by
  rw [asU64_received]
  constructor
  · rintro ⟨n, hn, hx⟩
    obtain ⟨lit, hlit, hread⟩ := Option.bind_eq_some_iff.mp hn
    exact ⟨n, hx.symm, lit, hx ▸ hlit, asU64_eq_some.mp hread⟩
  · rintro ⟨n, hx, lit, hlit, hread⟩
    exact ⟨n, Option.bind_eq_some_iff.mpr ⟨lit, hx ▸ hlit, asU64_eq_some.mpr hread⟩, hx.symm⟩

end Number

namespace LineRequest

/-- A device is configured with what was asked for. -/
structure Honoured (asked : LineRequest) (b : PortBuilder) : Prop where
  baudRate : (b.baudRate : ℚ) = asked.baudRate.value
  dataBits : ∀ name ∈ asked.dataBits, b.dataBits.name = name
  stopBits : ∀ name ∈ asked.stopBits, b.stopBits.name = name
  parity : ∀ name ∈ asked.parity, b.parity.name = name

/-- The daemon knows what is asked for. -/
structure Supported (asked : LineRequest) : Prop where
  baudRate : asked.baudRate.Fits UInt32.size
  dataBits : ∀ name ∈ asked.dataBits, name ∈ ["5", "6", "7", "8"]
  stopBits : ∀ name ∈ asked.stopBits, name ∈ ["1", "2"]
  parity : ∀ name ∈ asked.parity, name ∈ ["none", "even", "odd"]

end LineRequest

/-- A field that has been read as a text is the text under the key. -/
theorem Value.strArg_of_optionalField {args : Value} {key : String} {asked : Option String}
    (h : args.optionalField key Value.asStr = some asked) : args.strArg key = asked := by
  unfold optionalField at h
  unfold strArg
  split at h
  · rename_i v hget
    obtain ⟨s, hs, rfl⟩ := Option.map_eq_some_iff.mp h
    simpa [hget] using hs
  · rename_i hget
    obtain rfl := Option.some.inj h
    simp [hget]

private theorem Value.get_of_asNumber {args : Value} {key : String} {x : Number}
    (h : (args.get key).bind Value.asNumber = some x) : args.get key = some (.number x) := by
  obtain ⟨v, hget, hv⟩ := Option.bind_eq_some_iff.mp h
  cases v with
  | number n =>
      obtain rfl := Option.some.inj hv
      exact hget
  | _ => simp [asNumber] at hv

private theorem Value.get_of_optionalField {args : Value} {key : String} {asked : Option Number}
    (h : args.optionalField key Value.asNumber = some asked) {x : Number} (hx : x ∈ asked) :
    args.get key = some (.number x) := by
  unfold optionalField at h
  split at h
  · rename_i v hget
    obtain ⟨x', hx', rfl⟩ := Option.map_eq_some_iff.mp h
    obtain rfl := Option.some.inj hx
    exact get_of_asNumber (by rw [hget, Option.bind_some, hx'])
  · obtain rfl := Option.some.inj h
    simp at hx

private theorem Value.asStr_received (write : ℚ → Option NumLit) (readFloat : NumLit → Rat)
    (v : Value) : (v.received write readFloat).asStr = v.asStr := by
  cases v with
  | number x =>
      rw [received_number]
      cases write x.value <;> rfl
  | _ => rfl

/-- The texts are the ones that were sent. -/
theorem Request.Carried.strArg {write : ℚ → Option NumLit} {readFloat : NumLit → Rat}
    {req got : Request} (h : req.Carried readFloat write got) (key : String) :
    got.args.strArg key = req.args.strArg key := by
  rw [Value.strArg, Value.strArg, h.args]
  cases req.args.get key with
  | none => rfl
  | some v => exact Value.asStr_received write readFloat v

section

variable {write : ℚ → Option NumLit} {readFloat : NumLit → Rat} {req got : Request}

private theorem SerialManager.builder_honoured_iff
    (hwrite : ∀ n : ℕ, n ≤ 2 ^ 53 → write n = some (.ofNat n))
    (hgot : req.Carried readFloat write got) {portName : String} {asked : LineRequest}
    (h : LineRequest.ofArgs req.args = some asked) :
    asked.Honoured (builder portName got.args) ↔ asked.Supported := by
  simp only [LineRequest.ofArgs, Option.bind_eq_bind] at h
  obtain ⟨baudRate, hbaudRate, h⟩ := Option.bind_eq_some_iff.mp h
  obtain ⟨dataBits, hdataBits, h⟩ := Option.bind_eq_some_iff.mp h
  obtain ⟨stopBits, hstopBits, h⟩ := Option.bind_eq_some_iff.mp h
  obtain ⟨parity, hparity, hasked⟩ := Option.bind_eq_some_iff.mp h
  obtain rfl := Option.some.inj hasked
  have hbaud : ((builder portName got.args).baudRate : ℚ) = baudRate.value ↔
      baudRate.Fits UInt32.size := by
    simp only [builder, hgot.args, Value.get_of_asNumber hbaudRate, Option.map_some,
      Option.bind_some]
    exact Number.cut_eq_value_iff hwrite (by decide) (by decide) baudRate
  have hdata : (∀ name ∈ dataBits, (builder portName got.args).dataBits.name = name) ↔
      ∀ name ∈ dataBits, name ∈ ["5", "6", "7", "8"] := by
    simp only [builder, hgot.strArg, Value.strArg_of_optionalField hdataBits]
    exact name_honoured_iff DataBits.name_ofName_iff dataBits "8"
  have hstop : (∀ name ∈ stopBits, (builder portName got.args).stopBits.name = name) ↔
      ∀ name ∈ stopBits, name ∈ ["1", "2"] := by
    simp only [builder, hgot.strArg, Value.strArg_of_optionalField hstopBits]
    exact name_honoured_iff StopBits.name_ofName_iff stopBits "1"
  have hpar : (∀ name ∈ parity, (builder portName got.args).parity.name = name) ↔
      ∀ name ∈ parity, name ∈ ["none", "even", "odd"] := by
    simp only [builder, hgot.strArg, Value.strArg_of_optionalField hparity]
    exact name_honoured_iff Parity.name_ofName_iff parity "none"
  constructor
  · exact fun ⟨h₁, h₂, h₃, h₄⟩ => ⟨hbaud.mp h₁, hdata.mp h₂, hstop.mp h₃, hpar.mp h₄⟩
  · exact fun ⟨h₁, h₂, h₃, h₄⟩ => ⟨hbaud.mpr h₁, hdata.mpr h₂, hstop.mpr h₃, hpar.mpr h₄⟩

end

/-! ## Listening -/

/-- The port that a listener is bound to. For port zero the system assigns one. -/
def listensOn (assigned httpPort : ℕ) : ℕ := if httpPort = 0 then assigned else httpPort

/-- The numbers that the monitor's port can be. -/
def Number.IsHttpPort (x : Number) : Prop :=
  ∃ n, 0 < n ∧ n < UInt16.size ∧ x.value = (n : ℚ)

private theorem listensOn_eq_value_iff {write : ℚ → Option NumLit} {readFloat : NumLit → Rat}
    {req got : Request} (hwrite : ∀ n : ℕ, n ≤ 2 ^ 53 → write n = some (.ofNat n))
    (hgot : req.Carried readFloat write got) {assigned : ℕ} (hpos : 0 < assigned)
    (hlt : assigned < UInt16.size) {x : Number}
    (hget : req.args.get "httpPort" = some (.number x)) :
    (listensOn assigned (DaemonState.httpPort got.args) : ℚ) = x.value ↔ x.IsHttpPort := by
  have hport : DaemonState.httpPort got.args =
      ((Value.number x).received write readFloat).asU64.getD 8765 % UInt16.size := by
    rw [DaemonState.httpPort, hgot.args, hget, Option.map_some, Option.bind_some]
  -- A number that is asked for is the one that is bound to, so that the system chooses none.
  have hbound : ∀ n : ℕ, n < UInt16.size → x.value = n →
      DaemonState.httpPort got.args = n := by
    intro n hn hx
    have hsmall : n ≤ 2 ^ 53 := hn.le.trans (by decide)
    rw [hport, Number.asU64_received_of_small hwrite hx hsmall, Option.getD_some,
      Nat.mod_eq_of_lt hn]
  constructor
  · intro h
    by_cases hzero : DaemonState.httpPort got.args = 0
    · rw [listensOn, if_pos hzero] at h
      exact absurd (hzero.symm.trans (hbound assigned hlt h.symm)) hpos.ne
    · rw [listensOn, if_neg hzero] at h
      have hsize : DaemonState.httpPort got.args < UInt16.size := by
        rw [hport]
        exact Nat.mod_lt _ (by decide)
      exact ⟨_, Nat.pos_of_ne_zero hzero, hsize, h.symm⟩
  · rintro ⟨n, hn, hsize, hx⟩
    rw [listensOn, hbound n hsize hx, if_neg hn.ne', hx]

/-! ## Calls on the serial manager -/

/-- Where a call can stand on its way to an answer. -/
inductive CallPc.On : LogCommand → CallPc → Prop
  | start (cmd : LogCommand) : On cmd (.start cmd)
  | register {args : Value} {port : String} (rx : Receiver)
      (hport : args.strArg "port" = some port) : On (.startLog args) (.register port rx args)
  | done (cmd : LogCommand) (resp : Option Response) : On cmd (.done resp)

/-- The commands with parameters that may be changed on the way. -/
inductive LogCommand.Tunable : LogCommand → Prop
  | openPort (args : Value) : Tunable (.openPort args)
  | startLog (args : Value) : Tunable (.startLog args)
  | updateLog (args : Value) : Tunable (.updateLog args)

namespace LogWorld

variable {w w' : LogWorld} {e : LogEvent} {i : CallId} {env : Logs.LogEnv} {cmd : LogCommand}
  {pc : CallPc} {args : Value}

private theorem advance_on (hon : pc.On cmd) (hcmd : cmd.Tunable)
    (hadvance : w.advance i env pc = some w') : ∃ pc', w'.calls i = some pc' ∧ pc'.On cmd := by
  have hanswer : ∀ (v : LogWorld) (resp : Response),
      ∃ pc', (v.answer i resp).calls i = some pc' ∧ pc'.On cmd := by
    intro v resp
    exact ⟨.done (some resp), by simp, .done cmd _⟩
  cases hon with
  | start =>
      cases hcmd with
      | openPort args =>
          obtain rfl := Option.some.inj hadvance
          exact hanswer _ _
      | startLog args =>
          obtain ⟨resp, rfl⟩ | ⟨port, hport, hnext⟩ := startOn_eq_some hadvance
          · exact hanswer _ _
          · split at hnext
            · obtain rfl := Option.some.inj hnext
              exact hanswer _ _
            · rename_i rx hrx
              obtain rfl := Option.some.inj hnext
              exact ⟨_, by simp, .register rx hport⟩
      | updateLog args =>
          obtain ⟨resp, rfl⟩ | ⟨port, hport, hnext⟩ := startOn_eq_some hadvance
          · exact hanswer _ _
          · obtain ⟨-, rfl⟩ := whenUnlocked_eq_some hnext
            exact hanswer _ _
  | register rx hport =>
      obtain ⟨-, rfl⟩ := whenUnlocked_eq_some hadvance
      exact hanswer _ _
  | done => simp [advance] at hadvance

private theorem step_on (hcmd : cmd.Tunable) (hstep : w.step e = some w')
    (hpc : w.calls i = some pc) (hon : pc.On cmd) : ∃ pc', w'.calls i = some pc' ∧ pc'.On cmd := by
  obtain hsame | ⟨env, hadvance⟩ := calls_cases hstep hpc (by cases hon <;> simp)
  · exact ⟨pc, hsame, hon⟩
  · exact advance_on hon hcmd hadvance

/-- A call that a client has made is answered in this step, and has succeeded. -/
structure Succeeds (cmd : LogCommand) (i : CallId) (w w' : LogWorld) : Prop where
  made : ∃ before after, logging.run (before ++ .call i cmd :: after) = some w
  underWay : ∀ resp, w.calls i ≠ some (.done resp)
  answered : ∃ e resp, w.step e = some w' ∧ w'.calls i = some (.done (some resp)) ∧
    resp.ok = true

namespace Succeeds

private theorem on (h : Succeeds cmd i w w') (hcmd : cmd.Tunable) :
    ∃ pc, w.calls i = some pc ∧ pc.On cmd := by
  obtain ⟨before, after, hrun⟩ := h.made
  obtain ⟨u, -, hafter⟩ := logging.run_append_eq_some.mp hrun
  obtain ⟨v, hcall, hafter⟩ := logging.runFrom_cons_eq_some.mp hafter
  refine logging.runFrom_invariant (P := fun w => ∃ pc, w.calls i = some pc ∧ pc.On cmd)
    ?_ ⟨_, calls_of_call hcall, .start cmd⟩ hafter
  rintro s e t ⟨pc, hpc, hon⟩ hstep
  exact step_on hcmd hstep hpc hon

/-- The step is the call's own. -/
theorem advance (h : Succeeds cmd i w w') (hcmd : cmd.Tunable) :
    ∃ pc env resp, pc.On cmd ∧ w.advance i env pc = some w' ∧
      w'.calls i = some (.done (some resp)) ∧ resp.ok = true := by
  obtain ⟨pc, hpc, hon⟩ := h.on hcmd
  obtain ⟨e, resp, hstep, hdone, hok⟩ := h.answered
  obtain hsame | ⟨env, hadvance⟩ := calls_cases hstep hpc (by cases hon <;> simp)
  · exact absurd (hpc.trans (hsame.symm.trans hdone)) (h.underWay _)
  · exact ⟨pc, env, resp, hon, hadvance, hdone, hok⟩

private theorem resp_eq_of_answer {v : LogWorld} {r resp : Response}
    (h : (v.answer i r).calls i = some (.done (some resp))) : resp = r := by
  simpa using h.symm

/-- The port is in the table with what the arguments are made into. -/
theorem openPort (h : Succeeds (.openPort args) i w w') :
    ∃ port op, args.strArg "port" = some port ∧ w'.serial.ports.lookup port = some op ∧
      op.config = SerialManager.portConfig args := by
  obtain ⟨pc, env, resp, hon, hadvance, hdone, hok⟩ := h.advance (.openPort args)
  cases hon with
  | start =>
      obtain rfl := Option.some.inj hadvance
      obtain rfl := resp_eq_of_answer hdone
      obtain ⟨-, hfailed⟩ | ⟨port, hport, -, hins, -⟩ :=
        w.serial.openPort_cases args env.opened
      · simp [hfailed] at hok
      · refine ⟨port, ⟨w.serial.fresh, SerialManager.portConfig args⟩, hport, ?_, rfl⟩
        simp [hins]
  | done => simp [LogWorld.advance] at hadvance

/-- The log is put into the table with the duration that was read. -/
theorem startLog (h : Succeeds (.startLog args) i w w') :
    ∃ port rx filePath keyword, args.strArg "port" = some port ∧
      w'.logs = w.logs.register port rx filePath keyword
        ((args.get "duration").bind Value.asU64) := by
  obtain ⟨pc, env, resp, hon, hadvance, hdone, hok⟩ := h.advance (.startLog args)
  cases hon with
  | start =>
      simp only [LogWorld.advance, start, startOn] at hadvance
      split at hadvance
      · obtain rfl := Option.some.inj hadvance
        obtain rfl := resp_eq_of_answer hdone
        simp at hok
      · split at hadvance
        · obtain rfl := Option.some.inj hadvance
          obtain rfl := resp_eq_of_answer hdone
          simp at hok
        · obtain rfl := Option.some.inj hadvance
          simp at hdone
  | @register _ port rx hport =>
      obtain ⟨-, rfl⟩ := whenUnlocked_eq_some hadvance
      obtain rfl := resp_eq_of_answer hdone
      unfold Logs.startLog at hok ⊢
      split_ifs at hok ⊢
      · simp at hok
      · exact ⟨port, rx, _, _, hport, rfl⟩
  | done => simp [LogWorld.advance] at hadvance

/-- The log that is in the table gets what was read. -/
theorem updateLog (h : Succeeds (.updateLog args) i w w') :
    ∃ port log, ∃ hlog : w.logs.table.lookup port = some log, args.strArg "port" = some port ∧
      w'.logs = w.logs.update port log hlog ((args.get "stopKeyword").map Logs.newKeyword)
        ((args.get "duration").bind Value.asU64) := by
  obtain ⟨pc, env, resp, hon, hadvance, hdone, hok⟩ := h.advance (.updateLog args)
  cases hon with
  | start =>
      simp only [LogWorld.advance, start, startOn] at hadvance
      split at hadvance
      · obtain rfl := Option.some.inj hadvance
        obtain rfl := resp_eq_of_answer hdone
        simp at hok
      · rename_i port hport
        obtain ⟨-, rfl⟩ := whenUnlocked_eq_some hadvance
        obtain rfl := resp_eq_of_answer hdone
        cases hlog : w.logs.table.lookup port with
        | none => simp [Logs.updateLog_of_free args hlog] at hok
        | some log => exact ⟨port, log, hlog, hport, Logs.updateLog_of_lookup args hlog⟩
  | done => simp [LogWorld.advance] at hadvance

end Succeeds

end LogWorld

/-! ## Timers -/

namespace Logs

/-- The log of a port has a timer that was made just now, still sleeps, and lasts as
long as this. -/
def TimedAnew (l l' : Logs) (port : String) (secs : ℚ) : Prop :=
  ∃ log, l'.Owns port log l.freshTimer ∧ l'.Sleeping l.freshTimer ∧
    ((l'.timers l.freshTimer).secs : ℚ) = secs

variable {l : Logs} {port : String} {duration : Option ℕ} {secs : ℚ}

/-- A log that has just been given a timer is timed by the duration of that timer. -/
private theorem timedAnew_iff_of_timer {l' : Logs} {log : LogState} {n : ℕ}
    (hlookup : l'.table.lookup port = some log) (htask : log.durationTask = some l.freshTimer)
    (htimer : l'.timers l.freshTimer = ⟨log.id, port, log.filePath, n, .sleeping⟩) :
    l.TimedAnew l' port secs ↔ (n : ℚ) = secs := by
  constructor
  · rintro ⟨log', -, -, hsecs⟩
    simpa [htimer] using hsecs
  · intro hsecs
    exact ⟨log, .of_timer hlookup htask htimer, by simp [Sleeping, htimer], by simpa [htimer]⟩

private theorem timedAnew_register (rx : Receiver) (filePath : String) (keyword : Option String) :
    l.TimedAnew (l.register port rx filePath keyword duration) port secs ↔
      ∃ n ∈ duration, (n : ℚ) = secs := by
  have hlookup := l.lookup_register port rx filePath keyword duration port
  have htimers := l.timers_register port rx filePath keyword duration
  rw [if_pos rfl] at hlookup
  cases duration with
  | none =>
      constructor
      · rintro ⟨log, howns, -⟩
        obtain rfl := Option.some.inj (hlookup.symm.trans howns.lookup)
        simpa using howns.durationTask
      · simp
  | some n =>
      have htimer : (l.register port rx filePath keyword (some n)).timers l.freshTimer =
          ⟨l.freshLog, port, filePath, n, .sleeping⟩ := by
        simp [htimers]
      rw [timedAnew_iff_of_timer hlookup rfl htimer]
      simp

private theorem timedAnew_update (hannounced : l.Announced) {log : LogState}
    (hlog : l.table.lookup port = some log) (keyword : Option (Option String)) :
    l.TimedAnew (l.update port log hlog keyword duration) port secs ↔
      ∃ n ∈ duration, (n : ℚ) = secs := by
  have hlookup := l.lookup_update port log hlog keyword duration port
  have htimers := l.timers_update port log hlog keyword duration
  rw [if_pos rfl] at hlookup
  cases duration with
  | none =>
      constructor
      · -- A timer that was there before is not a new one.
        rintro ⟨log', -, hsleep, -⟩
        have hstate : (l.timers l.freshTimer).state = .sleeping := by
          simpa [Sleeping, htimers] using hsleep
        exact absurd (hannounced.timer_lt _ (by simp [hstate])) (Nat.lt_irrefl _)
      · simp
  | some n =>
      have htimer : (l.update port log hlog keyword (some n)).timers l.freshTimer =
          ⟨log.id, port, log.filePath, n, .sleeping⟩ := by
        simp [htimers]
      rw [timedAnew_iff_of_timer hlookup rfl htimer]
      simp

end Logs

namespace LogWorld.Succeeds

variable {w w' : LogWorld} {i : CallId} {cmd : LogCommand} {args : Value}

theorem announced (h : Succeeds cmd i w w') : w.logs.Announced := by
  obtain ⟨before, after, hrun⟩ := h.made
  exact announced_of_run hrun

/-- A new timer lasts as long as the duration that was read. -/
theorem timedAnew_iff (h : Succeeds cmd i w w')
    (hcmd : cmd = .startLog args ∨ cmd = .updateLog args) :
    ∃ port, args.strArg "port" = some port ∧ ∀ secs : ℚ,
      w.logs.TimedAnew w'.logs port secs ↔
        ∃ n ∈ (args.get "duration").bind Value.asU64, (n : ℚ) = secs := by
  obtain rfl | rfl := hcmd
  · obtain ⟨port, rx, filePath, keyword, hport, hlogs⟩ := h.startLog
    exact ⟨port, hport, fun secs => hlogs ▸ Logs.timedAnew_register rx filePath keyword⟩
  · obtain ⟨port, log, hlog, hport, hlogs⟩ := h.updateLog
    exact ⟨port, hport, fun secs => hlogs ▸ Logs.timedAnew_update h.announced hlog _⟩

end LogWorld.Succeeds

/-! ## The monitor -/

/-- Where a call of `open_monitor` can stand. -/
inductive MonitorPc.Opens (args : Value) : MonitorPc → Prop
  | start : Opens args (.start (.openMonitor args))
  | binding : Opens args (.binding (DaemonState.httpPort args))
  | done (resp : Response) : Opens args (.done resp)

namespace DaemonState

variable {w w' : DaemonState} {e : HostEvent} {i : CallId} {args : Value} {pc : MonitorPc}

private theorem step_opens (hstep : w.step e = some w') (hpc : w.calls i = some pc)
    (hopens : pc.Opens args) : ∃ pc', w'.calls i = some pc' ∧ pc'.Opens args := by
  -- A step of another call leaves this one alone.
  have hset : ∀ {j : CallId} {pc' : MonitorPc}, (i = j → pc'.Opens args) →
      ∃ pc'', Function.update w.calls j (some pc') i = some pc'' ∧ pc''.Opens args := by
    intro j pc' hpc'
    obtain rfl | hij := eq_or_ne i j
    · exact ⟨pc', Function.update_self .., hpc' rfl⟩
    · exact ⟨pc, by rw [Function.update_of_ne hij, hpc], hopens⟩
  cases (step_steps hstep).2 with
  | called j cmd hnew hcmd | asked j s hnew hs =>
      apply hset
      rintro rfl
      simp [hpc] at hnew
  | answered j bound cmd resp hpc' => exact hset fun _ => .done resp
  | binding j bound args' hpc' hfree hnone =>
      apply hset
      rintro rfl
      obtain rfl := Option.some.inj (hpc.symm.trans hpc')
      cases hopens
      exact .binding
  | bound j bound port hpc' =>
      cases bound with
      | ok _ => exact hset fun _ => .done _
      | error _ => exact hset fun _ => .done _
  | stopBegun j bound handle hpc' hfree hsome =>
      apply hset
      rintro rfl
      obtain rfl := Option.some.inj (hpc.symm.trans hpc')
      cases hopens
  | stopped j bound hpc' hreturned => exact hset fun _ => .done _
  | managed | interrupted | cleanBegun | cleanUnneeded | cleanStopped | exited | moved | left
  | served => exact ⟨pc, hpc, hopens⟩

/-- A call of `open_monitor` is binding its listener, and has succeeded after this
step: it reports a newly started monitor. -/
structure StartsMonitor (args : Value) (i : CallId) (w w' : DaemonState) : Prop where
  made : ∃ before after, hosting.run (before ++ .call i (.openMonitor args) :: after) = some w
  binding : ∃ httpPort, w.calls i = some (.binding httpPort)
  answered : ∃ e resp, w.step e = some w' ∧ w'.calls i = some (.done resp) ∧ resp.ok = true

private theorem calls_of_openMonitor (hstep : w.step (.call i (.openMonitor args)) = some w') :
    w'.calls i = some (.start (.openMonitor args)) := by
  have hlive := live_of_step hstep
  simp only [live] at hlive
  split at hlive
  · simp at hlive
  · simp_all
  · obtain rfl := Option.some.inj hlive
    simp

private theorem bind_of_binding {port : ℕ} (hstep : w.step e = some w')
    (hpc : w.calls i = some (.binding port)) {resp : Response}
    (hdone : w'.calls i = some (.done resp)) : ∃ bound, w' = w.bind i port bound := by
  have hmoves := step_call hstep i
  rw [hdone] at hmoves
  generalize hpc' : some (MonitorPc.done resp) = pc' at hmoves
  cases hmoves with
  | same => simp [hpc] at hpc'
  | made cmd hnew => simp [hpc] at hnew
  | entered bound cmd pc hstart => simp [hpc] at hstart
  | answered bound pc =>
      have hlive := live_of_step hstep
      simp only [live, hpc, Option.bind_some, advance, Option.some.injEq] at hlive
      exact ⟨bound, hlive.symm⟩

theorem StartsMonitor.monitor (h : StartsMonitor args i w w') :
    w'.monitor = some ⟨httpPort args⟩ := by
  obtain ⟨before, after, hrun⟩ := h.made
  obtain ⟨u, -, hafter⟩ := hosting.run_append_eq_some.mp hrun
  obtain ⟨v, hcall, hafter⟩ := hosting.runFrom_cons_eq_some.mp hafter
  obtain ⟨pc, hpc, hopens⟩ :=
    hosting.runFrom_invariant (P := fun w => ∃ pc, w.calls i = some pc ∧ pc.Opens args)
      (fun s e t ⟨pc, hpc, hon⟩ hstep => step_opens hstep hpc hon)
      ⟨_, calls_of_openMonitor hcall, .start⟩ hafter
  obtain ⟨port, hbinding⟩ := h.binding
  obtain rfl := Option.some.inj (hpc.symm.trans hbinding)
  obtain ⟨e, resp, hstep, hdone, hok⟩ := h.answered
  obtain ⟨bound, rfl⟩ := bind_of_binding hstep hpc hdone
  cases hopens
  cases bound with
  | ok _ => rfl
  | error message =>
      obtain rfl : resp = .ofError s!"모니터 시작 실패: {message}" := by
        simpa [bind] using hdone.symm
      simp at hok

end DaemonState

/-! ## Requests -/

private theorem route_openPort {req : Request} {args : Value}
    (h : route req = .manager (.openPort args)) : req.cmd = "open_port" ∧ req.args = args := by
  unfold route at h
  split at h <;> simp_all

private theorem route_openMonitor {req : Request} {args : Value}
    (h : route req = .monitor (.openMonitor args)) :
    req.cmd = "open_monitor" ∧ req.args = args := by
  unfold route at h
  split at h <;> simp_all

private theorem route_log {req : Request} {cmd : LogCommand} {args : Value}
    (hcmd : cmd = .startLog args ∨ cmd = .updateLog args) (h : route req = .manager cmd) :
    req.cmd ∈ ["start_log", "update_log"] ∧ req.args = args := by
  unfold route at h
  obtain rfl | rfl := hcmd
  · split at h <;> simp_all
  · split at h <;> simp_all

/-- Parameters are honoured exactly when the daemon supports them. For a request that the
tools or the prompt make, as the daemon has it: the settings of a port that is opened, the port
of a monitor that is started, and the timer of a log with a duration. `assigned` is the port
that the system gives to a listener that asks for port zero. -/
theorem Request.honoured_iff_supported {showNumber : ℚ → Option NumLit} {showFloat : Rat → NumLit}
    {readFloat : NumLit → Rat} (hshow : ∀ n : ℕ, n ≤ 2 ^ 53 → showNumber n = some (.ofNat n))
    {writer : Writer} {req got : Request}
    (hreq : req.Produced showNumber showFloat readFloat writer got) :
    (∀ args, route got = .manager (.openPort args) →
      ∃ asked, LineRequest.ofArgs req.args = some asked ∧
        ∀ i w w', LogWorld.Succeeds (.openPort args) i w w' →
          ∃ port op, req.args.strArg "port" = some port ∧
            w'.serial.ports.lookup port = some op ∧
            op.config = (SerialManager.builder port args).recorded ∧
            (asked.Honoured (SerialManager.builder port args) ↔ asked.Supported)) ∧
    (∀ args, route got = .monitor (.openMonitor args) →
      ∃ asked, req.args.optionalField "httpPort" Value.asNumber = some asked ∧
        ∀ i w w', DaemonState.StartsMonitor args i w w' →
          ∃ handle, w'.monitor = some handle ∧
            ∀ assigned, 0 < assigned → assigned < UInt16.size →
              ((∀ x ∈ asked, (listensOn assigned handle.httpPort : ℚ) = x.value) ↔
                ∀ x ∈ asked, x.IsHttpPort)) ∧
    (∀ args cmd, cmd = .startLog args ∨ cmd = .updateLog args → route got = .manager cmd →
      ∃ asked, req.args.optionalField "duration" Value.asNumber = some asked ∧
        ∀ i w w', LogWorld.Succeeds cmd i w w' →
          ∃ port, req.args.strArg "port" = some port ∧
            ((∀ x ∈ asked, w.logs.TimedAnew w'.logs port x.value) ↔
              ∀ x ∈ asked, x.Written (writer.shows showNumber) readFloat)) := by
  have hgot := hreq.carried
  have hwrite : ∀ n : ℕ, n ≤ 2 ^ 53 → writer.shows showNumber n = some (.ofNat n) := by
    cases writer with
    | tool => exact hshow
    | prompt => exact showWhole_eq
  refine ⟨fun args hroute => ?_, fun args hroute => ?_, fun args cmd hcmd hroute => ?_⟩
  · obtain ⟨hname, rfl⟩ := route_openPort hroute
    obtain ⟨asked, hasked⟩ := hreq.lineRequest (hgot.cmd.symm.trans hname)
    refine ⟨asked, hasked, fun i w w' h => ?_⟩
    obtain ⟨port, op, hport, hop, hconfig⟩ := h.openPort
    exact ⟨port, op, (hgot.strArg "port").symm.trans hport, hop,
      hconfig.trans (SerialManager.portConfig_eq_recorded port _),
      SerialManager.builder_honoured_iff hwrite hgot hasked⟩
  · obtain ⟨hname, rfl⟩ := route_openMonitor hroute
    obtain ⟨asked, hasked⟩ := hreq.httpPort (hgot.cmd.symm.trans hname)
    refine ⟨asked, hasked, fun i w w' h => ⟨_, h.monitor, fun assigned hpos hlt => ?_⟩⟩
    refine forall₂_congr fun x hx => ?_
    exact listensOn_eq_value_iff hwrite hgot hpos hlt (Value.get_of_optionalField hasked hx)
  · obtain ⟨hname, rfl⟩ := route_log hcmd hroute
    obtain ⟨asked, hasked⟩ := hreq.duration (hgot.cmd ▸ hname)
    refine ⟨asked, hasked, fun i w w' h => ?_⟩
    obtain ⟨port, hport, htimed⟩ := h.timedAnew_iff hcmd
    refine ⟨port, (hgot.strArg "port").symm.trans hport, forall₂_congr fun x hx => ?_⟩
    rw [htimed, hgot.args, Value.get_of_optionalField hasked hx, Option.map_some, Option.bind_some]
    exact Number.exists_asU64_iff x

/-- A manager that has just been asked to open its first port. -/
def LogWorld.opening (args : Value) : LogWorld :=
  logging.init.setCall 0 (.start (.openPort args))

private theorem LogWorld.opening_succeeds {args : Value} {port : String}
    (hport : args.strArg "port" = some port) :
    ∃ w', Succeeds (.openPort args) 0 (opening args) w' := by
  have hok : (SerialManager.new.openPort args logEnv.opened).2.ok = true := by
    simp [SerialManager.openPort, hport, SerialManager.new, logEnv]
  refine ⟨_, ⟨[], [], rfl⟩, by simp [opening], .advance 0 logEnv, _, rfl, ?_, hok⟩
  simp [opening, logging]

/-- A request of the tools, read by the daemon. -/
theorem Request.Produced.of_tool (showFloat : Rat → NumLit) {tool : Tool} {filePath : String}
    {input : Value} {call : ToolCall} (h : tool.schema filePath input = some call) :
    call.request.Produced showWhole showFloat (fun _ => 0) .tool
      (call.request.asReceived showWhole fun _ => 0) :=
  .tool h (daemonRequest_toolLine showWhole _ call.request)

/-- A tool is given a baud rate with a point. -/
def pointedInput : Value :=
  .object [("port", .string "COM3"), ("baudRate", .number (.float 9600)),
    ("parity", .string "even")]

/-- Its settings are honoured. -/
theorem Request.honoured_iff_supported_pointed :
    ∃ (req got : Request) (args : Value) (asked : LineRequest) (w w' : LogWorld),
      req.Produced showWhole (fun _ => .ofNat 0) (fun _ => 0) .tool got ∧
      route got = .manager (.openPort args) ∧ LineRequest.ofArgs req.args = some asked ∧
      asked.baudRate = .float 9600 ∧ LogWorld.Succeeds (.openPort args) 0 w w' ∧
      asked.Honoured (SerialManager.builder "COM3" args) := by
  have hcall : Tool.openPort.schema "" pointedInput =
      some (.openPort "COM3" (.float 9600) "8" "1" "even") := rfl
  have hproduced := Produced.of_tool (fun _ => .ofNat 0) hcall
  have hasked : LineRequest.ofArgs
      (ToolCall.openPort "COM3" (.float 9600) "8" "1" "even").request.args =
        some ⟨.float 9600, some "8", some "1", some "even"⟩ := rfl
  have hport : ((ToolCall.openPort "COM3" (.float 9600) "8" "1" "even").request.asReceived
      showWhole fun _ => 0).args.strArg "port" = some "COM3" :=
    (hproduced.carried.strArg "port").trans rfl
  obtain ⟨w', hw'⟩ := LogWorld.opening_succeeds hport
  obtain ⟨asked, hasked', hall⟩ := (honoured_iff_supported showWhole_eq hproduced).1 _ rfl
  obtain rfl := Option.some.inj (hasked.symm.trans hasked')
  obtain ⟨port, op, hport', -, -, hiff⟩ := hall 0 _ w' hw'
  obtain rfl : "COM3" = port := Option.some.inj hport'
  refine ⟨_, _, _, _, _, w', hproduced, rfl, hasked, rfl, hw', hiff.mpr ⟨?_, ?_, ?_, ?_⟩⟩
  · exact ⟨9600, by decide, by simp [Number.value]⟩
  · simp
  · simp
  · simp

/-- The settings of the schema are not all honoured: a port that is asked for with mark
parity is opened without one. -/
theorem Request.not_always_honoured : ¬ ∀ (showNumber : ℚ → Option NumLit)
    (readFloat : NumLit → Rat) (req got : Request) (args : Value),
    (∀ n : ℕ, n ≤ 2 ^ 53 → showNumber n = some (.ofNat n)) →
    req.Produced showNumber (fun _ => .ofNat 0) readFloat .tool got →
    route got = .manager (.openPort args) → ∀ asked, LineRequest.ofArgs req.args = some asked →
      ∀ i w w', LogWorld.Succeeds (.openPort args) i w w' →
        ∀ port, req.args.strArg "port" = some port →
          asked.Honoured (SerialManager.builder port args) := by
  intro h
  have hcall : Tool.openPort.schema ""
      (.object [("port", .string "COM3"), ("parity", .string "mark")]) =
        some (.openPort "COM3" (.posInt 115200) "8" "1" "mark") := rfl
  have hproduced := Produced.of_tool (fun _ => .ofNat 0) hcall
  have hport : ((ToolCall.openPort "COM3" (.posInt 115200) "8" "1" "mark").request.asReceived
      showWhole fun _ => 0).args.strArg "port" = some "COM3" :=
    (hproduced.carried.strArg "port").trans rfl
  obtain ⟨w', hw'⟩ := LogWorld.opening_succeeds hport
  have hhonoured := h showWhole _ _ _ _ showWhole_eq hproduced rfl
    ⟨.posInt 115200, some "8", some "1", some "mark"⟩ rfl 0 _ w' hw' "COM3" rfl
  have hparity : ((ToolCall.openPort "COM3" (.posInt 115200) "8" "1" "mark").request.asReceived
      showWhole fun _ => 0).args.strArg "parity" = some "mark" :=
    (hproduced.carried.strArg "parity").trans rfl
  have hname := hhonoured.parity "mark" rfl
  rw [SerialManager.builder, hparity] at hname
  exact absurd hname (by decide)

end Commmon

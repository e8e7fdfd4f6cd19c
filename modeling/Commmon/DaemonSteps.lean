/-
# What a step of the daemon can do

One inversion result for each step function: the ways a command can begin, the
moves of a streaming task, and a step of the daemon as one client sees it. The
induction over a run is packaged once, as the rule for one client. Later modules
split on these and do not unfold the step functions.
-/

import Commmon.Daemon

set_option autoImplicit false

namespace Commmon

open Broadcast

/-! ## How a command begins -/

/-- The commands that a session or the port table has a part in. -/
def sessionCommands : List String :=
  ["open_port", "close_port", "subscribe_rx", "unsubscribe_rx", "filter_rx", "add_filter_rx",
    "unfilter_rx", "read_port"]

namespace Dispatch

/-- The ways a command can begin. `answered` is the only one that already
replies, and changes nothing. -/
inductive Begins (m : SerialManager) (s : ClientSession) (req : Request) :
    SerialManager → ClientSession → Pc → Prop
  | answered (resp : Response)
      (hresp : req.cmd ∈ sessionCommands → resp.ok = false ∧ resp.data = none) :
      Begins m s req m s (.reply resp)
  | opened (port : String) (resp : Response) (hcmd : req.cmd = "open_port")
      (hport : req.args.strArg "port" = some port) (hclosed : m.ports.lookup port = none)
      (hok : resp.ok = true) :
      Begins m s req (m.insertPort port (SerialManager.portConfig req.args)) s
        (.openEnsure port resp)
  | closed (port : String) (op : OpenPort) (resp : Response) (hcmd : req.cmd = "close_port")
      (hport : req.args.strArg "port" = some port) (hopen : m.ports.lookup port = some op)
      (hok : resp.ok = true) :
      Begins m s req (m.removePort port op) s (closeSends s port resp)
  | subscribing (port : String) (hcmd : req.cmd = "subscribe_rx")
      (hport : req.args.strArg "port" = some port) (hnew : port ∉ s.rxSubscriptions) :
      Begins m s req m s (.subscribeTake port)
  | unsubscribed (port success : String) (hcmd : req.cmd = "unsubscribe_rx")
      (hport : req.args.strArg "port" = some port) (hmem : port ∈ s.rxSubscriptions) :
      Begins m s req m { s with rxSubscriptions := s.rxSubscriptions.erase port }
        (.tell (.unsubscribe port) (.reply (.successMsg success)))
  | filtering (port : String) (keywords : List String) (success : String)
      (hcmd : req.cmd = "filter_rx" ∨ req.cmd = "add_filter_rx")
      (hport : req.args.strArg "port" = some port)
      (hkeywords : keywordsArg req.args = some keywords) :
      Begins m s req m s (.filterTake port keywords success)
  | extended (port : String) (existing keywords : List String) (success : String)
      (hcmd : req.cmd = "add_filter_rx") (hport : req.args.strArg "port" = some port)
      (hkeywords : keywordsArg req.args = some keywords)
      (hexisting : s.filterSubscriptions.lookup port = some existing) :
      Begins m s req m
        { s with filterSubscriptions :=
            s.filterSubscriptions.insert port (mergeKeywords existing keywords) }
        (.send (.setFilterKeywords port (mergeKeywords existing keywords)) success)
  | unfiltered (port success : String) (existing : List String) (hcmd : req.cmd = "unfilter_rx")
      (hport : req.args.strArg "port" = some port)
      (hexisting : s.filterSubscriptions.lookup port = some existing) :
      Begins m s req m { s with filterSubscriptions := s.filterSubscriptions.erase port }
        (.tell (.removeFilter port) (.reply (.successMsg success)))
  | reading (port : String) (hcmd : req.cmd = "read_port")
      (hport : req.args.strArg "port" = some port) :
      Begins m s req m s (.readEnsure port (clearArg req.args))

variable {m : SerialManager} {s : ClientSession} {req : Request}

/-- A refusal. -/
theorem Begins.refused (msg : String) : Begins m s req m s (.reply (.ofError msg)) :=
  .answered _ fun _ => ⟨rfl, rfl⟩

private theorem openPort_begins (hcmd : req.cmd = "open_port") (opened : Except String Unit) :
    Begins m s req (openPort m s req.args opened).1 (openPort m s req.args opened).2.1
      (openPort m s req.args opened).2.2 := by
  unfold openPort
  obtain ⟨hsame, hfail⟩ | ⟨port, hport, hclosed, hins, hok⟩ :=
    m.openPort_cases req.args opened
  · have hdata := m.openPort_data_of_failed hfail
    simp only [hfail, hsame]
    exact .answered _ fun _ => ⟨hfail, hdata⟩
  · simp only [hok, hport, hins]
    exact .opened port _ hcmd hport hclosed hok

private theorem closePort_begins (hcmd : req.cmd = "close_port") :
    Begins m s req (closePort m s req.args).1 (closePort m s req.args).2.1
      (closePort m s req.args).2.2 := by
  unfold closePort
  obtain ⟨hsame, hfail⟩ | ⟨port, op, hport, hopen, hrem, hok⟩ := m.closePort_cases req.args
  · have hdata := m.closePort_data_of_failed hfail
    simp only [hfail, hsame]
    exact .answered _ fun _ => ⟨hfail, hdata⟩
  · simp only [hok, hport, hrem]
    exact .closed port op _ hcmd hport hopen hok

private theorem subscribeRx_begins (hcmd : req.cmd = "subscribe_rx") :
    Begins m s req m (subscribeRx m s req.args).1 (subscribeRx m s req.args).2 := by
  unfold subscribeRx
  split
  · exact .refused _
  · rename_i port hport
    split_ifs with hopen hmem
    · exact .refused _
    · exact .refused _
    · exact .subscribing port hcmd hport hmem

private theorem unsubscribeRx_begins (hcmd : req.cmd = "unsubscribe_rx") :
    Begins m s req m (unsubscribeRx s req.args).1 (unsubscribeRx s req.args).2 := by
  unfold unsubscribeRx
  split
  · exact .refused _
  · rename_i port hport
    split_ifs with hmem
    · exact .unsubscribed port _ hcmd hport hmem
    · exact .refused _

private theorem filterRx_begins (hcmd : req.cmd = "filter_rx") :
    Begins m s req m (filterRx m s req.args).1 (filterRx m s req.args).2 := by
  unfold filterRx
  split
  · exact .refused _
  · rename_i port hport
    split
    · exact .refused _
    · rename_i keywords hkeywords
      split_ifs
      · exact .refused _
      · exact .refused _
      · exact .filtering port keywords _ (Or.inl hcmd) hport hkeywords

private theorem addFilterRx_begins (hcmd : req.cmd = "add_filter_rx") :
    Begins m s req m (addFilterRx m s req.args).1 (addFilterRx m s req.args).2 := by
  unfold addFilterRx
  split
  · exact .refused _
  · rename_i port hport
    split
    · exact .refused _
    · rename_i keywords hkeywords
      split_ifs
      · exact .refused _
      · exact .refused _
      · split
        · rename_i existing hexisting
          exact .extended port existing keywords _ hcmd hport hkeywords hexisting
        · exact .filtering port keywords _ (Or.inr hcmd) hport hkeywords

private theorem unfilterRx_begins (hcmd : req.cmd = "unfilter_rx") :
    Begins m s req m (unfilterRx s req.args).1 (unfilterRx s req.args).2 := by
  unfold unfilterRx
  split
  · exact .refused _
  · rename_i port hport
    split_ifs with hsome
    · obtain ⟨existing, hexisting⟩ := Option.isSome_iff_exists.mp hsome
      exact .unfiltered port _ existing hcmd hport hexisting
    · exact .refused _

private theorem readPort_begins (hcmd : req.cmd = "read_port") :
    Begins m s req m (readPort m s req.args).1 (readPort m s req.args).2 := by
  unfold readPort
  split
  · exact .refused _
  · rename_i port hport
    split_ifs
    · exact .refused _
    · exact .reading port hcmd hport

/-- Every command begins in one of these ways. -/
theorem start_begins (m : SerialManager) (s : ClientSession) (req : Request) (env : Env) :
    Begins m s req (start m s req env).1 (start m s req env).2.1 (start m s req env).2.2 := by
  unfold start
  split
  · exact openPort_begins ‹_› env.opened
  · exact closePort_begins ‹_›
  · exact subscribeRx_begins ‹_›
  · exact unsubscribeRx_begins ‹_›
  · exact filterRx_begins ‹_›
  · exact addFilterRx_begins ‹_›
  · exact unfilterRx_begins ‹_›
  · exact readPort_begins ‹_›
  all_goals exact .answered _ (by simp_all [sessionCommands])

end Dispatch

/-! ## What a streaming task can do -/

/-- The ports whose closed channel the pushing pass has met. -/
def TaskPc.closedRx : TaskPc → List String
  | .pollRx _ _ closed _ => closed
  | _ => []

/-- The ports whose closed channel the filtering pass has met. -/
def TaskPc.closedFilters : TaskPc → List String
  | .pollFilters _ _ closed _ => closed
  | _ => []

namespace StreamTask

/-- The moves of a streaming task. A pass leaves the lists of closed ports alone
except where a move says so. -/
inductive Moves (m : SerialManager) (t : StreamTask) (queue : List RxSubCommand) :
    StreamTask → List RxSubCommand → List Push → Prop
  | died : Moves m t queue .stopped [] []
  | applied (cmd : RxSubCommand) (rest : List RxSubCommand) (hqueue : queue = cmd :: rest)
      (hrx : t.pc.closedRx = []) (hfilters : t.pc.closedFilters = []) :
      Moves m t queue ⟨t.maps.apply cmd, .commands⟩ rest []
  | went (pc : TaskPc) (lines : List Push) (hlive : pc ≠ .ended)
      (hrx : pc.closedRx = t.pc.closedRx) (hfilters : pc.closedFilters = t.pc.closedFilters) :
      Moves m t queue ⟨t.maps, pc⟩ queue lines
  | rxReceived (port : String) (rx : Receiver) (next : ℕ) (pc : TaskPc) (hlive : pc ≠ .ended)
      (hlookup : t.maps.rxReceivers.lookup port = some rx)
      (hrx : pc.closedRx = t.pc.closedRx) (hfilters : pc.closedFilters = t.pc.closedFilters) :
      Moves m t queue
        ⟨{ t.maps with rxReceivers :=
            t.maps.rxReceivers.insert port { rx with next := next } }, pc⟩ queue []
  | rxNoticed (port : String) (rx : Receiver) (pc : TaskPc) (hlive : pc ≠ .ended)
      (hlookup : t.maps.rxReceivers.lookup port = some rx)
      (hclosed : (m.channels rx.chan).isClosed = true)
      (hrx : pc.closedRx = t.pc.closedRx ++ [port])
      (hfilters : pc.closedFilters = t.pc.closedFilters) :
      Moves m t queue ⟨t.maps, pc⟩ queue []
  | rxDropped (pc : TaskPc) (hlive : pc ≠ .ended) (hrx : pc.closedRx = [])
      (hfilters : pc.closedFilters = t.pc.closedFilters) :
      Moves m t queue
        ⟨{ t.maps with rxReceivers := Table.eraseAll t.maps.rxReceivers t.pc.closedRx }, pc⟩
        queue []
  | filterReceived (port : String) (st st' : FilterState) (pc : TaskPc) (hlive : pc ≠ .ended)
      (hlookup : t.maps.filterStates.lookup port = some st)
      (hchan : st'.rx.chan = st.rx.chan) (hkeywords : st'.keywords = st.keywords)
      (hrx : pc.closedRx = t.pc.closedRx) (hfilters : pc.closedFilters = t.pc.closedFilters) :
      Moves m t queue
        ⟨{ t.maps with filterStates := t.maps.filterStates.insert port st' }, pc⟩ queue []
  | filterNoticed (port : String) (st : FilterState) (pc : TaskPc) (hlive : pc ≠ .ended)
      (hlookup : t.maps.filterStates.lookup port = some st)
      (hclosed : (m.channels st.rx.chan).isClosed = true)
      (hrx : pc.closedRx = t.pc.closedRx)
      (hfilters : pc.closedFilters = t.pc.closedFilters ++ [port]) :
      Moves m t queue ⟨t.maps, pc⟩ queue []
  | filterDropped (pc : TaskPc) (hlive : pc ≠ .ended) (hrx : pc.closedRx = t.pc.closedRx)
      (hfilters : pc.closedFilters = []) :
      Moves m t queue
        ⟨{ t.maps with
            filterStates := Table.eraseAll t.maps.filterStates t.pc.closedFilters }, pc⟩
        queue []

variable {m : SerialManager} {t : StreamTask} {queue : List RxSubCommand}

private theorem pollRxAt_moves {port : String} {todo closed : List String} {gotData : Bool}
    (hpc : t.pc = .pollRx [] (port :: todo) closed gotData) :
    Moves m t queue (t.pollRxAt m port todo closed gotData) queue [] := by
  have hrx : t.pc.closedRx = closed := by rw [hpc]; rfl
  have hfilters : t.pc.closedFilters = [] := by rw [hpc]; rfl
  unfold pollRxAt
  cases hlookup : t.maps.rxReceivers.lookup port with
  | none => exact .went _ [] (by simp) hrx.symm hfilters.symm
  | some rx =>
      simp only [SerialManager.tryRecv]
      obtain ⟨entry, -, -, -, h⟩ | ⟨-, h⟩ | ⟨-, -, h⟩ | ⟨-, hclosed, h⟩ :=
        (m.channels rx.chan).tryRecv_cases rx.next <;>
        simp only [h]
      · exact .rxReceived port rx _ _ (by simp) hlookup hrx.symm hfilters.symm
      · exact .rxReceived port rx _ _ (by simp) hlookup hrx.symm hfilters.symm
      · exact .went _ [] (by simp) hrx.symm hfilters.symm
      · exact .rxNoticed port rx _ (by simp) hlookup hclosed (by rw [hrx]; rfl) hfilters.symm

private theorem pollFilterAt_moves {port : String} {todo closed : List String} {gotData : Bool}
    (hpc : t.pc = .pollFilters [] (port :: todo) closed gotData) :
    Moves m t queue (t.pollFilterAt m port todo closed gotData) queue [] := by
  have hrx : t.pc.closedRx = [] := by rw [hpc]; rfl
  have hfilters : t.pc.closedFilters = closed := by rw [hpc]; rfl
  unfold pollFilterAt
  cases hlookup : t.maps.filterStates.lookup port with
  | none => exact .went _ [] (by simp) hrx.symm hfilters.symm
  | some st =>
      simp only [SerialManager.tryRecv]
      obtain ⟨entry, -, -, -, h⟩ | ⟨-, h⟩ | ⟨-, -, h⟩ | ⟨-, hclosed, h⟩ :=
        (m.channels st.rx.chan).tryRecv_cases st.rx.next <;>
        simp only [h, FilterState.scan_eq]
      · exact .filterReceived port st _ _ (by simp) hlookup rfl rfl hrx.symm hfilters.symm
      · exact .filterReceived port st _ _ (by simp) hlookup rfl rfl hrx.symm hfilters.symm
      · exact .went _ [] (by simp) hrx.symm hfilters.symm
      · exact .filterNoticed port st _ (by simp) hlookup hclosed hrx.symm
          (by rw [hfilters]; rfl)

/-- A receive of the filtering pass never ends the task, since a scan always
answers. -/
@[simp]
theorem pollFilterAt_isEnded (t : StreamTask) (m : SerialManager) (port : String)
    (todo closed : List String) (gotData : Bool) :
    (t.pollFilterAt m port todo closed gotData).isEnded = false := by
  unfold pollFilterAt
  cases hlookup : t.maps.filterStates.lookup port with
  | none => rfl
  | some st =>
      simp only [SerialManager.tryRecv]
      obtain ⟨entry, -, -, -, h⟩ | ⟨-, h⟩ | ⟨-, -, h⟩ | ⟨-, -, h⟩ :=
        (m.channels st.rx.chan).tryRecv_cases st.rx.next <;>
        simp only [h, FilterState.scan_eq] <;> rfl

/-- A task that has returned takes no step. -/
theorem running_of_step {order : List String} {writeOk : Bool}
    {r : StreamTask × List RxSubCommand × List Push}
    (h : t.step m queue order writeOk = some r) : t.isEnded = false := by
  unfold isEnded
  split
  · rename_i hpc
    simp [step, hpc] at h
  · rfl

/-- Every step of a streaming task is one of these moves. -/
theorem step_moves {order : List String} {writeOk : Bool}
    {r : StreamTask × List RxSubCommand × List Push}
    (h : t.step m queue order writeOk = some r) : Moves m t queue r.1 r.2.1 r.2.2 := by
  unfold step at h
  split at h
  · rename_i hpc
    split at h
    · obtain rfl := Option.some.inj h
      exact hpc ▸ .applied _ _ rfl (by rw [hpc]; rfl) (by rw [hpc]; rfl)
    · split_ifs at h <;> obtain rfl := Option.some.inj h
      · exact .went _ [] (by simp) (by rw [hpc]; rfl) (by rw [hpc]; rfl)
      · exact .went _ [] (by simp) (by rw [hpc]; rfl) (by rw [hpc]; rfl)
  · rename_i hpc
    split at h
    · obtain rfl := Option.some.inj h
      exact .applied _ _ rfl (by rw [hpc]; rfl) (by rw [hpc]; rfl)
    · exact absurd h (by simp)
  · rename_i hpc
    split_ifs at h <;> obtain rfl := Option.some.inj h
    · exact .went _ _ (by simp) (by rw [hpc]; rfl) (by rw [hpc]; rfl)
    · exact .died
  · rename_i hpc
    obtain rfl := Option.some.inj h
    exact pollRxAt_moves hpc
  · rename_i closed gotData hpc
    split_ifs at h
    obtain rfl := Option.some.inj h
    have hclosed : t.pc.closedRx = closed := by rw [hpc]; rfl
    rw [← hclosed]
    exact .rxDropped _ (by simp) rfl (by rw [hpc]; rfl)
  · rename_i hpc
    split_ifs at h <;> obtain rfl := Option.some.inj h
    · exact .went _ _ (by simp) (by rw [hpc]; rfl) (by rw [hpc]; rfl)
    · exact .died
  · rename_i hpc
    obtain rfl := Option.some.inj h
    simp only [pollFilterAt_isEnded, Bool.false_eq_true, if_false]
    exact pollFilterAt_moves hpc
  · rename_i closed gotData hpc
    obtain rfl := Option.some.inj h
    have hclosed : t.pc.closedFilters = closed := by rw [hpc]; rfl
    rw [← hclosed]
    cases gotData <;> exact .filterDropped _ (by simp) (by rw [hpc]; rfl) rfl
  · rename_i hpc
    obtain rfl := Option.some.inj h
    exact .went _ [] (by simp) (by rw [hpc]; rfl) (by rw [hpc]; rfl)
  · exact absurd h (by simp)

end StreamTask

/-! ## A step of the daemon, as one client sees it -/

theorem Dispatch.Begins.changes {m m' : SerialManager} {s s' : ClientSession} {req : Request}
    {pc : Pc} (h : Begins m s req m' s' pc) : SerialManager.Changes m m' := by
  cases h with
  | opened port resp hcmd hport hclosed hok => exact .opened m port _ hclosed
  | closed port op resp hcmd hport hopen hok => exact .closed m port op hopen
  | _ => exact .same m

/-- Where a command can go on from `pc`, and what that does to the client's
session and queue. -/
inductive Client.Advances (m : SerialManager) (cl : Client) (req : Request) :
    Pc → Client → Prop
  | ensured (port : String) (resp : Response) :
      Advances m cl req (.openEnsure port resp)
        { cl with
          session := cl.session.ensureSubscribed m port, dispatch := some (req, .reply resp) }
  | forgot (port : String) (resp : Response) :
      Advances m cl req (.onPortClosed port resp)
        { cl with session := cl.session.onPortClosed port, dispatch := some (req, .reply resp) }
  | missed (port : String) (pc : Pc) (msg : String)
      (hpc : pc = .subscribeTake port ∨ ∃ keywords success, pc = .filterTake port keywords success)
      (hnone : m.ports.lookup port = none) :
      Advances m cl req pc { cl with dispatch := some (req, .reply (.ofError msg)) }
  | subscribed (port success : String) (op : OpenPort) (hop : m.ports.lookup port = some op) :
      Advances m cl req (.subscribeTake port)
        { cl with
          session := { cl.session with
            rxSubscriptions := insert port cl.session.rxSubscriptions }
          dispatch := some (req,
            .send (.subscribe port ⟨op.tx, (m.channels op.tx).tail⟩) success) }
  | filtered (port : String) (keywords : List String) (success : String) (op : OpenPort)
      (hop : m.ports.lookup port = some op) :
      Advances m cl req (.filterTake port keywords success)
        { cl with
          session := { cl.session with
            filterSubscriptions := cl.session.filterSubscriptions.insert port keywords }
          dispatch := some (req,
            .send (.addFilter port keywords ⟨op.tx, (m.channels op.tx).tail⟩) success) }
  | readEnsured (port : String) (clear : Bool) :
      Advances m cl req (.readEnsure port clear)
        { cl with
          session := cl.session.ensureSubscribed m port
          dispatch := some (req, .drain port clear) }
  | drained (port : String) (clear : Bool) (s : ClientSession)
      (hround : cl.session.drainOne m port = (s, true))
      (hpc : cl.dispatch = some (req, .drain port clear)) :
      Advances m cl req (.drain port clear) { cl with session := s }
  | answered (port : String) (clear : Bool) (s : ClientSession)
      (hround : cl.session.drainOne m port = (s, false)) :
      Advances m cl req (.drain port clear)
        { cl with
          session := (s.answerRead port clear).1
          dispatch := some (req, .reply (s.answerRead port clear).2) }
  | failed (cmd : RxSubCommand) (success : String) (hended : cl.task.isEnded = true) :
      Advances m cl req (.send cmd success)
        { cl with dispatch := some (req, .reply deliveryFailed) }
  | sent (cmd : RxSubCommand) (success : String) (hlive : cl.task.isEnded = false) :
      Advances m cl req (.send cmd success)
        { cl with
          queue := cl.queue ++ [cmd]
          dispatch := some (req, .reply (.successMsg success)) }
  | ignored (cmd : RxSubCommand) (next : Pc) (hended : cl.task.isEnded = true) :
      Advances m cl req (.tell cmd next) { cl with dispatch := some (req, next) }
  | told (cmd : RxSubCommand) (next : Pc) (hlive : cl.task.isEnded = false) :
      Advances m cl req (.tell cmd next)
        { cl with queue := cl.queue ++ [cmd], dispatch := some (req, next) }
  | wrote (resp : Response) :
      Advances m cl req (.reply resp)
        { cl with dispatch := none, written := cl.written ++ [.response req resp] }

/-- Every step of a command is one of these. -/
theorem Client.advance_advances {cl cl' : Client} {m : SerialManager} {req : Request} {pc : Pc}
    (hpc : cl.dispatch = some (req, pc)) (h : cl.advance m req pc = some cl') :
    Advances m cl req pc cl' := by
  cases pc with
  | openEnsure port resp => exact Option.some.inj h ▸ .ensured port resp
  | onPortClosed port resp => exact Option.some.inj h ▸ .forgot port resp
  | subscribeTake port =>
      rcases hsub : m.subscribe port with - | rx
      · simp only [advance, hsub] at h
        have hnone := SerialManager.subscribe_eq_none.mp hsub
        exact Option.some.inj h ▸ .missed port _ _ (Or.inl rfl) hnone
      · simp only [advance, hsub] at h
        obtain ⟨op, hop, rfl⟩ := SerialManager.subscribe_eq_some.mp hsub
        exact Option.some.inj h ▸ .subscribed port _ op hop
  | filterTake port keywords success =>
      rcases hsub : m.subscribe port with - | rx
      · simp only [advance, hsub] at h
        have hnone := SerialManager.subscribe_eq_none.mp hsub
        exact Option.some.inj h ▸ .missed port _ _ (Or.inr ⟨keywords, success, rfl⟩) hnone
      · simp only [advance, hsub] at h
        obtain ⟨op, hop, rfl⟩ := SerialManager.subscribe_eq_some.mp hsub
        exact Option.some.inj h ▸ .filtered port keywords success op hop
  | readEnsure port clear => exact Option.some.inj h ▸ .readEnsured port clear
  | drain port clear =>
      rcases hround : cl.session.drainOne m port with ⟨s, stored⟩
      simp only [advance, hround] at h
      cases stored with
      | true => exact Option.some.inj h ▸ .drained port clear s hround hpc
      | false => exact Option.some.inj h ▸ .answered port clear s hround
  | send cmd success =>
      simp only [advance] at h
      split_ifs at h with hended hroom
      · exact Option.some.inj h ▸ .failed cmd success hended
      · exact Option.some.inj h ▸ .sent cmd success (Bool.eq_false_iff.mpr hended)
  | tell cmd next =>
      simp only [advance] at h
      split_ifs at h with hended hroom
      · exact Option.some.inj h ▸ .ignored cmd next hended
      · exact Option.some.inj h ▸ .told cmd next (Bool.eq_false_iff.mpr hended)
  | reply resp => exact Option.some.inj h ▸ .wrote resp

/-- A command does not touch the streaming task itself. -/
theorem Client.Advances.task_eq {cl cl' : Client} {m : SerialManager} {req : Request} {pc : Pc}
    (h : Advances m cl req pc cl') : cl'.task = cl.task := by
  cases h <;> rfl

/-- A step of a client, from its own view. -/
inductive Client.Steps (m : SerialManager) (cl : Client) :
    ClientEvent → SerialManager → Client → Prop
  | began (req : Request) (env : Env) (m' : SerialManager) (s' : ClientSession) (pc : Pc)
      (hidle : cl.dispatch = none) (hbegins : Dispatch.Begins m cl.session req m' s' pc) :
      Steps m cl (.request req env) m' { cl with session := s', dispatch := some (req, pc) }
  | advanced (req : Request) (pc : Pc) (cl' : Client) (hpc : cl.dispatch = some (req, pc))
      (hadvances : cl.Advances m req pc cl') : Steps m cl .dispatch m cl'
  | streamed (order : List String) (writeOk : Bool) (task : StreamTask)
      (queue : List RxSubCommand) (lines : List Push) (hrunning : cl.task.isEnded = false)
      (hmoves : cl.task.Moves m cl.queue task queue lines) :
      Steps m cl (.task order writeOk) m
        { cl with task := task, queue := queue, written := cl.written ++ lines.map .push }

theorem Client.step_steps {cl : Client} {m : SerialManager} {e : ClientEvent}
    {r : SerialManager × Client} (h : cl.step m e = some r) : Steps m cl e r.1 r.2 := by
  cases e with
  | request req env =>
      rcases hidle : cl.dispatch with - | x
      · simp only [step, hidle, Option.some.injEq] at h
        subst h
        exact .began req env _ _ _ hidle (Dispatch.start_begins m cl.session req env)
      · simp [step, hidle] at h
  | dispatch =>
      rcases hpc : cl.dispatch with - | ⟨req, pc⟩
      · simp [step, hpc] at h
      · simp only [step, hpc, Option.map_eq_some_iff] at h
        obtain ⟨cl', hadvance, rfl⟩ := h
        exact .advanced req pc cl' hpc (advance_advances hpc hadvance)
  | task order writeOk =>
      simp only [step, Option.map_eq_some_iff] at h
      obtain ⟨r, hr, rfl⟩ := h
      exact .streamed order writeOk _ _ _ (StreamTask.running_of_step hr)
        (StreamTask.step_moves hr)

theorem Client.Steps.changes {m m' : SerialManager} {cl cl' : Client} {e : ClientEvent}
    (h : Steps m cl e m' cl') : SerialManager.Changes m m' := by
  cases h with
  | began req env m' s' pc hidle hbegins => exact hbegins.changes
  | advanced req pc hpc hadvances => exact .same m
  | streamed order writeOk task queue lines hrunning hmoves => exact .same m

/-- A streaming task that runs after a step was running before. -/
theorem Client.Steps.running {m m' : SerialManager} {cl cl' : Client} {e : ClientEvent}
    (h : Steps m cl e m' cl') (hlive : cl'.task.isEnded = false) :
    cl.task.isEnded = false := by
  cases h with
  | began req env m' s' pc hidle hbegins => exact hlive
  | advanced req pc cl' hpc hadvances => exact hadvances.task_eq ▸ hlive
  | streamed order writeOk task queue lines hrunning hmoves => exact hrunning

/-- A step of the daemon, from the view of the client `c`: its own, or one that
leaves it as it is. If that closes a port, another client has done it. -/
inductive World.Seen (c : ClientId) (w : World) (e : Event) (w' : World) : Prop
  | joined (he : e = .connect c) (hclient : w.clients c = none)
      (hclient' : w'.clients c = some .new) (hserial : w'.serial = w.serial)
  | left (cl : Client) (he : e = .disconnect c) (hclient : w.clients c = some cl)
      (hidle : cl.dispatch = none) (hclient' : w'.clients c = some cl.disconnect)
      (hserial : w'.serial = w.serial)
  | own (cl cl' : Client) (ce : ClientEvent) (he : e = .client c ce)
      (hclient : w.clients c = some cl) (hconnected : cl.connected = true)
      (hsteps : cl.Steps w.serial ce w'.serial cl') (hclient' : w'.clients c = some cl')
  | elsewhere (hclient : w'.clients c = w.clients c)
      (hchanges : SerialManager.Changes w.serial w'.serial)
      (hevent : (∃ d ce, d ≠ c ∧ e = .client d ce) ∨
        w'.serial.ports = w.serial.ports ∧ ∀ ce, e ≠ .client c ce)

theorem World.step_seen {w w' : World} {e : Event} (h : w.step e = some w') (c : ClientId) :
    World.Seen c w e w' := by
  cases e with
  | connect d =>
      rcases hd : w.clients d with - | cl
      · simp only [step, hd, Option.some.injEq] at h
        subst h
        by_cases hc : c = d
        · subst hc
          exact .joined rfl hd (by simp [setClient]) rfl
        · exact .elsewhere (by simp [setClient, hc]) (.same _) (Or.inr ⟨rfl, by simp⟩)
      · simp [step, hd] at h
  | disconnect d =>
      rcases hd : w.clients d with - | cl
      · simp [step, hd] at h
      · simp only [step, hd, Option.ite_none_right_eq_some, Option.some.injEq] at h
        obtain ⟨⟨-, hidle⟩, rfl⟩ := h
        by_cases hc : c = d
        · subst hc
          exact .left cl rfl hd (by simpa using hidle) (by simp [setClient]) rfl
        · exact .elsewhere (by simp [setClient, hc]) (.same _) (Or.inr ⟨rfl, by simp⟩)
  | client d ce =>
      rcases hd : w.clients d with - | cl
      · simp [step, hd] at h
      · simp only [step, hd, Option.ite_none_right_eq_some, Option.map_eq_some_iff] at h
        obtain ⟨hconnected, r, hr, rfl⟩ := h
        have hsteps := Client.step_steps hr
        by_cases hc : c = d
        · subst hc
          exact .own cl r.2 ce rfl hd hconnected hsteps (by simp [setClient])
        · exact .elsewhere (by simp [setClient, hc]) hsteps.changes
            (Or.inl ⟨d, ce, Ne.symm hc, rfl⟩)
  | deliver k entry =>
      simp only [step, Option.map_eq_some_iff] at h
      obtain ⟨m, hm, rfl⟩ := h
      obtain rfl := SerialManager.deliver_eq_some hm
      exact .elsewhere rfl (.delivered _ k entry) (Or.inr ⟨rfl, by simp⟩)
  | endReadTask k =>
      simp only [step, Option.map_eq_some_iff] at h
      obtain ⟨m, hm, rfl⟩ := h
      refine .elsewhere rfl (SerialManager.endReadTask_changes hm) (Or.inr ⟨?_, by simp⟩)
      unfold SerialManager.endReadTask at hm
      split_ifs at hm
      exact (Option.some.inj hm) ▸ rfl

theorem World.Seen.changes {c : ClientId} {w w' : World} {e : Event}
    (h : World.Seen c w e w') : SerialManager.Changes w.serial w'.serial := by
  cases h with
  | joined he hclient hclient' hserial => exact hserial ▸ .same _
  | left cl he hclient hidle hclient' hserial => exact hserial ▸ .same _
  | own cl cl' ce he hclient hconnected hsteps hclient' => exact hsteps.changes
  | elsewhere hclient hchanges hevent => exact hchanges

/-- The serial manager of every reachable world is sound. -/
theorem sound_of_run {es : List Event} {w : World} (hrun : daemon.run es = some w) :
    w.serial.Sound :=
  daemon.run_invariant (P := fun w => w.serial.Sound) SerialManager.sound_new
    (fun _ _ _ hw hstep => (World.step_seen hstep 0).changes.sound hw) hrun

/-- The rule for one client. What holds of a new client and of one that has
left, and is kept by the client's own steps and by all others, holds of the client
in every reachable world. -/
theorem client_history {c : ClientId} {P : List Event → World → Client → Prop}
    (new : ∀ es w, P es w .new)
    (left : ∀ es w w' cl, cl.dispatch = none → P es w cl →
      P (es ++ [.disconnect c]) w' cl.disconnect)
    (own : ∀ es w w' cl cl' ce, daemon.run es = some w →
      daemon.step w (.client c ce) = some w' → w.clients c = some cl →
      w'.clients c = some cl' → cl.connected = true → cl.Steps w.serial ce w'.serial cl' →
      P es w cl → P (es ++ [.client c ce]) w' cl')
    (elsewhere : ∀ es w w' e cl, daemon.run es = some w → daemon.step w e = some w' →
      w'.clients c = w.clients c → SerialManager.Changes w.serial w'.serial →
      ((∃ d ce, d ≠ c ∧ e = .client d ce) ∨
        w'.serial.ports = w.serial.ports ∧ ∀ ce, e ≠ .client c ce) →
      P es w cl → P (es ++ [e]) w' cl)
    {es : List Event} {w : World} (hrun : daemon.run es = some w) {cl : Client}
    (hclient : w.clients c = some cl) : P es w cl := by
  refine daemon.run_history (P := fun es w => ∀ cl, w.clients c = some cl → P es w cl)
    ?_ ?_ hrun cl hclient
  · intro cl hcl
    simp [daemon] at hcl
  · intro es w e w' hes ih hstep cl' hcl'
    cases World.step_seen hstep c with
    | joined he hclient hclient' hserial =>
        obtain rfl := Option.some.inj (hclient'.symm.trans hcl')
        exact new _ w'
    | left cl he hclient hidle hclient' hserial =>
        obtain rfl := Option.some.inj (hclient'.symm.trans hcl')
        exact he ▸ left es w w' cl hidle (ih cl hclient)
    | own cl cl'' ce he hclient hconnected hsteps hclient' =>
        obtain rfl := Option.some.inj (hclient'.symm.trans hcl')
        exact he ▸ own es w w' cl cl'' ce hes (he ▸ hstep) hclient hclient' hconnected hsteps
          (ih cl hclient)
    | elsewhere hsame hchanges hevent =>
        exact elsewhere es w w' e cl' hes hstep hsame hchanges hevent (ih cl' (hsame ▸ hcl'))

/-! ## Which command is under way -/

/-- The rest of a command that has closed `port`, until the session has
forgotten it. -/
def Pc.Closes (port : String) : Pc → Prop
  | .onPortClosed q resp => q = port ∧ resp.ok = true
  | .tell cmd next =>
      (cmd = .unsubscribe port ∨ cmd = .removeFilter port) ∧ next.Closes port
  | _ => False

/-- What the rest of a command says about the request it belongs to. -/
inductive Pc.Fits (req : Request) : Pc → Prop
  | openEnsure {port : String} {resp : Response} (hcmd : req.cmd = "open_port")
      (hport : req.args.strArg "port" = some port) (hok : resp.ok = true) :
      Fits req (.openEnsure port resp)
  | closing {port : String} {pc : Pc} (hcmd : req.cmd = "close_port")
      (hport : req.args.strArg "port" = some port) (hcloses : pc.Closes port) : Fits req pc
  | subscribeTake {port : String} (hcmd : req.cmd = "subscribe_rx")
      (hport : req.args.strArg "port" = some port) : Fits req (.subscribeTake port)
  | subscribeSend {port success : String} {rx : Receiver} (hcmd : req.cmd = "subscribe_rx")
      (hport : req.args.strArg "port" = some port) :
      Fits req (.send (.subscribe port rx) success)
  | filterTake {port : String} {keywords : List String} {success : String}
      (hcmd : req.cmd = "filter_rx" ∨ req.cmd = "add_filter_rx")
      (hport : req.args.strArg "port" = some port)
      (hkeywords : keywordsArg req.args = some keywords) :
      Fits req (.filterTake port keywords success)
  | filterSend {port success : String} {keywords : List String} {rx : Receiver}
      (hcmd : req.cmd = "filter_rx" ∨ req.cmd = "add_filter_rx")
      (hport : req.args.strArg "port" = some port)
      (hkeywords : keywordsArg req.args = some keywords) :
      Fits req (.send (.addFilter port keywords rx) success)
  | extendSend {port success : String} {merged : List String} (hcmd : req.cmd = "add_filter_rx")
      (hport : req.args.strArg "port" = some port) :
      Fits req (.send (.setFilterKeywords port merged) success)
  | dropping {port : String} {cmd : RxSubCommand} {resp : Response}
      (hcmd : req.cmd = "unsubscribe_rx" ∨ req.cmd = "unfilter_rx")
      (hdrop : cmd = .unsubscribe port ∨ cmd = .removeFilter port) :
      Fits req (.tell cmd (.reply resp))
  | readEnsure {port : String} {clear : Bool} (hcmd : req.cmd = "read_port")
      (hport : req.args.strArg "port" = some port)
      (hclear : clear = Dispatch.clearArg req.args) : Fits req (.readEnsure port clear)
  | drain {port : String} {clear : Bool} (hcmd : req.cmd = "read_port")
      (hport : req.args.strArg "port" = some port)
      (hclear : clear = Dispatch.clearArg req.args) : Fits req (.drain port clear)
  | reply {resp : Response} : Fits req (.reply resp)

theorem Dispatch.closeSends_closes (s : ClientSession) {port : String} {resp : Response}
    (hok : resp.ok = true) : (closeSends s port resp).Closes port := by
  unfold closeSends
  split_ifs
  · exact ⟨Or.inl rfl, Or.inr rfl, rfl, hok⟩
  · exact ⟨Or.inr rfl, rfl, hok⟩
  · exact ⟨Or.inl rfl, rfl, hok⟩
  · exact ⟨rfl, hok⟩

theorem Dispatch.Begins.fits {m m' : SerialManager} {s s' : ClientSession} {req : Request}
    {pc : Pc} (h : Begins m s req m' s' pc) : pc.Fits req := by
  cases h with
  | answered resp hresp => exact .reply
  | opened port resp hcmd hport hclosed hok => exact .openEnsure hcmd hport hok
  | closed port op resp hcmd hport hopen hok =>
      exact .closing hcmd hport (closeSends_closes s hok)
  | subscribing port hcmd hport hnew => exact .subscribeTake hcmd hport
  | unsubscribed port success hcmd hport hmem => exact .dropping (Or.inl hcmd) (Or.inl rfl)
  | filtering port keywords success hcmd hport hkeywords =>
      exact .filterTake hcmd hport hkeywords
  | extended port existing keywords success hcmd hport hkeywords hexisting =>
      exact .extendSend hcmd hport
  | unfiltered port success existing hcmd hport hexisting =>
      exact .dropping (Or.inr hcmd) (Or.inr rfl)
  | reading port hcmd hport => exact .readEnsure hcmd hport rfl

/-- A command that goes on still fits its request. -/
theorem Client.Advances.fits {cl cl' : Client} {m : SerialManager} {req : Request} {pc : Pc}
    (h : Advances m cl req pc cl') (hfits : pc.Fits req) (req' : Request) (pc' : Pc)
    (hpc' : cl'.dispatch = some (req', pc')) : req' = req ∧ pc'.Fits req := by
  cases h with
  | ensured port resp =>
      obtain ⟨rfl, rfl⟩ := Prod.mk.inj (Option.some.inj hpc')
      exact ⟨rfl, .reply⟩
  | forgot port resp =>
      obtain ⟨rfl, rfl⟩ := Prod.mk.inj (Option.some.inj hpc')
      exact ⟨rfl, .reply⟩
  | missed port msg hpc hnone =>
      obtain ⟨rfl, rfl⟩ := Prod.mk.inj (Option.some.inj hpc')
      exact ⟨rfl, .reply⟩
  | subscribed port success op hop =>
      obtain ⟨rfl, rfl⟩ := Prod.mk.inj (Option.some.inj hpc')
      cases hfits with
      | closing hcmd hport hcloses => exact hcloses.elim
      | subscribeTake hcmd hport => exact ⟨rfl, .subscribeSend hcmd hport⟩
  | filtered port keywords success op hop =>
      obtain ⟨rfl, rfl⟩ := Prod.mk.inj (Option.some.inj hpc')
      cases hfits with
      | closing hcmd hport hcloses => exact hcloses.elim
      | filterTake hcmd hport hkeywords => exact ⟨rfl, .filterSend hcmd hport hkeywords⟩
  | readEnsured port clear =>
      obtain ⟨rfl, rfl⟩ := Prod.mk.inj (Option.some.inj hpc')
      cases hfits with
      | closing hcmd hport hcloses => exact hcloses.elim
      | readEnsure hcmd hport hclear => exact ⟨rfl, .drain hcmd hport hclear⟩
  | drained port clear s hround hpc =>
      obtain ⟨rfl, rfl⟩ := Prod.mk.inj (Option.some.inj (hpc.symm.trans hpc'))
      exact ⟨rfl, hfits⟩
  | answered port clear s hround =>
      obtain ⟨rfl, rfl⟩ := Prod.mk.inj (Option.some.inj hpc')
      exact ⟨rfl, .reply⟩
  | failed cmd success hended =>
      obtain ⟨rfl, rfl⟩ := Prod.mk.inj (Option.some.inj hpc')
      exact ⟨rfl, .reply⟩
  | sent cmd success hlive =>
      obtain ⟨rfl, rfl⟩ := Prod.mk.inj (Option.some.inj hpc')
      exact ⟨rfl, .reply⟩
  | ignored cmd next hended =>
      obtain ⟨rfl, rfl⟩ := Prod.mk.inj (Option.some.inj hpc')
      cases hfits with
      | closing hcmd hport hcloses => exact ⟨rfl, .closing hcmd hport hcloses.2⟩
      | dropping hcmd hdrop => exact ⟨rfl, .reply⟩
  | told cmd next hlive =>
      obtain ⟨rfl, rfl⟩ := Prod.mk.inj (Option.some.inj hpc')
      cases hfits with
      | closing hcmd hport hcloses => exact ⟨rfl, .closing hcmd hport hcloses.2⟩
      | dropping hcmd hdrop => exact ⟨rfl, .reply⟩
  | wrote resp => simp at hpc'

theorem Client.Steps.fits {cl cl' : Client} {m m' : SerialManager} {ce : ClientEvent}
    (h : Steps m cl ce m' cl')
    (hfits : ∀ req pc, cl.dispatch = some (req, pc) → pc.Fits req) (req' : Request) (pc' : Pc)
    (hpc' : cl'.dispatch = some (req', pc')) : pc'.Fits req' := by
  cases h with
  | began req env m' s' pc hidle hbegins =>
      obtain ⟨rfl, rfl⟩ := Prod.mk.inj (Option.some.inj hpc')
      exact hbegins.fits
  | advanced req pc cl' hpc hadvances =>
      obtain ⟨rfl, hfits'⟩ := hadvances.fits (hfits req pc hpc) req' pc' hpc'
      exact hfits'
  | streamed order writeOk task queue lines hrunning hmoves => exact hfits req' pc' hpc'

/-- In every reachable world, what a client is doing fits its request. -/
theorem fits_of_run {es : List Event} {w : World} (hrun : daemon.run es = some w)
    {c : ClientId} {cl : Client} {req : Request} {pc : Pc} (hclient : w.clients c = some cl)
    (hpc : cl.dispatch = some (req, pc)) : pc.Fits req := by
  refine client_history (P := fun _ _ cl => ∀ req pc, cl.dispatch = some (req, pc) →
    pc.Fits req) ?_ ?_ ?_ ?_ hrun hclient req pc hpc
  · intro es w req pc hpc
    simp [Client.new] at hpc
  · intro es w w' cl _ _ req pc hpc
    simp [Client.disconnect] at hpc
  · intro es w w' cl cl' ce _ _ _ _ _ hsteps ih
    exact hsteps.fits ih
  · intro es w w' e cl _ _ _ _ _ ih
    exact ih

/-! ## Closing a port behind a client's back -/

/-- A step of another client than `c` that closes the port `p`. -/
def ClosedByOther (c : ClientId) (p : String) (w : World) (e : Event) (w' : World) : Prop :=
  (∃ d ce, d ≠ c ∧ e = .client d ce) ∧
    (w.serial.ports.lookup p).isSome ∧ w'.serial.ports.lookup p = none

section ClosedByOther

variable {c : ClientId} {p : String} {reset : World → Event → World → Prop} {es : List Event}
  {w w' : World} {e : Event}

/-- A client's own step does not close a port behind its back. -/
theorem closedByOther_own (hes : daemon.run es = some w) (hstep : daemon.step w e = some w')
    {ce : ClientEvent} (he : e = .client c ce) :
    daemon.OccurredSince (ClosedByOther c p) reset (es ++ [e]) ↔
      daemon.OccurredSince (ClosedByOther c p) reset es ∧ ¬ reset w e w' := by
  have hbad : ¬ ClosedByOther c p w e w' := by
    rintro ⟨⟨d, de, hd, hde⟩, -⟩
    exact hd (Event.client.inj (hde.symm.trans he)).1
  rw [daemon.occurredSince_snoc hes hstep, or_iff_right hbad]

/-- A step elsewhere that closes a port does so behind the client's back. -/
theorem closedByOther_elsewhere (hes : daemon.run es = some w)
    (hstep : daemon.step w e = some w') (hreset : ¬ reset w e w')
    (hevent : (∃ d ce, d ≠ c ∧ e = .client d ce) ∨
      w'.serial.ports = w.serial.ports ∧ ∀ ce, e ≠ .client c ce) :
    daemon.OccurredSince (ClosedByOther c p) reset (es ++ [e]) ↔
      daemon.OccurredSince (ClosedByOther c p) reset es ∨
        (w.serial.ports.lookup p).isSome ∧ w'.serial.ports.lookup p = none := by
  rw [daemon.occurredSince_snoc hes hstep, and_iff_left hreset, or_comm]
  apply or_congr_right
  obtain hother | ⟨hports, -⟩ := hevent
  · exact and_iff_right hother
  · have hkept : ¬ ((w.serial.ports.lookup p).isSome ∧ w'.serial.ports.lookup p = none) := by
      rintro ⟨hsome, hnone⟩
      rw [hports] at hnone
      simp [hnone] at hsome
    exact iff_of_false (fun h => hkept h.2) hkept

end ClosedByOther

end Commmon

/-
# Nobody waits forever for a lock

An agent that has the lock that it needs, and waits for nothing else, has a step.
So whoever is in the middle of something can go on, or waits for somebody who is
in the middle of something too, and since waits go down in rank, every chain of
waits ends at an agent that can go on.

A write to a port or to a socket is a step here, so it is taken for granted that
it ends. Nothing is said of the order in which the agents take their steps.
-/

import Commmon.LockOrder

set_option autoImplicit false

namespace Commmon

/-- A command on the manager takes its next step, once it has its lock. -/
theorem LogWorld.exists_advance {w : LogWorld} {pc : CallPc} (i : CallId) (env : Logs.LogEnv)
    (hserving : pc.Serving) (hwait : ∀ port log closing, pc ≠ .waiting port log closing)
    (hdone : ∀ resp, pc ≠ .done resp) (hlocked : pc.need = some .logs → w.locked = none) :
    ∃ w', w.advance i env pc = some w' := by
  have hon : ∀ (args : Value) (next : String → LogWorld),
      ((args.strArg "port").map (fun _ => Lock.logs) = some .logs → w.locked = none) →
      ∃ w', w.startOn i args (fun port => w.whenUnlocked (next port)) = some w' := by
    intro args next hfree
    unfold LogWorld.startOn
    cases hport : args.strArg "port" with
    | none => exact ⟨_, rfl⟩
    | some port => exact ⟨next port, if_pos (hfree (by simp [hport]))⟩
  cases pc with
  | start cmd =>
      cases cmd with
      | openPort args => exact ⟨_, rfl⟩
      | closePort args => exact hon args _ hlocked
      | startLog args =>
          simp only [advance, start, startOn]
          split
          · exact ⟨_, rfl⟩
          · split
            · exact ⟨_, rfl⟩
            · exact ⟨_, rfl⟩
      | updateLog args => exact hon args _ hlocked
      | stopLog args => exact hon args _ hlocked
      | portStatus => exact hserving.elim
      | closeAll => exact hserving.elim
  | register port rx args => exact ⟨_, if_pos (hlocked rfl)⟩
  | waiting port log closing => exact absurd rfl (hwait port log closing)
  | removing args => exact ⟨_, rfl⟩
  | drainingPorts => exact hserving.elim
  | done resp => exact absurd rfl (hdone resp)

/-- A stream always has a step. -/
theorem SseStream.exists_step (x : SseStream) (m : SerialManager) :
    ∃ order x', x.step m order = some x' := by
  unfold step
  cases x.pc with
  | naming => exact ⟨m.ports.keys, _, if_pos (List.Perm.refl _)⟩
  | subscribing names todo =>
      cases todo with
      | nil =>
          refine ⟨(x.receivers.retain fun name => decide (name ∈ names)).keys, ?_⟩
          dsimp only
          split_ifs with hnone hperm
          · exact ⟨_, rfl⟩
          · exact ⟨_, rfl⟩
          · exact absurd (List.Perm.refl _) hperm
      | cons name todo => exact ⟨[], _, rfl⟩
  | polling todo gotData =>
      cases todo with
      | nil => exact ⟨[], _, rfl⟩
      | cons name todo =>
          refine ⟨[], ?_⟩
          dsimp only
          split
          · exact ⟨_, rfl⟩
          · split
            · exact ⟨_, rfl⟩
            · exact ⟨_, rfl⟩
  | sleeping => exact ⟨[], _, rfl⟩

/-- A streaming task has a step unless it waits for a command. -/
theorem StreamTask.exists_step {t : StreamTask} {queue : List RxSubCommand} (m : SerialManager)
    (hrunning : t.isEnded = false) (hwaiting : queue = [] → t.pc ≠ .waiting) :
    ∃ order r, t.step m queue order true = some r := by
  unfold step
  cases hpc : t.pc with
  | commands =>
      cases queue with
      | cons cmd rest => exact ⟨[], _, rfl⟩
      | nil =>
          refine ⟨t.maps.rxReceivers.keys, ?_⟩
          dsimp only
          split_ifs with hnone hperm
          · exact ⟨_, rfl⟩
          · exact ⟨_, rfl⟩
          · exact absurd (List.Perm.refl _) hperm
  | waiting =>
      cases queue with
      | cons cmd rest => exact ⟨[], _, rfl⟩
      | nil => exact absurd hpc (hwaiting rfl)
  | pollRx lines todo closed gotData =>
      cases lines with
      | cons line lines => exact ⟨[], _, rfl⟩
      | nil =>
          cases todo with
          | cons port todo => exact ⟨[], _, rfl⟩
          | nil => exact ⟨t.maps.filterStates.keys, _, if_pos (List.Perm.refl _)⟩
  | pollFilters lines todo closed gotData =>
      cases lines with
      | cons line lines => exact ⟨[], _, rfl⟩
      | nil =>
          cases todo with
          | cons port todo => exact ⟨[], _, rfl⟩
          | nil => exact ⟨[], _, rfl⟩
  | sleeping => exact ⟨[], _, rfl⟩
  | ended => simp [isEnded, hpc] at hrunning

namespace Conn

variable {x : Conn}

/-- A command takes its next step, unless that is a send on a full queue. -/
theorem exists_advance {req : Request} {pc : Pc} (m : SerialManager) (hstage : x.stage = .ready)
    (hloop : x.handler.loop = .serving) (hpc : x.handler.client.dispatch = some (req, pc))
    (hroom : x.queueFull = false) : ∃ cl, x.handler.client.advance m req pc = some cl := by
  cases pc with
  | subscribeTake port =>
      simp only [Client.advance]
      split
      · exact ⟨_, rfl⟩
      · exact ⟨_, rfl⟩
  | filterTake port keywords success =>
      simp only [Client.advance]
      split
      · exact ⟨_, rfl⟩
      · exact ⟨_, rfl⟩
  | drain port clear =>
      simp only [Client.advance]
      split
      · exact ⟨_, rfl⟩
      · exact ⟨_, rfl⟩
  | send cmd success =>
      simp only [queueFull, hstage, hloop, hpc] at hroom
      simp only [Client.advance]
      split_ifs <;> simp_all
  | tell cmd next =>
      simp only [queueFull, hstage, hloop, hpc] at hroom
      simp only [Client.advance]
      split_ifs <;> simp_all
  | openEnsure | onPortClosed | readEnsure | reply => exact ⟨_, rfl⟩

/-- The request loop goes on with a command, or writes a refusal, unless a queue is
full. -/
theorem exists_proceed (m : SerialManager) (notices : Broadcast.Channel Notification)
    (hstage : x.stage = .ready) (hbusy : (∃ resp, x.handler.loop = .refusing resp) ∨
      x.handler.loop = .serving ∧ x.handler.client.dispatch ≠ none)
    (hroom : x.queueFull = false) : ∃ x', x.handle m notices (.proceed true) = some x' := by
  have hproceed : ∃ r, x.handler.proceed m true = some r := by
    obtain ⟨resp, hloop⟩ | ⟨hloop, hdispatch⟩ := hbusy
    · simp [Handler.proceed, hloop]
    · cases hpc : x.handler.client.dispatch with
      | none => exact absurd hpc hdispatch
      | some next =>
          obtain ⟨cl, hcl⟩ := exists_advance m hstage hloop hpc hroom
          simp [Handler.proceed, hloop, hpc, Client.step, hcl]
  obtain ⟨r, hr⟩ := hproceed
  simp [handle, hstage, Handler.step, hr]

/-- Before it sends a command needs no lock. -/
theorem need_of_queueFull {w : DaemonState} {c : ClientId} (hfull : x.queueFull = true) :
    x.need w c = none := by
  unfold queueFull at hfull
  split at hfull
  · rename_i hstage hloop hdispatch
    simp [need, hstage, loopNeed, hloop, hdispatch, Pc.need]
  · rename_i hstage hloop hdispatch
    simp [need, hstage, loopNeed, hloop, hdispatch, Pc.need]
  · simp at hfull

/-- The queue is that of a task that runs. -/
theorem room_of_queueFull (hfull : x.queueFull = true) :
    x.handler.client.task.isEnded = false ∧ queueCapacity ≤ x.handler.client.queue.length := by
  unfold queueFull at hfull
  split at hfull
  · simpa using hfull
  · simpa using hfull
  · simp at hfull

/-- The streaming task of a connection has a step unless it waits for a command. -/
theorem exists_stream (m : SerialManager) (notices : Broadcast.Channel Notification)
    (hrunning : x.handler.client.task.isEnded = false)
    (hwaiting : x.handler.client.queue = [] → x.handler.client.task.pc ≠ .waiting) :
    ∃ order x', x.handle m notices (.stream order true) = some x' := by
  obtain ⟨order, r, hr⟩ := StreamTask.exists_step m hrunning hwaiting
  have hstream : ∃ y, x.handler.stream m order true = some y := by
    unfold Handler.stream
    split
    · exact ⟨_, rfl⟩
    · simp [Client.step, hr]
  obtain ⟨y, hy⟩ := hstream
  exact ⟨order, { x with handler := y }, by simp [handle, Handler.step, hy]⟩

end Conn

namespace Process

variable {w : Process} {a : Agent} {c : ClientId} {x x' : Conn} {e : ProcessEvent}

/-- The agent has a step. -/
def Enabled (w : Process) (a : Agent) : Prop := ∃ e w', e.actor = some a ∧ w.step e = some w'

theorem step_of_live (hlive : w.host.cleanup ≠ .exited) (e : ProcessEvent) :
    w.step e = w.live e := by
  unfold step
  split
  · rename_i hexited
    exact absurd hexited hlive
  · rfl

/-- A step of a connection. -/
theorem enabled_of_conn {f : Conn → Option Conn} (e : ProcessEvent)
    (hlive : w.host.cleanup ≠ .exited) (hx : w.conns c = some x) (hf : (f x).isSome = true)
    (he : w.live e = w.stepConn c f) (hactor : e.actor = some a) : w.Enabled a := by
  obtain ⟨x', hx'⟩ := Option.isSome_iff_exists.mp hf
  exact ⟨e, w.setConn c x', hactor, by simp [step_of_live hlive, he, stepConn, hx, hx']⟩

/-- A step of the shared state that is no connection's. -/
theorem enabled_of_host (e : HostEvent) (hlive : w.host.cleanup ≠ .exited)
    (hh : (w.host.live e).isSome = true) (hfree : w.host.isFree e = true)
    (hactor : e.actor = some a) : w.Enabled a := by
  obtain ⟨h, hh⟩ := Option.isSome_iff_exists.mp hh
  refine ⟨.host e, { w with host := h }, hactor, ?_⟩
  rw [step_of_live hlive]
  simp [live, hfree, hostStep, DaemonState.step_of_live hlive, hh]

/-- A connection makes the call of its request. -/
theorem enabled_of_call {handler : Handler} {req : Request} (i : CallId) (e : HostEvent)
    (hlive : w.host.cleanup ≠ .exited) (hx : w.conns c = some ⟨handler, .received req⟩)
    (hcall : callEvent req i = some e) (hh : (w.host.live e).isSome = true) :
    w.Enabled (.handler c) := by
  obtain ⟨h, hh⟩ := Option.isSome_iff_exists.mp hh
  refine ⟨.call c i, setConn { w with host := h } c ⟨handler, .calling req i⟩, rfl, ?_⟩
  rw [step_of_live hlive]
  simp [live, hx, hcall, hostStep, DaemonState.step_of_live hlive, hh]

/-- A step of a connection's own call. -/
theorem enabled_of_own {k : Service × CallId} (e : HostEvent) (hlive : w.host.cleanup ≠ .exited)
    (hx : w.conns c = some x) (hcall : x.stage.call = some k) (hcaller : e.caller = some k)
    (hh : (w.host.live e).isSome = true) : w.Enabled (.handler c) := by
  obtain ⟨h, hh⟩ := Option.isSome_iff_exists.mp hh
  refine ⟨.own c e, { w with host := h }, rfl, ?_⟩
  rw [step_of_live hlive]
  simp [live, hx, hcall, hcaller, hostStep, DaemonState.step_of_live hlive, hh]

end Process

namespace DaemonState

variable {w : DaemonState} {i : CallId} {cmd : MonitorCommand}

/-- A command of the monitor takes its first step under the mutex. -/
theorem exists_start (hcmd : cmd ≠ .portStatus) : ∃ w', w.start i cmd = some w' := by
  cases cmd with
  | portStatus => exact absurd rfl hcmd
  | openMonitor args =>
      simp only [start]
      split <;> exact ⟨_, rfl⟩
  | closeMonitor =>
      simp only [start]
      split <;> exact ⟨_, rfl⟩

/-- The clean-up can make its call. -/
theorem Attended.exists_closeAll (h : w.Attended) : ∃ i w', w.closeAll i = some w' := by
  obtain ⟨n, hcall⟩ := h.bounded.exists_call
  exact ⟨n, _, by rw [DaemonState.closeAll, hcall, Option.map_some]⟩

end DaemonState

/-- What the serial manager is asked is no call of the clean-up or of a `port_status`. -/
theorem isDirect_of_route {req : Request} {cmd : LogCommand} (i : CallId)
    (h : route req = .manager cmd) : DaemonState.isDirect (.call i cmd) = true := by
  unfold route at h
  split at h <;> simp at h <;> subst h <;> rfl

namespace LockWorld

variable {w : LockWorld} {a : Agent} {c : ClientId} {x : Conn}

/-- Who has taken the lock of a service to use it next finds it given back. -/
theorem Owned.not_occupies {k : Service × CallId} (hw : w.Owned)
    (hneed : w.process.need a = some k.1.lock) (howner : w.owner k.1.lock = some a) :
    ¬ w.process.host.Occupies k := by
  intro hoccupies
  obtain ⟨c, x, hx, hcall⟩ := hw.tied.owned k hoccupies
  have hkeeps : w.process.keeps (.handler c) = some k.1.lock :=
    Process.keeps_handler.mpr ⟨x, hx, (Conn.keeps_of_call hcall).mpr ⟨hoccupies, rfl⟩⟩
  obtain rfl := Option.some.inj ((hw.kept _ _ hkeeps).symm.trans howner)
  obtain ⟨y, hy, hneed⟩ := Process.need_handler.mp hneed
  obtain rfl := Option.some.inj (hx.symm.trans hy)
  simp [Conn.need_of_call hcall, DaemonState.callNeed_of_occupies hoccupies] at hneed

private theorem Owned.locked_eq_none (hw : w.Owned) (hequipped : w.Equipped a)
    (hneed : w.process.need a = some .logs) : w.process.host.serial.locked = none := by
  cases hlocked : w.process.host.serial.locked with
  | none => rfl
  | some i =>
      have hoccupies : w.process.host.Occupies (.manager, i) :=
        hw.tied.orderly.attended.held i hlocked
      exact absurd hoccupies (hw.not_occupies hneed (hequipped _ hneed))

private theorem Owned.holder_eq_none (hw : w.Owned) (hequipped : w.Equipped a)
    (hneed : w.process.need a = some .monitor) : w.process.host.holder = none := by
  cases hholder : w.process.host.holder with
  | none => rfl
  | some p =>
      have hholds := hw.tied.orderly.manned p hholder
      cases p with
      | call i =>
          have hoccupies : w.process.host.Occupies (.monitor, i) := hholds
          exact absurd hoccupies (hw.not_occupies hneed (hequipped _ hneed))
      | cleanup =>
          have hstopping := DaemonState.holds_cleanup.mp hholds
          have howner := hw.kept _ _ (Process.keeps_cleanup.mpr ⟨hstopping, rfl⟩)
          obtain rfl := Option.some.inj (howner.symm.trans (hequipped _ hneed))
          simp [Process.need, hstopping] at hneed

/-- A connection that waits for its call, when the call has its lock. -/
theorem Owned.call_enabled {k : Service × CallId} (hw : w.Owned)
    (hlive : w.process.host.cleanup ≠ .exited) (hx : w.process.conns c = some x)
    (hcall : x.stage.call = some k) (hequipped : w.Equipped (.handler c))
    (hstops : x.stops w.process.host = false) : w.process.Enabled (.handler c) := by
  have hneed : ∀ l, w.process.host.callNeed k = some l →
      w.process.need (.handler c) = some l := by
    intro l hl
    exact Process.need_handler.mpr ⟨x, hx, (Conn.need_of_call hcall).trans hl⟩
  have hattends := hw.tied.attends c x k hx hcall
  obtain ⟨_ | _, i⟩ := k
  · obtain ⟨pc, hpc, hserving⟩ := hattends
    obtain ⟨req, cmd, hstage, hroute⟩ := Stage.call_manager hcall
    have hadvance : (∀ port log closing, pc ≠ .waiting port log closing) →
        (∀ resp, pc ≠ .done resp) → w.process.Enabled (.handler c) := by
      intro hwait hdone
      obtain ⟨s, hs⟩ := LogWorld.exists_advance (w := w.process.host.serial) i
        w.process.host.serial.statusEnv hserving hwait hdone fun hlogs =>
          hw.locked_eq_none hequipped (hneed _ (by simpa [DaemonState.callNeed, hpc] using hlogs))
      exact Process.enabled_of_own (.serial (.advance i w.process.host.serial.statusEnv)) hlive hx
        hcall rfl (by simp [DaemonState.live, DaemonState.isDirect, LogWorld.step, hpc, hs])
    cases pc with
    | waiting port log closing =>
        exact Process.enabled_of_own (.serial (.timeOut i)) hlive hx hcall rfl
          (by simp [DaemonState.live, DaemonState.isDirect, LogWorld.step, hpc])
    | done resp =>
        cases resp with
        | none => exact hserving.elim
        | some resp =>
            exact Process.enabled_of_conn (.resume c) hlive hx
              (by simp [Conn.resume, hstage, hroute, hpc]) rfl rfl
    | start | register | removing | drainingPorts => exact hadvance (by simp) (by simp)
  · obtain ⟨pc, hpc, hcmd⟩ := hattends
    obtain ⟨req, cmd, hstage, hroute⟩ := Stage.call_monitor hcall
    have hown : (w.process.host.advance i (.ok ()) pc).isSome = true →
        w.process.Enabled (.handler c) := by
      intro hadvance
      exact Process.enabled_of_own (.advance i (.ok ())) hlive hx hcall rfl
        (by simpa [DaemonState.live, hpc] using hadvance)
    cases pc with
    | start cmd =>
        have hfree := hw.holder_eq_none hequipped
          (hneed _ (by simp [DaemonState.callNeed, hpc, MonitorPc.need]))
        obtain ⟨h, hh⟩ := DaemonState.exists_start (w := w.process.host) (i := i)
          (by simpa using hcmd)
        exact hown (by simp [DaemonState.advance, hfree, hh])
    | binding port => exact hown rfl
    | stopping =>
        have hreturned : w.process.host.server.returned = true := by
          simpa [Conn.stops, hstage, hroute, hpc] using hstops
        exact hown (by simp [DaemonState.advance, hreturned])
    | done resp =>
        exact Process.enabled_of_conn (.resume c) hlive hx
          (by simp [Conn.resume, hstage, hroute, hpc]) rfl rfl

/-- A request that has been read. -/
theorem Owned.received_enabled {handler : Handler} {req : Request} (hw : w.Owned)
    (hlive : w.process.host.cleanup ≠ .exited)
    (hx : w.process.conns c = some ⟨handler, .received req⟩) :
    w.process.Enabled (.handler c) := by
  cases hroute : route req with
  | session =>
      exact Process.enabled_of_conn (.dispatch c ⟨.ok (), .ofError ""⟩) hlive hx
        (by simp [Conn.dispatch, hroute]) rfl rfl
  | manager cmd =>
      obtain ⟨n, hcall⟩ := hw.tied.orderly.attended.bounded.exists_call
      exact Process.enabled_of_call n (.serial (.call n cmd)) hlive hx
        (by simp [Process.callEvent, hroute])
        (by simp [DaemonState.live, isDirect_of_route n hroute, hcall])
  | monitor cmd =>
      obtain ⟨n, hn⟩ := hw.tied.orderly.bounded
      refine Process.enabled_of_call n (.call n cmd) hlive hx
        (by simp [Process.callEvent, hroute]) ?_
      cases cmd with
      | portStatus => exact absurd hroute (route_ne_portStatus req)
      | _ => simp [DaemonState.live, hn n le_rfl]
  | write =>
      refine Process.enabled_of_conn (.parse c (.ok [])) hlive hx ?_ rfl rfl
      cases hbytes : Dispatch.writeBytes req.args (.ok []) with
      | ok next => simp [Conn.parse, hroute, hbytes]
      | error resp => simp [Conn.parse, hroute, hbytes]
  | status =>
      exact Process.enabled_of_conn (.list c) hlive hx (by simp [Conn.list, hroute]) rfl rfl

/-- The request loop of a connection. -/
theorem Owned.handler_enabled (hw : w.Owned) (hlive : w.process.host.cleanup ≠ .exited)
    (hbusy : Busy w.process (.handler c)) (hequipped : w.Equipped (.handler c))
    (hwaits : w.process.need (.handler c) = none → w.waitsUnlocked (.handler c) = none) :
    w.process.Enabled (.handler c) := by
  obtain ⟨⟨handler, stage⟩, hx, hready⟩ := hbusy
  have hneed : ∀ l, Conn.need ⟨handler, stage⟩ w.process.host c = some l →
      w.process.need (.handler c) = some l :=
    fun l hl => Process.need_handler.mpr ⟨_, hx, hl⟩
  cases stage with
  | ready =>
      have hroom : Conn.queueFull ⟨handler, .ready⟩ = false := by
        apply Bool.eq_false_iff.mpr
        intro hfull
        have hnone : w.process.need (.handler c) = none := by
          simp [Process.need, hx, Conn.need_of_queueFull hfull]
        have hwait := hwaits hnone
        simp [waitsUnlocked, hx, hfull] at hwait
      obtain ⟨x', hx'⟩ := Conn.exists_proceed w.process.host.serial.serial w.process.host.notices
        rfl (hready rfl) hroom
      exact Process.enabled_of_conn (.handle c (.proceed true)) hlive hx (by rw [hx']; rfl) rfl rfl
  | received req => exact hw.received_enabled hlive hx
  | calling req i =>
      obtain ⟨k, hcall⟩ := hw.tied.routed c _ req i hx rfl
      apply hw.call_enabled hlive hx hcall hequipped
      apply Bool.eq_false_iff.mpr
      intro hstops
      obtain ⟨j, hj, hstopping, -⟩ := Conn.stops_cases hstops
      obtain rfl := Option.some.inj (hj.symm.trans hcall)
      have hk : w.process.host.Occupies (.monitor, j) := Or.inl hstopping
      have hnone : w.process.need (.handler c) = none := by
        simp [Process.need, hx, Conn.need_of_call hcall, DaemonState.callNeed_of_occupies hk]
      have hwait := hwaits hnone
      simp [waitsUnlocked, hx, Conn.queueFull, hstops] at hwait
  | locating req port bytes =>
      refine Process.enabled_of_conn (.locate c) hlive hx ?_ rfl rfl
      simp only [Conn.locate]
      split <;> rfl
  | writing req port k bytes =>
      exact Process.enabled_of_conn (.sent c (.ok ())) hlive hx rfl rfl rfl
  | listing args =>
      have hlocked := hw.locked_eq_none hequipped (hneed _ rfl)
      refine Process.enabled_of_conn (.status c w.process.host.serial.statusEnv) hlive hx ?_ rfl rfl
      simp [Conn.status, hlocked, LogWorld.statusEnv]
  | listed args resp =>
      have hholder := hw.holder_eq_none hequipped (hneed _ rfl)
      exact Process.enabled_of_conn (.addMonitor c) hlive hx (by simp [Conn.addMonitor, hholder])
        rfl rfl

/-- The clean-up. -/
theorem Owned.cleanup_enabled (hw : w.Owned) (hlive : w.process.host.cleanup ≠ .exited)
    (hbusy : w.process.host.cleanup ≠ .idle) (hequipped : w.Equipped .cleanup)
    (hwaits : w.process.need .cleanup = none → w.waitsUnlocked .cleanup = none) :
    w.process.Enabled .cleanup := by
  have hattended := hw.tied.orderly.attended
  have hclean : ∀ i, (w.process.host.clean i).isSome = true → w.process.Enabled .cleanup :=
    fun i hi => Process.enabled_of_host (.clean i) hlive hi rfl rfl
  cases hcleanup : w.process.host.cleanup with
  | idle => exact absurd hcleanup hbusy
  | locking =>
      have hfree := hw.holder_eq_none hequipped (by simp [Process.need, hcleanup])
      obtain ⟨n, h, hcall⟩ := hattended.exists_closeAll
      apply hclean n
      simp only [DaemonState.clean, hcleanup, hfree, if_true]
      split
      · rfl
      · simp [hcall]
  | stopping =>
      have hreturned : w.process.host.server.returned = true := by
        simpa [waitsUnlocked, hcleanup] using hwaits (by simp [Process.need, hcleanup])
      have hnext : DaemonState.Attended { w.process.host with holder := none } :=
        hattended.of_eq rfl (fun _ => id) fun _ => id
      obtain ⟨n, h, hcall⟩ := hnext.exists_closeAll
      have hstop : w.process.host.clean n =
          DaemonState.closeAll { w.process.host with holder := none } n := by
        simp [DaemonState.clean, hcleanup, hreturned]
      exact hclean n (by rw [hstop, hcall]; rfl)
  | closing i =>
      obtain ⟨pc, hpc, hdraining⟩ := hattended.closing i hcleanup
      have hadvance : ∀ s, w.process.host.serial.advance i w.process.host.serial.statusEnv pc =
          some s → w.process.Enabled .cleanup := by
        intro s hs
        exact Process.enabled_of_host (.serial (.advance i w.process.host.serial.statusEnv)) hlive
          (by simp [DaemonState.live, DaemonState.isDirect, LogWorld.step, hpc, hs])
          (by simp [DaemonState.isFree, HostEvent.begins, hcleanup]) rfl
      cases hdraining with
      | start =>
          have hneed : w.process.need .cleanup = some .logs := by
            simp [Process.need, hcleanup, hpc, CallPc.need, LogCommand.need]
          exact hadvance _ (if_pos (hw.locked_eq_none hequipped hneed))
      | drainingPorts => exact hadvance _ rfl
      | done => exact hclean i (by simp [DaemonState.clean, hcleanup, hpc])
  | exited => exact absurd hcleanup hlive

/-- An agent in the middle of something has a step, when it has the lock that it
needs and waits for nothing else. -/
theorem Owned.enabled (hw : w.Owned) (ha : w.Unfinished a) (hequipped : w.Equipped a)
    (hwaits : w.process.need a = none → w.waitsUnlocked a = none) : w.process.Enabled a := by
  obtain ⟨hlive, hbusy⟩ := ha
  cases a with
  | handler c => exact hw.handler_enabled hlive hbusy hequipped hwaits
  | streaming c =>
      obtain ⟨x, hx, hrunning, hwaiting⟩ := hbusy
      obtain ⟨order, x', hx'⟩ := Conn.exists_stream w.process.host.serial.serial
        w.process.host.notices hrunning hwaiting
      exact Process.enabled_of_conn (.handle c (.stream order true)) hlive hx (by rw [hx']; rfl)
        rfl rfl
  | notify c =>
      obtain ⟨x, n, hx, hwriting⟩ := hbusy
      exact Process.enabled_of_conn (.handle c (.writeNotice true)) hlive hx
        (by simp [Conn.handle, Handler.step, NotifyTask.write, hwriting]) rfl rfl
  | stream h =>
      obtain ⟨x, hx⟩ := hbusy
      obtain ⟨order, x', hx'⟩ := x.exists_step w.process.host.serial.serial
      exact Process.enabled_of_host (.stream h order) hlive
        (by simp [DaemonState.live, DaemonState.ofServer, MonitorServer.stream, hx, hx']) rfl rfl
  | page h =>
      have hx : w.process.host.server.conns.lookup h = some .html := hbusy
      exact Process.enabled_of_host (.finish h) hlive
        (by simp [DaemonState.live, DaemonState.ofServer, MonitorServer.finish, hx]) rfl rfl
  | server =>
      obtain ⟨hcancelled, hrunning⟩ := hbusy
      have hdrained : w.process.host.server.Drained := by
        by_contra hsending
        simpa [waitsUnlocked, hcancelled, hrunning, hsending] using hwaits rfl
      exact Process.enabled_of_host .serverReturn hlive
        (by simp [DaemonState.live, DaemonState.ofServer, MonitorServer.serverReturn, hcancelled,
          hrunning, hdrained]) rfl rfl
  | cleanup => exact hw.cleanup_enabled hlive hbusy hequipped hwaits
  | log id =>
      obtain hcreating | ⟨entry, hwriting⟩ | ⟨hselecting, hcancelled⟩ := hbusy
      · exact Process.enabled_of_host (.serial (.createFile id true)) hlive
          (by simp [DaemonState.live, DaemonState.isDirect, LogWorld.step, Logs.createFile,
            hcreating]) rfl rfl
      · refine Process.enabled_of_host (.serial (.write id true)) hlive ?_ rfl rfl
        cases hmatched : w.process.host.serial.logs.matched id entry with
        | none =>
            simp [DaemonState.live, DaemonState.isDirect, LogWorld.step, Logs.write, hwriting,
              hmatched]
        | some kw =>
            simp [DaemonState.live, DaemonState.isDirect, LogWorld.step, Logs.write, hwriting,
              hmatched]
      · exact Process.enabled_of_host (.serial (.observeCancel id)) hlive
          (by simp [DaemonState.live, DaemonState.isDirect, LogWorld.step, Logs.observeCancel,
            hselecting, hcancelled]) rfl rfl
  | timer t =>
      have hsleeping : (w.process.host.serial.logs.timers t).state = .sleeping := hbusy
      exact Process.enabled_of_host (.serial (.expire t)) hlive
        (by simp [DaemonState.live, DaemonState.isDirect, LogWorld.step, Logs.expire, hsleeping])
        rfl rfl

/-- Who needs a lock is in the middle of something. -/
theorem busy_of_need {l : Lock} (hneed : w.process.need a = some l) : Busy w.process a := by
  cases a with
  | handler c =>
      obtain ⟨x, hx, hneed⟩ := Process.need_handler.mp hneed
      refine ⟨x, hx, fun hstage => ?_⟩
      simp only [Conn.need, hstage, Conn.loopNeed] at hneed
      split at hneed
      · rename_i hloop hdispatch
        exact Or.inr ⟨hloop, by simp [hdispatch]⟩
      · rename_i resp hloop
        exact Or.inl ⟨resp, hloop⟩
      · simp at hneed
  | streaming c =>
      obtain ⟨x, hx, hpc⟩ := Option.bind_eq_some_iff.mp hneed
      refine ⟨x, hx, ?_, fun _ hwaiting => by simp [hwaiting, TaskPc.need] at hpc⟩
      unfold StreamTask.isEnded
      split
      · rename_i hended
        simp [hended, TaskPc.need] at hpc
      · rfl
  | notify c =>
      obtain ⟨x, hx, hpc⟩ := Option.bind_eq_some_iff.mp hneed
      unfold NotifyPc.need at hpc
      split at hpc
      · rename_i n hwriting
        exact ⟨x, n, hx, hwriting⟩
      · simp at hpc
  | stream h =>
      simp only [Process.need] at hneed
      split at hneed
      · rename_i x hx
        exact ⟨x, hx⟩
      · simp at hneed
  | cleanup =>
      intro hidle
      simp [Process.need, hidle] at hneed
  | page | server | log | timer => simp [Process.need] at hneed

/-- Who keeps a lock is in the middle of something. -/
theorem busy_of_keeps {l : Lock} (hkeeps : w.process.keeps a = some l) : Busy w.process a := by
  cases a with
  | handler c =>
      obtain ⟨x, hx, hkeeps⟩ := Process.keeps_handler.mp hkeeps
      exact ⟨x, hx, fun hstage => by simp [Conn.keeps, hstage] at hkeeps⟩
  | cleanup =>
      intro hidle
      simp [Process.keeps, hidle] at hkeeps
  | _ => simp [Process.keeps] at hkeeps

/-- What is waited for without a lock, somebody is in the middle of. -/
theorem Owned.waits_busy {wait : Wait} (hw : w.Owned) (hwaits : w.waitsUnlocked a = some wait) :
    ∃ b, w.Awaits wait b ∧ Busy w.process b := by
  have hguarded := hw.tied.orderly.guarded
  cases a with
  | handler c =>
      obtain ⟨x, hx, hwaits⟩ := Option.bind_eq_some_iff.mp hwaits
      split_ifs at hwaits with hfull hstops
      · obtain rfl := Option.some.inj hwaits
        obtain ⟨hrunning, hlength⟩ := Conn.room_of_queueFull hfull
        refine ⟨.streaming c, rfl, x, hx, hrunning, fun hempty => ?_⟩
        simp [hempty, queueCapacity] at hlength
      · obtain rfl := Option.some.inj hwaits
        obtain ⟨i, -, hstopping, hreturned⟩ := Conn.stops_cases hstops
        exact ⟨.server, rfl, hguarded.cancelled (.call i) hstopping, hreturned⟩
  | cleanup =>
      simp only [waitsUnlocked] at hwaits
      split at hwaits
      · rename_i hstopping
        split_ifs at hwaits with hreturned
        obtain rfl := Option.some.inj hwaits
        exact ⟨.server, rfl, hguarded.cancelled .cleanup hstopping, by simpa using hreturned⟩
      · simp at hwaits
  | server =>
      simp only [waitsUnlocked] at hwaits
      split_ifs at hwaits with hsending
      obtain rfl := Option.some.inj hwaits
      have hnot := hsending.2.2
      unfold MonitorServer.Drained at hnot
      push Not at hnot
      obtain ⟨h, hmem, hne⟩ := hnot
      obtain ⟨b, hb⟩ := Table.exists_lookup_of_mem_keys hmem
      cases b with
      | idle => exact absurd hb hne
      | html => exact ⟨.page h, ⟨h, Or.inr ⟨hb, rfl⟩⟩, hb⟩
      | events x => exact ⟨.stream h, ⟨h, Or.inl ⟨x, hb, rfl⟩⟩, x, hb⟩
  | _ => simp [waitsUnlocked] at hwaits

/-- Whoever is in the middle of something can go on, or waits for somebody who is. -/
theorem Owned.progress (hw : w.Owned) (ha : w.Unfinished a) :
    (w.Unfinished a ∧ w.CanStep a) ∨ ∃ b, w.WaitsFor a b ∧ w.Unfinished b := by
  have hact : w.Equipped a → (w.process.need a = none → w.waitsUnlocked a = none) →
      w.Unfinished a ∧ w.CanStep a := by
    intro hequipped hwaits
    obtain ⟨e, p, hactor, hp⟩ := hw.enabled ha hequipped hwaits
    refine ⟨ha, Or.inr ⟨e, ⟨p, release p e.actor w.owner⟩, hactor, ?_⟩⟩
    simp [LockWorld.step, hactor, hequipped, hp]
  cases hneed : w.process.need a with
  | some l =>
      cases howner : w.owner l with
      | none =>
          exact Or.inl ⟨ha, Or.inl ⟨{ w with owner := Function.update w.owner l (some a) },
            by simp [LockWorld.step, hneed, howner]⟩⟩
      | some b =>
          by_cases hb : b = a
          · subst hb
            refine Or.inl (hact (fun l' hl' => ?_) (by simp [hneed]))
            obtain rfl := Option.some.inj (hneed.symm.trans hl')
            exact howner
          · have hwaits : w.waits a = some (.lock l) := by simp [waits, hneed, howner, hb]
            refine Or.inr ⟨b, ⟨_, hwaits, howner⟩, ha.1, ?_⟩
            obtain hkeeps | hneed := hw.needed b l howner
            · exact busy_of_keeps hkeeps
            · exact busy_of_need hneed
  | none =>
      cases hwaits : w.waitsUnlocked a with
      | none => exact Or.inl (hact (by simp [Equipped, hneed]) fun _ => hwaits)
      | some wait =>
          obtain ⟨b, hb, hbusy⟩ := hw.waits_busy hwaits
          exact Or.inr ⟨b, ⟨wait, (waits_of_none hneed).trans hwaits, hb⟩, ha.1, hbusy⟩

end LockWorld

/-- No deadlock. Nobody waits for himself, however many others are in between,
and whoever is in the middle of something can go on, or waits in the end for
somebody who can. -/
theorem no_deadlock {es : List LockEvent} {w : LockWorld} (hrun : locking.run es = some w) :
    (∀ a, ¬ Relation.TransGen w.WaitsFor a a) ∧
      ∀ a, w.Unfinished a →
        ∃ b, Relation.ReflTransGen w.WaitsFor a b ∧ w.Unfinished b ∧ w.CanStep b := by
  have hw := LockWorld.owned hrun
  exact ⟨hw.ranked.acyclic, fun a ha => hw.ranked.reaches (fun _ hb => hw.progress hb) a ha⟩

/-- A request of a client, and its call. -/
def asked (c : ClientId) (req : Request) (i : CallId) : List LockEvent :=
  [.act (.line c req), .act (.call c i)]

/-- The call takes a step under the lock that it needs. -/
def lockedStep (c : ClientId) (i : CallId) : List LockEvent :=
  [.acquire (.handler c),
    .act (.own c (.serial (.advance i ⟨.ok (), "", id, [], fun _ => 0⟩)))]

/-- The loop goes on under the lock that it needs. -/
def lockedProceed (c : ClientId) : List LockEvent :=
  [.acquire (.handler c), .act (.handle c (.proceed true))]

/-- While one client stops the log of a port, another does too. -/
def stoppedTwice : List LockEvent :=
  [.act (.connect 0), .act (.connect 1)] ++
    asked 0 (portRequest "open_port" "P") 0 ++ lockedStep 0 0 ++ [.act (.resume 0)] ++
    lockedProceed 0 ++ lockedProceed 0 ++
    asked 0 (portRequest "start_log" "P") 1 ++ lockedStep 0 1 ++ lockedStep 0 1 ++
    [.act (.resume 0)] ++ lockedProceed 0 ++
    asked 0 (portRequest "stop_log" "P") 2 ++ lockedStep 0 2 ++
    asked 1 (portRequest "stop_log" "P") 3

/-- The theorem where the second client waits for the first. -/
theorem no_deadlock_stoppedTwice : ∃ w : LockWorld, locking.run stoppedTwice = some w ∧
    w.WaitsFor (.handler 1) (.handler 0) ∧
    (∀ a, ¬ Relation.TransGen w.WaitsFor a a) ∧
      ∃ b, Relation.ReflTransGen w.WaitsFor (.handler 1) b ∧ w.Unfinished b ∧ w.CanStep b := by
  have hrun : ((locking.run stoppedTwice).any fun w =>
      !w.process.host.cleanup.isExited && w.process.need (.handler 1) == some .logs &&
        w.owner .logs == some (.handler 0)) = true := by
    decide +kernel
  simp only [Option.any_eq_true, Bool.and_eq_true, beq_iff_eq] at hrun
  obtain ⟨w, hw, ⟨hlive, hneed⟩, howner⟩ := hrun
  have hunfinished : w.Unfinished (.handler 1) := by
    refine ⟨fun hexited => ?_, LockWorld.busy_of_need hneed⟩
    simp [hexited, CleanupPc.isExited] at hlive
  have hwaits : w.waits (.handler 1) = some (.lock .logs) := by
    rw [LockWorld.waits_of_need hneed, howner, if_neg (by simp)]
  obtain ⟨hacyclic, hreaches⟩ := no_deadlock hw
  exact ⟨w, hw, ⟨_, hwaits, howner⟩, hacyclic, hreaches _ hunfinished⟩

end Commmon

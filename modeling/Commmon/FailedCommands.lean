/-
# Commands that fail

Most commands check everything before they change anything. Four do not. A new
registration is recorded in the session before it is handed to the streaming task,
which may have ended, and `close_port` stops the log of a port before it looks
whether the port is open.

What a command has done so far is compared here with the session and the tables that
it found, at every point where the command can stand.
-/

import Commmon.Keywords
import Commmon.LogSteps
import Commmon.Process

set_option autoImplicit false

namespace Commmon

/-- Two sessions with the same entries. -/
structure ClientSession.Same (s s' : ClientSession) : Prop where
  receivers : ∀ port, s'.receivers.lookup port = s.receivers.lookup port
  buffers : ∀ port, s'.buffers.lookup port = s.buffers.lookup port
  rxSubscriptions : s'.rxSubscriptions = s.rxSubscriptions
  filterSubscriptions : ∀ port,
    s'.filterSubscriptions.lookup port = s.filterSubscriptions.lookup port

theorem ClientSession.Same.refl (s : ClientSession) : s.Same s :=
  ⟨fun _ => rfl, fun _ => rfl, rfl, fun _ => rfl⟩

/-- A list that is recorded is the same only if it was recorded before. -/
theorem ClientSession.same_setFilter_iff {s : ClientSession} {port : String}
    {keywords : List String} :
    s.Same { s with filterSubscriptions := s.filterSubscriptions.insert port keywords } ↔
      s.filterSubscriptions.lookup port = some keywords := by
  constructor
  · intro h
    simpa using (h.filterSubscriptions port).symm
  · intro h
    refine ⟨fun _ => rfl, fun _ => rfl, rfl, fun q => ?_⟩
    by_cases hq : q = port
    · subst hq
      simp [h]
    · simp [hq]

private theorem ClientSession.not_same_subscribe {s : ClientSession} {port : String}
    (h : port ∉ s.rxSubscriptions) :
    ¬ s.Same { s with rxSubscriptions := insert port s.rxSubscriptions } := by
  intro hsame
  have hrx : insert port s.rxSubscriptions = s.rxSubscriptions := hsame.rxSubscriptions
  exact h (hrx ▸ Finset.mem_insert_self port _)

/-- The same ports are open, and the same logs run. -/
structure LogWorld.SameTables (w w' : LogWorld) : Prop where
  ports : ∀ port, w'.serial.ports.lookup port = w.serial.ports.lookup port
  logs : ∀ port, w'.logs.table.lookup port = w.logs.table.lookup port

theorem LogWorld.SameTables.refl (w : LogWorld) : w.SameTables w :=
  ⟨fun _ => rfl, fun _ => rfl⟩

/-- The keywords that are recorded for a port, none without a filter. -/
def ClientSession.keywords (s : ClientSession) (port : String) : List String :=
  (s.filterSubscriptions.lookup port).getD []

/-- A command that has changed something when it comes to its last check. -/
inductive Request.ActsFirst (w : LogWorld) (s : ClientSession) (req : Request) : Prop
  | subscribing (port : String) (hcmd : req.cmd = "subscribe_rx")
      (hport : req.args.strArg "port" = some port)
      (hopen : w.serial.isPortOpen port = true) (hnew : port ∉ s.rxSubscriptions)
  | filtering (port : String) (keywords : List String) (hcmd : req.cmd = "filter_rx")
      (hport : req.args.strArg "port" = some port)
      (hkeywords : keywordsArg req.args = some keywords) (hsome : keywords ≠ [])
      (hopen : w.serial.isPortOpen port = true)
      (hnew : s.filterSubscriptions.lookup port ≠ some keywords)
  | adding (port : String) (keywords : List String) (hcmd : req.cmd = "add_filter_rx")
      (hport : req.args.strArg "port" = some port)
      (hkeywords : keywordsArg req.args = some keywords)
      (hopen : w.serial.isPortOpen port = true)
      (hnew : ∃ kw ∈ keywords, kw ∉ s.keywords port)
  | closing (port : String) (hcmd : req.cmd = "close_port")
      (hport : req.args.strArg "port" = some port)
      (hclosed : w.serial.isPortOpen port = false)
      (hlog : (w.logs.table.lookup port).isSome = true)

section ActsFirst

variable {w : LogWorld} {s : ClientSession} {req : Request} {port : String}
  {keywords : List String}

namespace Request

theorem not_actsFirst
    (h : req.cmd ∉ ["subscribe_rx", "filter_rx", "add_filter_rx", "close_port"]) :
    ¬ req.ActsFirst w s := by
  intro hacts
  cases hacts <;> simp_all

private theorem not_actsFirst_of_port (h : req.args.strArg "port" = none) :
    ¬ req.ActsFirst w s := by
  intro hacts
  cases hacts <;> simp_all

private theorem actsFirst_subscribe (hcmd : req.cmd = "subscribe_rx")
    (hport : req.args.strArg "port" = some port) :
    req.ActsFirst w s ↔ w.serial.isPortOpen port = true ∧ port ∉ s.rxSubscriptions := by
  constructor
  · intro hacts
    cases hacts with
    | subscribing port' _ hport' hopen hnew =>
        obtain rfl := Option.some.inj (hport.symm.trans hport')
        exact ⟨hopen, hnew⟩
    | filtering | adding | closing => simp_all
  · exact fun ⟨hopen, hnew⟩ => .subscribing port hcmd hport hopen hnew

private theorem actsFirst_filter (hcmd : req.cmd = "filter_rx")
    (hport : req.args.strArg "port" = some port)
    (hkeywords : keywordsArg req.args = some keywords) :
    req.ActsFirst w s ↔ keywords ≠ [] ∧ w.serial.isPortOpen port = true ∧
      s.filterSubscriptions.lookup port ≠ some keywords := by
  constructor
  · intro hacts
    cases hacts with
    | filtering port' keywords' _ hport' hkeywords' hsome hopen hnew =>
        obtain rfl := Option.some.inj (hport.symm.trans hport')
        obtain rfl := Option.some.inj (hkeywords.symm.trans hkeywords')
        exact ⟨hsome, hopen, hnew⟩
    | subscribing | adding | closing => simp_all
  · exact fun ⟨hsome, hopen, hnew⟩ => .filtering port keywords hcmd hport hkeywords hsome hopen hnew

private theorem actsFirst_add (hcmd : req.cmd = "add_filter_rx")
    (hport : req.args.strArg "port" = some port)
    (hkeywords : keywordsArg req.args = some keywords) :
    req.ActsFirst w s ↔ w.serial.isPortOpen port = true ∧
      ∃ kw ∈ keywords, kw ∉ s.keywords port := by
  constructor
  · intro hacts
    cases hacts with
    | adding port' keywords' _ hport' hkeywords' hopen hnew =>
        obtain rfl := Option.some.inj (hport.symm.trans hport')
        obtain rfl := Option.some.inj (hkeywords.symm.trans hkeywords')
        exact ⟨hopen, hnew⟩
    | subscribing | filtering | closing => simp_all
  · exact fun ⟨hopen, hnew⟩ => .adding port keywords hcmd hport hkeywords hopen hnew

private theorem actsFirst_close (hcmd : req.cmd = "close_port")
    (hport : req.args.strArg "port" = some port) :
    req.ActsFirst w s ↔ w.serial.isPortOpen port = false ∧
      (w.logs.table.lookup port).isSome = true := by
  constructor
  · intro hacts
    cases hacts with
    | closing port' _ hport' hclosed hlog =>
        obtain rfl := Option.some.inj (hport.symm.trans hport')
        exact ⟨hclosed, hlog⟩
    | subscribing | filtering | adding => simp_all
  · exact fun ⟨hclosed, hlog⟩ => .closing port hcmd hport hclosed hlog

/-- Without keywords a filter is refused at once. -/
theorem not_actsFirst_of_keywords (hcmd : req.cmd = "filter_rx" ∨ req.cmd = "add_filter_rx")
    (h : keywordsArg req.args = none ∨ keywordsArg req.args = some []) :
    ¬ req.ActsFirst w s := by
  intro hacts
  cases hacts with
  | subscribing | closing => simp_all
  | filtering | adding => obtain h | h := h <;> simp_all

end Request

end ActsFirst

/-- The rest of a command leads to a success. -/
def Pc.Succeeds (s : ClientSession) : Pc → Prop
  | .openEnsure _ resp => resp.ok = true
  | .onPortClosed _ resp => resp.ok = true
  | .reply resp => resp.ok = true
  | .tell _ next => next.Succeeds s
  | .drain port _ => (s.receivers.lookup port).isSome = true
  | _ => False

section Standing

variable (w : LogWorld) (s : ClientSession) (req : Request)

/-- How far a command has come, and with which session. It found `w` and `s`, and
`tables` says that the tables are still those. What may fail from here on has acted
exactly if the command is one that acts first. -/
inductive Pc.Standing (tables : Prop) : ClientSession → Pc → Prop
  | succeeds {s' : ClientSession} {pc : Pc} (h : pc.Succeeds s') : Standing tables s' pc
  | replies {s' : ClientSession} (resp : Response)
      (hkept : s.Same s' ∧ tables ↔ ¬ req.ActsFirst w s) : Standing tables s' (.reply resp)
  | sends {s' : ClientSession} (cmd : RxSubCommand) (success : String)
      (hkept : s.Same s' ∧ tables ↔ ¬ req.ActsFirst w s) :
      Standing tables s' (.send cmd success)
  | subscribes (port : String) (htables : tables)
      (hopen : w.serial.isPortOpen port = true) (hnew : port ∉ s.rxSubscriptions)
      (hacts : req.ActsFirst w s) : Standing tables s (.subscribeTake port)
  | filters (port : String) (keywords : List String) (success : String) (htables : tables)
      (hopen : w.serial.isPortOpen port = true)
      (hacts : req.ActsFirst w s ↔ s.filterSubscriptions.lookup port ≠ some keywords) :
      Standing tables s (.filterTake port keywords success)
  | ensures (port : String) (clear : Bool) (htables : tables) (hacts : ¬ req.ActsFirst w s) :
      Standing tables s (.readEnsure port clear)
  | drains (port : String) (clear : Bool) (htables : tables)
      (hnone : s.receivers.lookup port = none) (hacts : ¬ req.ActsFirst w s) :
      Standing tables s (.drain port clear)

end Standing

section Sessions

variable {w : LogWorld} {s s' : ClientSession} {req : Request} {tables : Prop}
  {m : SerialManager}

/-- A refusal without a change. -/
theorem Pc.Standing.refused (htables : tables) (hacts : ¬ req.ActsFirst w s)
    (resp : Response) : Pc.Standing w s req tables s (.reply resp) :=
  .replies resp (iff_of_true ⟨.refl s, htables⟩ hacts)

namespace Dispatch

private theorem subscribeRx_standing (htables : tables)
    (hm : ∀ port, m.isPortOpen port = w.serial.isPortOpen port) (hcmd : req.cmd = "subscribe_rx") :
    Pc.Standing w s req tables (subscribeRx m s req.args).1 (subscribeRx m s req.args).2 := by
  unfold subscribeRx
  split
  · rename_i hport
    exact .refused htables (Request.not_actsFirst_of_port hport) _
  · rename_i port hport
    have hiff := Request.actsFirst_subscribe (w := w) (s := s) hcmd hport
    split_ifs with hopen hmem
    · exact .refused htables (fun hacts => by simp [hm, (hiff.mp hacts).1] at hopen) _
    · exact .refused htables (fun hacts => (hiff.mp hacts).2 hmem) _
    · have hopen' : w.serial.isPortOpen port = true := by simpa [hm] using hopen
      exact .subscribes port htables hopen' hmem (hiff.mpr ⟨hopen', hmem⟩)

private theorem filterRx_standing (htables : tables)
    (hm : ∀ port, m.isPortOpen port = w.serial.isPortOpen port) (hcmd : req.cmd = "filter_rx") :
    Pc.Standing w s req tables (filterRx m s req.args).1 (filterRx m s req.args).2 := by
  unfold filterRx
  split
  · rename_i hport
    exact .refused htables (Request.not_actsFirst_of_port hport) _
  · rename_i port hport
    split
    · rename_i hkeywords
      exact .refused htables
        (Request.not_actsFirst_of_keywords (Or.inl hcmd) (Or.inl hkeywords)) _
    · rename_i keywords hkeywords
      have hiff := Request.actsFirst_filter (w := w) (s := s) hcmd hport hkeywords
      split_ifs with hempty hopen
      · exact .refused htables (fun hacts => (hiff.mp hacts).1 (by simpa using hempty)) _
      · exact .refused htables (fun hacts => by simp [hm, (hiff.mp hacts).2.1] at hopen) _
      · have hopen' : w.serial.isPortOpen port = true := by simpa [hm] using hopen
        have hsome : keywords ≠ [] := by simpa using hempty
        exact .filters port keywords _ htables hopen'
          ⟨fun hacts => (hiff.mp hacts).2.2, fun hnew => hiff.mpr ⟨hsome, hopen', hnew⟩⟩

private theorem addFilterRx_standing (htables : tables)
    (hm : ∀ port, m.isPortOpen port = w.serial.isPortOpen port) (hcmd : req.cmd = "add_filter_rx") :
    Pc.Standing w s req tables (addFilterRx m s req.args).1 (addFilterRx m s req.args).2 := by
  unfold addFilterRx
  split
  · rename_i hport
    exact .refused htables (Request.not_actsFirst_of_port hport) _
  · rename_i port hport
    split
    · rename_i hkeywords
      exact .refused htables
        (Request.not_actsFirst_of_keywords (Or.inr hcmd) (Or.inl hkeywords)) _
    · rename_i keywords hkeywords
      have hiff := Request.actsFirst_add (w := w) (s := s) hcmd hport hkeywords
      split_ifs with hempty hopen
      · obtain rfl : keywords = [] := by simpa using hempty
        exact .refused htables
          (Request.not_actsFirst_of_keywords (Or.inr hcmd) (Or.inr hkeywords)) _
      · exact .refused htables (fun hacts => by simp [hm, (hiff.mp hacts).1] at hopen) _
      · have hopen' : w.serial.isPortOpen port = true := by simpa [hm] using hopen
        have hnewIff : req.ActsFirst w s ↔ ∃ kw ∈ keywords, kw ∉ s.keywords port :=
          hiff.trans (and_iff_right hopen')
        split
        · rename_i existing hexisting
          refine .sends _ _ ?_
          rw [hnewIff, and_iff_left htables, ClientSession.same_setFilter_iff, hexisting,
            Option.some_inj, eq_comm, mergeKeywords_eq_self_iff]
          simp [ClientSession.keywords, hexisting]
        · rename_i hnone
          obtain ⟨kw, hkw⟩ := List.exists_mem_of_ne_nil keywords (by simpa using hempty)
          have hacts : req.ActsFirst w s :=
            hnewIff.mpr ⟨kw, hkw, by simp [ClientSession.keywords, hnone]⟩
          exact .filters port keywords _ htables hopen' (iff_of_true hacts (by simp [hnone]))

/-- The other commands on the session check first. -/
theorem start_standing (htables : tables)
    (hm : ∀ port, m.isPortOpen port = w.serial.isPortOpen port) (hroute : route req = .session)
    (env : Env) :
    Pc.Standing w s req tables (start m s req env).2.1 (start m s req env).2.2 := by
  unfold start
  split
  · rename_i hcmd
    simp [route, hcmd] at hroute
  · rename_i hcmd
    simp [route, hcmd] at hroute
  · exact subscribeRx_standing htables hm ‹_›
  · rename_i hcmd
    unfold unsubscribeRx
    split
    · exact .refused htables (Request.not_actsFirst (by simp [hcmd])) _
    · split_ifs
      · exact .succeeds rfl
      · exact .refused htables (Request.not_actsFirst (by simp [hcmd])) _
  · exact filterRx_standing htables hm ‹_›
  · exact addFilterRx_standing htables hm ‹_›
  · rename_i hcmd
    unfold unfilterRx
    split
    · exact .refused htables (Request.not_actsFirst (by simp [hcmd])) _
    · split_ifs
      · exact .succeeds rfl
      · exact .refused htables (Request.not_actsFirst (by simp [hcmd])) _
  · rename_i hcmd
    unfold readPort
    split
    · exact .refused htables (Request.not_actsFirst (by simp [hcmd])) _
    · split_ifs
      · exact .refused htables (Request.not_actsFirst (by simp [hcmd])) _
      · exact .ensures _ _ htables (Request.not_actsFirst (by simp [hcmd]))
  all_goals exact .refused htables (Request.not_actsFirst (by simp_all)) _

end Dispatch

/-- A session with a receiver of the port answers a read. -/
theorem Client.advance_drain {cl cl' : Client} {m : SerialManager} {r : Request}
    {port : String} {clear : Bool} (hpc : cl.dispatch = some (r, .drain port clear))
    (hrx : (cl.session.receivers.lookup port).isSome = true)
    (h : cl.advance m r (.drain port clear) = some cl') :
    ∃ pc, cl'.dispatch = some (r, pc) ∧ pc.Succeeds cl'.session := by
  obtain ⟨rx, hrx⟩ := Option.isSome_iff_exists.mp hrx
  obtain ⟨hnone, -⟩ | ⟨rx', entry, -, -, -, hround⟩ | ⟨rx', next, -, -, -, hround⟩ :=
    cl.session.drainOne_cases m port
  · simp [hrx] at hnone
  · simp only [advance, hround] at h
    obtain rfl := Option.some.inj h
    exact ⟨_, hpc, by simp [Pc.Succeeds]⟩
  · simp only [advance, hround] at h
    obtain rfl := Option.some.inj h
    refine ⟨_, rfl, ?_⟩
    obtain ⟨hnone, -⟩ | ⟨-, hresp, -⟩ :=
      (cl.session.attach port { rx' with next := next } (cl.session.buffer port)
        (cl.session.length_buffer_le port)).answerRead_cases port clear
    · simp at hnone
    · simp [Pc.Succeeds, hresp, Response.success]

/-- A step of a command keeps its standing. The ports are still those that the
command found. -/
theorem Client.advance_standing {cl cl' : Client} {m : SerialManager} {r : Request} {pc : Pc}
    (hstanding : Pc.Standing w s req tables cl.session pc)
    (hports : tables → ∀ port, m.ports.lookup port = w.serial.ports.lookup port)
    (hpc : cl.dispatch = some (r, pc)) (h : cl.advance m r pc = some cl') :
    cl'.dispatch = none ∨ ∃ pc', cl'.dispatch = some (r, pc') ∧
      Pc.Standing w s req tables cl'.session pc' := by
  have hsubscribe : ∀ port, tables → w.serial.isPortOpen port = true →
      ∃ rx, m.subscribe port = some rx := by
    intro port htables hopen
    obtain ⟨op, hop⟩ := Option.isSome_iff_exists.mp hopen
    exact ⟨_, SerialManager.subscribe_eq_some.mpr ⟨op, (hports htables port).trans hop, rfl⟩⟩
  cases hstanding with
  | succeeds hsucceeds =>
      cases pc with
      | openEnsure port resp | onPortClosed port resp =>
          obtain rfl := Option.some.inj h
          exact Or.inr ⟨_, rfl, .succeeds hsucceeds⟩
      | tell cmd next =>
          simp only [advance] at h
          split_ifs at h
          · obtain rfl := Option.some.inj h
            exact Or.inr ⟨_, rfl, .succeeds hsucceeds⟩
          · obtain rfl := Option.some.inj h
            exact Or.inr ⟨_, rfl, .succeeds hsucceeds⟩
      | drain port clear =>
          obtain ⟨pc', hpc', hsucceeds'⟩ := advance_drain hpc hsucceeds h
          exact Or.inr ⟨pc', hpc', .succeeds hsucceeds'⟩
      | reply resp =>
          obtain rfl := Option.some.inj h
          exact Or.inl rfl
      | subscribeTake | filterTake | readEnsure | send => exact hsucceeds.elim
  | replies resp hkept =>
      obtain rfl := Option.some.inj h
      exact Or.inl rfl
  | sends cmd success hkept =>
      simp only [advance] at h
      split_ifs at h
      · obtain rfl := Option.some.inj h
        exact Or.inr ⟨_, rfl, .replies _ hkept⟩
      · obtain rfl := Option.some.inj h
        exact Or.inr ⟨_, rfl, .succeeds rfl⟩
  | subscribes port htables hopen hnew hacts =>
      obtain ⟨rx, hrx⟩ := hsubscribe port htables hopen
      simp only [advance, hrx] at h
      obtain rfl := Option.some.inj h
      refine Or.inr ⟨_, rfl, .sends _ _ (iff_of_false ?_ (not_not_intro hacts))⟩
      exact fun hkept => ClientSession.not_same_subscribe hnew hkept.1
  | filters port keywords success htables hopen hacts =>
      obtain ⟨rx, hrx⟩ := hsubscribe port htables hopen
      simp only [advance, hrx] at h
      obtain rfl := Option.some.inj h
      refine Or.inr ⟨_, rfl, .sends _ _ ?_⟩
      rw [and_iff_left htables, ClientSession.same_setFilter_iff, hacts, not_not]
  | ensures port clear htables hacts =>
      obtain rfl := Option.some.inj h
      obtain ⟨⟨rx, hrx⟩, hsame⟩ | ⟨hnone, -, hsame⟩ | ⟨-, op, -, hattach⟩ :=
        cl.session.ensureSubscribed_cases m port
      · refine Or.inr ⟨_, rfl, .succeeds ?_⟩
        simp [Pc.Succeeds, hsame, hrx]
      · refine Or.inr ⟨_, rfl, ?_⟩
        rw [hsame]
        exact .drains port clear htables hnone hacts
      · refine Or.inr ⟨_, rfl, .succeeds ?_⟩
        simp [Pc.Succeeds, hattach]
  | drains port clear htables hnone hacts =>
      have hround : cl.session.drainOne m port = (cl.session, false) := by
        simp [ClientSession.drainOne, hnone]
      simp only [advance, hround] at h
      obtain rfl := Option.some.inj h
      obtain ⟨-, hresp⟩ | ⟨⟨rx, hrx⟩, -⟩ := cl.session.answerRead_cases port clear
      · refine Or.inr ⟨_, rfl, ?_⟩
        rw [hresp]
        exact .refused htables hacts _
      · simp [hnone] at hrx

end Sessions

/-- The ports are the same, and so are the logs but for one. -/
structure LogWorld.SameBut (w w' : LogWorld) (port : String) : Prop where
  ports : ∀ q, w'.serial.ports.lookup q = w.serial.ports.lookup q
  logs : ∀ q, w'.logs.table.lookup q = if q = port then none else w.logs.table.lookup q

section Calls

variable (w : LogWorld) (s : ClientSession) (req : Request)

/-- How far a call has come that has found `w`. A `close_port` that fails has stopped
the log of its port, if there was one. -/
inductive CallPc.Standing (cmd : LogCommand) (w' : LogWorld) : CallPc → Prop
  | started (htables : w.SameTables w') : Standing cmd w' (.start cmd)
  | subscribed (port : String) (rx : Receiver) (args : Value) (htables : w.SameTables w')
      (hacts : ¬ req.ActsFirst w s) : Standing cmd w' (.register port rx args)
  | stopping (port : String) (log : LogState) : Standing cmd w' (.waiting port log none)
  | closing (args : Value) (port : String) (log : LogState)
      (hcmd : req.cmd = "close_port") (hargs : args = req.args)
      (hport : args.strArg "port" = some port) (hbut : w.SameBut w' port) :
      Standing cmd w' (.waiting port log (some args))
  | removing (args : Value) (port : String) (hcmd : req.cmd = "close_port")
      (hargs : args = req.args) (hport : args.strArg "port" = some port)
      (hbut : w.SameBut w' port) : Standing cmd w' (.removing args)
  | done (resp : Response) (hkept : resp.ok = false → (w.SameTables w' ↔ ¬ req.ActsFirst w s)) :
      Standing cmd w' (.done (some resp))

end Calls

namespace LogWorld

variable {w v v' : LogWorld} {s : ClientSession} {req : Request} {cmd : LogCommand}
  {i : CallId} {env : Logs.LogEnv} {pc : CallPc}

theorem SameTables.of_eq (h : w.SameTables v) (hports : v'.serial.ports = v.serial.ports)
    (hlogs : v'.logs.table = v.logs.table) : w.SameTables v' :=
  ⟨fun q => by rw [hports, h.ports], fun q => by rw [hlogs, h.logs]⟩

theorem SameBut.of_eq {port : String} (h : w.SameBut v port)
    (hports : v'.serial.ports = v.serial.ports) (hlogs : v'.logs.table = v.logs.table) :
    w.SameBut v' port :=
  ⟨fun q => by rw [hports, h.ports], fun q => by rw [hlogs, h.logs]⟩

/-- Without the log, nothing is the same but. -/
theorem SameBut.same_iff {port : String} (h : w.SameBut v port) :
    w.SameTables v ↔ (w.logs.table.lookup port).isSome = false := by
  constructor
  · intro hsame
    rw [← hsame.logs port, h.logs, if_pos rfl]
    rfl
  · intro hnone
    refine ⟨h.ports, fun q => ?_⟩
    rw [h.logs]
    split_ifs with hq
    · subst hq
      exact (by simpa using hnone : w.logs.table.lookup q = none).symm
    · rfl

theorem standing_of_eq (h : CallPc.Standing w s req cmd v pc)
    (hports : v'.serial.ports = v.serial.ports) (hlogs : v'.logs.table = v.logs.table) :
    CallPc.Standing w s req cmd v' pc := by
  cases h with
  | started htables => exact .started (htables.of_eq hports hlogs)
  | subscribed port rx args htables hacts =>
      exact .subscribed port rx args (htables.of_eq hports hlogs) hacts
  | stopping port log => exact .stopping port log
  | closing args port log hcmd hargs hport hbut =>
      exact .closing args port log hcmd hargs hport (hbut.of_eq hports hlogs)
  | removing args port hcmd hargs hport hbut =>
      exact .removing args port hcmd hargs hport (hbut.of_eq hports hlogs)
  | done resp hkept =>
      refine .done resp fun hok => ?_
      rw [← hkept hok]
      exact ⟨fun h => h.of_eq hports.symm hlogs.symm, fun h => h.of_eq hports hlogs⟩

/-- A call goes on to a point where it has its standing. -/
theorem standing_setCall {u : LogWorld} (h : CallPc.Standing w s req cmd u pc) :
    ∃ pc', (u.setCall i pc).calls i = some pc' ∧
      CallPc.Standing w s req cmd (u.setCall i pc) pc' :=
  ⟨pc, by simp, standing_of_eq h rfl rfl⟩

/-- A command is refused that has changed nothing. -/
theorem standing_refused {u : LogWorld} (htables : w.SameTables u)
    (hacts : ¬ req.ActsFirst w s) (resp : Response) :
    ∃ pc', (u.answer i resp).calls i = some pc' ∧
      CallPc.Standing w s req cmd (u.answer i resp) pc' :=
  standing_setCall (.done resp fun _ => iff_of_true htables hacts)

private theorem standing_succeeds {u : LogWorld} {resp : Response} (hok : resp.ok = true) :
    ∃ pc', (u.answer i resp).calls i = some pc' ∧
      CallPc.Standing w s req cmd (u.answer i resp) pc' :=
  standing_setCall (.done resp fun hfailed => by simp [hok] at hfailed)

/-- The command of a request that is routed to the manager. -/
theorem route_manager (h : route req = .manager cmd) :
    (req.cmd = "open_port" ∧ cmd = .openPort req.args) ∨
    (req.cmd = "close_port" ∧ cmd = .closePort req.args) ∨
    (req.cmd = "start_log" ∧ cmd = .startLog req.args) ∨
    (req.cmd = "update_log" ∧ cmd = .updateLog req.args) ∨
    (req.cmd = "stop_log" ∧ cmd = .stopLog req.args) := by
  unfold route at h
  split at h <;> simp_all

/-- An update that fails changes nothing. -/
theorem updateLog_of_failed {l : Logs} {port : String} {args : Value}
    (h : (l.updateLog port args).2.ok = false) : (l.updateLog port args).1 = l := by
  unfold Logs.updateLog at h ⊢
  split at h
  · rfl
  · rename_i log hlog
    cases hkeyword : (args.get "stopKeyword").map Logs.newKeyword with
    | some keyword => simp [hkeyword] at h
    | none =>
        cases hsecs : (args.get "duration").bind Value.asU64 with
        | some secs => simp [hkeyword, hsecs] at h
        | none => rfl

private theorem startLog_cases (l : Logs) (port : String) (rx : Receiver) (args : Value)
    (env : Logs.LogEnv) : (l.startLog port rx args env).1 = l ∨
      (l.startLog port rx args env).2.ok = true := by
  unfold Logs.startLog
  split_ifs
  · exact Or.inl rfl
  · exact Or.inr rfl

/-- A stop begins: the log, if there is one, leaves the table. -/
theorem beginStop_standing (htables : w.SameTables v) {port : String}
    (hport : req.args.strArg "port" = some port) (closing : Option Value)
    (hclosing : ∀ args ∈ closing, req.cmd = "close_port" ∧ args = req.args)
    (hstop : closing = none → ¬ req.ActsFirst w s) :
    ∃ pc', (v.beginStop i port closing).calls i = some pc' ∧
      CallPc.Standing w s req cmd (v.beginStop i port closing) pc' := by
  have hbut : ∀ log, v.logs.table.lookup port = some log →
      w.SameBut { v with logs := v.logs.remove port log } port := by
    intro log hlog
    refine ⟨htables.ports, fun q => ?_⟩
    rw [← htables.logs q]
    exact v.logs.lookup_remove port log q
  unfold beginStop
  cases hlog : v.logs.table.lookup port with
  | some log =>
      cases closing with
      | none => exact standing_setCall (.stopping port log)
      | some args =>
          obtain ⟨hcmd, rfl⟩ := hclosing args rfl
          apply standing_setCall
          exact .closing _ port log hcmd rfl hport ((hbut log hlog).of_eq rfl rfl)
  | none =>
      cases closing with
      | none => exact standing_refused htables (hstop rfl) _
      | some args =>
          obtain ⟨hcmd, rfl⟩ := hclosing args rfl
          refine standing_setCall (.removing _ port hcmd rfl hport ⟨htables.ports, fun q => ?_⟩)
          split_ifs with hq
          · exact hq ▸ hlog
          · exact htables.logs q

/-- A `close_port` comes to its check. -/
theorem removing_standing {port : String} (hcmd : req.cmd = "close_port")
    (hport : req.args.strArg "port" = some port) (hbut : w.SameBut v port)
    (hadvance : v.advance i env (.removing req.args) = some v') :
    ∃ pc', v'.calls i = some pc' ∧ CallPc.Standing w s req cmd v' pc' := by
  obtain rfl := Option.some.inj hadvance
  unfold SerialManager.closePort
  simp only [hport]
  cases hop : v.serial.ports.lookup port with
  | some op => exact standing_succeeds rfl
  | none =>
      refine standing_setCall (.done _ fun _ => ?_)
      have hclosed : w.serial.isPortOpen port = false := by
        simp [SerialManager.isPortOpen, ← hbut.ports port, hop]
      rw [(hbut.of_eq rfl rfl).same_iff, Request.actsFirst_close hcmd hport]
      simp [hclosed]

/-- Where a call stands after its first step. -/
theorem start_standing (hroute : route req = .manager cmd) (htables : w.SameTables v)
    (hstart : v.start i env cmd = some v') :
    ∃ pc', v'.calls i = some pc' ∧ CallPc.Standing w s req cmd v' pc' := by
  obtain ⟨hname, rfl⟩ | ⟨hname, rfl⟩ | ⟨hname, rfl⟩ | ⟨hname, rfl⟩ | ⟨hname, rfl⟩ :=
    route_manager hroute
  · obtain rfl := Option.some.inj hstart
    obtain ⟨hsame, -⟩ | ⟨port, -, -, -, hok⟩ := v.serial.openPort_cases req.args env.opened
    · apply standing_refused
      · exact htables.of_eq (congrArg SerialManager.ports hsame) rfl
      · exact Request.not_actsFirst (by simp [hname])
    · exact standing_succeeds hok
  · simp only [start, startOn] at hstart
    split at hstart
    · rename_i hport
      obtain rfl := Option.some.inj hstart
      exact standing_refused htables (Request.not_actsFirst_of_port hport) _
    · rename_i port hport
      obtain ⟨-, rfl⟩ := whenUnlocked_eq_some hstart
      exact beginStop_standing htables hport _ (by simp [hname]) (by simp)
  · have hacts : ¬ req.ActsFirst w s := Request.not_actsFirst (by simp [hname])
    simp only [start, startOn] at hstart
    split at hstart
    · obtain rfl := Option.some.inj hstart
      exact standing_refused htables hacts _
    · split at hstart
      · obtain rfl := Option.some.inj hstart
        exact standing_refused htables hacts _
      · obtain rfl := Option.some.inj hstart
        exact standing_setCall (.subscribed _ _ _ htables hacts)
  · have hacts : ¬ req.ActsFirst w s := Request.not_actsFirst (by simp [hname])
    simp only [start, startOn] at hstart
    split at hstart
    · obtain rfl := Option.some.inj hstart
      exact standing_refused htables hacts _
    · rename_i port hport
      obtain ⟨-, rfl⟩ := whenUnlocked_eq_some hstart
      cases hok : (v.logs.updateLog port req.args).2.ok with
      | true => exact standing_succeeds hok
      | false =>
          apply standing_refused
          · exact htables.of_eq rfl (congrArg Logs.table (updateLog_of_failed hok))
          · exact hacts
  · have hacts : ¬ req.ActsFirst w s := Request.not_actsFirst (by simp [hname])
    simp only [start, startOn] at hstart
    split at hstart
    · obtain rfl := Option.some.inj hstart
      exact standing_refused htables hacts _
    · rename_i port hport
      obtain ⟨-, rfl⟩ := whenUnlocked_eq_some hstart
      exact beginStop_standing htables hport _ (by simp) fun _ => hacts

theorem advance_standing (hroute : route req = .manager cmd)
    (h : CallPc.Standing w s req cmd v pc) (hadvance : v.advance i env pc = some v') :
    ∃ pc', v'.calls i = some pc' ∧ CallPc.Standing w s req cmd v' pc' := by
  cases h with
  | started htables => exact start_standing hroute htables hadvance
  | subscribed port rx args htables hacts =>
      obtain ⟨-, rfl⟩ := whenUnlocked_eq_some hadvance
      obtain hsame | hok := startLog_cases v.logs port rx args env
      · apply standing_refused
        · exact htables.of_eq rfl (congrArg Logs.table hsame)
        · exact hacts
      · exact standing_succeeds hok
  | stopping port log =>
      simp only [advance] at hadvance
      split_ifs at hadvance
      obtain rfl := Option.some.inj hadvance
      exact standing_succeeds rfl
  | closing args port log hcmd hargs hport hbut =>
      simp only [advance] at hadvance
      split_ifs at hadvance
      obtain rfl := Option.some.inj hadvance
      exact standing_setCall (.removing args port hcmd hargs hport (hbut.of_eq rfl rfl))
  | removing args port hcmd hargs hport hbut =>
      subst hargs
      exact removing_standing hcmd hport hbut hadvance
  | done resp hkept => simp [advance] at hadvance

/-- A stop may also give up waiting. -/
theorem timeOut_standing (h : CallPc.Standing w s req cmd v pc) (hpc : v.calls i = some pc)
    (hstep : v.step (.timeOut i) = some v') :
    ∃ pc', v'.calls i = some pc' ∧ CallPc.Standing w s req cmd v' pc' := by
  simp only [LogWorld.step, hpc] at hstep
  cases h with
  | stopping port log =>
      obtain rfl := Option.some.inj hstep
      exact standing_succeeds rfl
  | closing args port log hcmd hargs hport hbut =>
      obtain rfl := Option.some.inj hstep
      exact standing_setCall (.removing args port hcmd hargs hport (hbut.of_eq rfl rfl))
  | started | subscribed | removing | done => simp at hstep

end LogWorld

end Commmon

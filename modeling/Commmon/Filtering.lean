/-
# Adding keywords to a filter

`add_filter_rx` reads the session's copy to decide between extending a filter
and registering a new one, and answers success in both cases. Whether the
keywords reach a filter that reads the current opening of the port depends on
the task's copy, which is gone, or of a channel that is closed, after another
client has closed the port.
-/

import Commmon.Keywords
import Commmon.Streaming

set_option autoImplicit false

namespace Commmon

/-- A command has decided what it registers, and has not failed. -/
def Pc.Decided : Pc → Prop
  | .send _ _ => True
  | .reply resp => resp.ok = true
  | _ => False

/-- Once `add_filter_rx` has decided, the session has all its keywords. -/
def Client.Added (cl : Client) : Prop :=
  ∀ req pc p keywords, cl.dispatch = some (req, pc) → req.cmd = "add_filter_rx" →
    req.args.strArg "port" = some p → keywordsArg req.args = some keywords → pc.Decided →
    ∃ registered, cl.session.filterSubscriptions.lookup p = some registered ∧
      ∀ kw ∈ keywords, kw ∈ registered

theorem Dispatch.Begins.added {m m' : SerialManager} {cl : Client} {s' : ClientSession}
    {req : Request} {pc : Pc} (h : Begins m cl.session req m' s' pc) :
    Client.Added { cl with session := s', dispatch := some (req, pc) } := by
  intro req' pc' p keywords hpc hcmd' hport' hkeywords' hdecided
  obtain ⟨rfl, rfl⟩ := Prod.mk.inj (Option.some.inj hpc)
  cases h with
  | answered resp hresp =>
      have hfail := (hresp (by simp [hcmd', sessionCommands])).1
      exact absurd (hdecided.symm.trans hfail) (by simp)
  | extended port existing keywords success hcmd hport hkeywords hexisting =>
      obtain rfl := Option.some.inj (hport.symm.trans hport')
      obtain rfl := Option.some.inj (hkeywords.symm.trans hkeywords')
      exact ⟨mergeKeywords existing keywords, by simp,
        fun kw hkw => mem_mergeKeywords.mpr (Or.inr hkw)⟩
  | closed port op resp hcmd hport hopen hok => simp [hcmd] at hcmd'
  | _ => exact hdecided.elim

theorem Client.Advances.added {m : SerialManager} {cl cl' : Client} {req : Request} {pc : Pc}
    (h : cl.Advances m req pc cl') (hpc : cl.dispatch = some (req, pc)) (hfits : pc.Fits req)
    (hcl : cl.Added) : cl'.Added := by
  intro req' pc' p keywords hpc' hcmd' hport' hkeywords' hdecided
  cases h with
  | ensured port resp =>
      obtain ⟨rfl, rfl⟩ := Prod.mk.inj (Option.some.inj hpc')
      cases hfits with
      | closing hcmd hport hcloses => exact hcloses.elim
      | openEnsure hcmd hport hok => simp [hcmd] at hcmd'
  | forgot port resp =>
      obtain ⟨rfl, rfl⟩ := Prod.mk.inj (Option.some.inj hpc')
      cases hfits with
      | closing hcmd hport hcloses => simp [hcmd] at hcmd'
  | missed port msg hmissed hnone =>
      obtain ⟨rfl, rfl⟩ := Prod.mk.inj (Option.some.inj hpc')
      simp [Pc.Decided] at hdecided
  | subscribed port success op hop =>
      obtain ⟨rfl, rfl⟩ := Prod.mk.inj (Option.some.inj hpc')
      cases hfits with
      | closing hcmd hport hcloses => exact hcloses.elim
      | subscribeTake hcmd hport => simp [hcmd] at hcmd'
  | filtered port keywords success op hop =>
      obtain ⟨rfl, rfl⟩ := Prod.mk.inj (Option.some.inj hpc')
      cases hfits with
      | closing hcmd hport hcloses => exact hcloses.elim
      | filterTake hcmd hport hkeywords =>
          obtain rfl := Option.some.inj (hport.symm.trans hport')
          obtain rfl := Option.some.inj (hkeywords.symm.trans hkeywords')
          exact ⟨_, by simp, fun kw hkw => hkw⟩
  | readEnsured port clear =>
      obtain ⟨rfl, rfl⟩ := Prod.mk.inj (Option.some.inj hpc')
      exact hdecided.elim
  | drained port clear s hround hpc'' =>
      obtain ⟨rfl, rfl⟩ := Prod.mk.inj (Option.some.inj (hpc.symm.trans hpc'))
      exact hdecided.elim
  | answered port clear s hround =>
      obtain ⟨rfl, rfl⟩ := Prod.mk.inj (Option.some.inj hpc')
      cases hfits with
      | closing hcmd hport hcloses => exact hcloses.elim
      | drain hcmd hport hclear => simp [hcmd] at hcmd'
  | failed cmd success hended =>
      obtain ⟨rfl, rfl⟩ := Prod.mk.inj (Option.some.inj hpc')
      simp [Pc.Decided, deliveryFailed] at hdecided
  | sent cmd success hlive =>
      obtain ⟨rfl, rfl⟩ := Prod.mk.inj (Option.some.inj hpc')
      exact hcl _ _ p keywords hpc hcmd' hport' hkeywords' trivial
  | ignored cmd next hended =>
      obtain ⟨rfl, rfl⟩ := Prod.mk.inj (Option.some.inj hpc')
      cases hfits with
      | closing hcmd hport hcloses => simp [hcmd] at hcmd'
      | dropping hcmd hdrop => rcases hcmd with hcmd | hcmd <;> simp [hcmd] at hcmd'
  | told cmd next hlive =>
      obtain ⟨rfl, rfl⟩ := Prod.mk.inj (Option.some.inj hpc')
      cases hfits with
      | closing hcmd hport hcloses => simp [hcmd] at hcmd'
      | dropping hcmd hdrop => rcases hcmd with hcmd | hcmd <;> simp [hcmd] at hcmd'
  | wrote resp => simp at hpc'

theorem Client.Steps.added {m m' : SerialManager} {cl cl' : Client} {ce : ClientEvent}
    (h : cl.Steps m ce m' cl') (hcl : cl.Added)
    (hfits : ∀ req pc, cl.dispatch = some (req, pc) → pc.Fits req) : cl'.Added := by
  cases h with
  | began req env m' s' pc hidle hbegins => exact hbegins.added
  | advanced req pc cl' hpc hadvances => exact hadvances.added hpc (hfits req pc hpc) hcl
  | streamed order writeOk task queue lines hrunning hmoves => exact hcl

private theorem added_of_run {es : List Event} {w : World} (hrun : daemon.run es = some w)
    {c : ClientId} : ∀ cl, w.clients c = some cl → cl.Added := by
  intro cl hclient
  refine client_history (P := fun _ _ cl => cl.Added) ?_ ?_ ?_ ?_ hrun hclient
  · intro es w req pc p keywords h
    simp [Client.new] at h
  · intro es w w' cl _ _ req pc p keywords h
    simp [Client.disconnect] at h
  · intro es w w' cl cl' ce hes _ hclient _ _ hsteps ih
    exact hsteps.added ih fun req pc hpc => fits_of_run hes hclient hpc
  · intro es w w' e cl _ _ _ _ _ ih
    exact ih

/-- The client issues no request. -/
def Event.Quiet (c : ClientId) (e : Event) : Prop := ∀ req env, e ≠ .client c (.request req env)

private theorem Client.Steps.session_of_idle {m m' : SerialManager} {cl cl' : Client}
    {ce : ClientEvent} (h : cl.Steps m ce m' cl') (hidle : cl.Idle)
    (hquiet : ∀ req env, ce ≠ .request req env) : cl'.Idle ∧ cl'.session = cl.session := by
  cases h with
  | began req env m' s' pc hnone hbegins => exact absurd rfl (hquiet req env)
  | advanced req pc cl' hpc hadvances =>
      obtain ⟨resp, rfl⟩ := hidle req pc hpc
      cases hadvances with
      | missed port pc msg hmissed hnone => simp at hmissed
      | wrote resp => exact ⟨fun req' pc' h => by simp at h, rfl⟩
  | streamed order writeOk task queue lines hrunning hmoves => exact ⟨hidle, rfl⟩

/-- While a client that has its answer issues no request, its session stays as it
is until it leaves. -/
theorem session_of_quiet {c : ClientId} {es : List Event} {w w' : World} {cl : Client}
    (hquiet : ∀ e ∈ es, e.Quiet c) (hclient : w.clients c = some cl) (hidle : cl.Idle)
    (hrun : daemon.runFrom w es = some w') : ∃ cl', w'.clients c = some cl' ∧ cl'.Idle ∧
      (cl'.task.isEnded = false → cl'.session = cl.session) := by
  refine daemon.runFrom_invariant_on (P := fun w => ∃ cl', w.clients c = some cl' ∧ cl'.Idle ∧
    (cl'.task.isEnded = false → cl'.session = cl.session)) (A := Event.Quiet c) ?_ hquiet
    ⟨cl, hclient, hidle, fun _ => rfl⟩ hrun
  rintro w e w' hlabel ⟨cl', hcl', hidle', hsession⟩ hstep
  cases World.step_seen hstep c with
  | joined he hnone hclient' hserial => simp [hnone] at hcl'
  | left cl₀ he hclient hidle₀ hclient' hserial =>
      refine ⟨_, hclient', fun req pc hpc => by simp [Client.disconnect] at hpc, ?_⟩
      simp [Client.disconnect, StreamTask.stopped, StreamTask.isEnded]
  | own cl₁ cl'' ce he hclient hconnected hsteps hclient' =>
      obtain rfl := Option.some.inj (hclient.symm.trans hcl')
      obtain ⟨hidle'', hsession'⟩ := hsteps.session_of_idle hidle'
        (fun req env hce => hlabel req env (hce ▸ he))
      refine ⟨cl'', hclient', hidle'', fun hlive => ?_⟩
      exact hsession'.trans (hsession (hsteps.running hlive))
  | elsewhere hclient hchanges hevent => exact ⟨cl', hclient.trans hcl', hidle', hsession⟩

private theorem Client.Idle.closing_eq {cl : Client} (h : cl.Idle) : cl.closing = none := by
  unfold closing
  split
  · rename_i req pc hpc
    obtain ⟨resp, rfl⟩ := h req pc hpc
    rfl
  · rfl

/-- A registered filter, with nothing on its way, is served by the current channel
exactly if no other client has closed the port since its receiver was taken. -/
theorem filter_served_iff {es : List Event} {w : World} (hrun : daemon.run es = some w)
    {c : ClientId} {cl : Client} (hclient : w.clients c = some cl)
    (hlive : cl.task.isEnded = false) (hidle : cl.Idle) (hqueue : cl.queue = []) {p : String}
    {registered : List String}
    (hregistered : cl.session.filterSubscriptions.lookup p = some registered) :
    (∃ st op, cl.task.maps.filterStates.lookup p = some st ∧
      w.serial.ports.lookup p = some op ∧ st.rx.chan = op.tx ∧ st.keywords = registered) ↔
      ¬ daemon.OccurredSince (ClosedByOther c p) (FilterTakes c p) es := by
  have hinv := Feed.inv_of_run (filterFeed_lawful p) (filterFeed_tracked p) (c := c) hrun cl
    hclient hlive
  have hpending : ((filterFeed p).view p w.serial cl
      (daemon.OccurredSince (ClosedByOther c p) (FilterTakes c p) es)).pending = [] := by
    simp [Feed.view, Client.pending, hqueue, hidle.unsent_eq]
  have hserved := hinv.served_iff hpending hregistered
  have hbad : (daemon.OccurredSince (ClosedByOther c p) (FilterTakes c p) es ∨
      cl.closing = some p) ↔ daemon.OccurredSince (ClosedByOther c p) (FilterTakes c p) es :=
    or_iff_left (by simp [hidle.closing_eq])
  rw [← hbad]
  refine Iff.trans ?_ hserved
  constructor
  · rintro ⟨st, op, hst, hop, htx, hkeywords⟩
    exact ⟨op.tx, by simp [Feed.view, hop], by simp [Feed.view, filterFeed, hst, htx, hkeywords]⟩
  · rintro ⟨k, hcurrent, hslot⟩
    obtain ⟨op, hop, rfl⟩ := Option.map_eq_some_iff.mp hcurrent
    obtain ⟨st, hst, heq⟩ := Option.map_eq_some_iff.mp hslot
    exact ⟨st, op, hst, hop, (Prod.mk.inj heq).1, (Prod.mk.inj heq).2⟩

/-- When a successful `add_filter_rx` is installed. Once the queue has drained,
with no further request of the client, the task filters the current channel for all
the keywords exactly if it still runs and no other client has closed the port since
the filter's receiver was taken. -/
theorem addFilter_installed_iff {pre post : List Event} {w₀ w : World}
    (hpre : daemon.run pre = some w₀) (hrun : daemon.run (pre ++ post) = some w)
    {c : ClientId} {cl₀ cl : Client} {req : Request} {resp : Response} {p : String}
    {keywords : List String} (hclient₀ : w₀.clients c = some cl₀)
    (hreturned : cl₀.dispatch = some (req, .reply resp)) (hok : resp.ok = true)
    (hcmd : req.cmd = "add_filter_rx") (hport : req.args.strArg "port" = some p)
    (hkeywords : keywordsArg req.args = some keywords) (hquiet : ∀ e ∈ post, e.Quiet c)
    (hclient : w.clients c = some cl) (hqueue : cl.queue = []) :
    (∃ st op, cl.task.maps.filterStates.lookup p = some st ∧
      w.serial.ports.lookup p = some op ∧ st.rx.chan = op.tx ∧
      ∀ kw ∈ keywords, kw ∈ st.keywords) ↔
      cl.task.isEnded = false ∧
        ¬ daemon.OccurredSince (ClosedByOther c p) (FilterTakes c p) (pre ++ post) := by
  obtain ⟨registered, hregistered, hall⟩ :=
    added_of_run hpre cl₀ hclient₀ req _ p keywords hreturned hcmd hport hkeywords hok
  have hidle₀ : cl₀.Idle := by
    intro req' pc hpc
    obtain ⟨-, rfl⟩ := Prod.mk.inj (Option.some.inj (hreturned.symm.trans hpc))
    exact ⟨resp, rfl⟩
  obtain ⟨w₁, hw₁, hrest⟩ := daemon.run_append_eq_some.mp hrun
  obtain rfl := Option.some.inj (hpre.symm.trans hw₁)
  obtain ⟨cl', hcl', hidle, hsession⟩ := session_of_quiet hquiet hclient₀ hidle₀ hrest
  obtain rfl := Option.some.inj (hclient.symm.trans hcl')
  cases hended : cl.task.isEnded with
  | true =>
      obtain ⟨hmaps, -⟩ := halted_of_run hrun hclient hended
      simp [hmaps]
  | false =>
      rw [← hsession hended] at hregistered
      have hserved := filter_served_iff hrun hclient hended hidle hqueue hregistered
      refine Iff.trans ?_ (hserved.trans (and_iff_right rfl).symm)
      constructor
      · rintro ⟨st, op, hst, hop, htx, -⟩
        have hrecord := Feed.record_of_queued (filterFeed_lawful p) (filterFeed_tracked p) hrun
          hclient hidle st.rx.chan st.keywords (by simp [hqueue, filterFeed, hst])
        exact ⟨st, op, hst, hop, htx, Option.some.inj (hrecord.symm.trans hregistered)⟩
      · rintro ⟨st, op, hst, hop, htx, rfl⟩
        exact ⟨st, op, hst, hop, htx, hall⟩

/-- A request that names a port and a keyword. -/
def keywordRequest (cmd port keyword : String) : Request :=
  ⟨cmd, .object [("port", .string port), ("keywords", .string keyword)]⟩

/-- Client 0 filters a port, client 1 closes it, the task drops the filter, client
1 opens the port again, and client 0 adds a keyword. -/
def addedAfterReopening : List Event :=
  [.connect 0, .connect 1] ++ issue 0 (portRequest "open_port" "P") 2 ++
    issue 0 (keywordRequest "filter_rx" "P" "A") 3 ++ [stream 0 []] ++
    issue 1 (portRequest "close_port" "P") 2 ++ [.endReadTask 0] ++
    [stream 0 [], stream 0 ["P"], stream 0 [], stream 0 []] ++
    issue 1 (portRequest "open_port" "P") 2 ++
    issue 0 (keywordRequest "add_filter_rx" "P" "B") 1

/-- The streaming task wakes up and takes the new keywords off its queue. -/
def drainsQueue : List Event := [stream 0 [], stream 0 []]

private theorem addedAfterReopening_ok : (daemon.run addedAfterReopening).any (fun w =>
    (w.clients 0).any fun cl =>
      cl.dispatch.any fun x =>
        x.1.cmd == "add_filter_rx" && x.1.args.strArg "port" == some "P" &&
          keywordsArg x.1.args == some ["B"] && match x.2 with
            | .reply resp => resp.ok
            | _ => false) = true := by
  decide +kernel

private theorem addedAfterReopening_notInstalled :
    (daemon.run (addedAfterReopening ++ drainsQueue)).any (fun w =>
      (w.serial.ports.lookup "P").isSome && (w.clients 0).any fun cl =>
        cl.queue.isEmpty && !cl.task.isEnded &&
          (cl.task.maps.filterStates.lookup "P").isNone) = true := by
  decide +kernel

/-- What the run reaches, as propositions. -/
theorem exists_notInstalled : ∃ w₀ w cl₀ cl req resp op,
    daemon.run addedAfterReopening = some w₀ ∧
    daemon.run (addedAfterReopening ++ drainsQueue) = some w ∧ w₀.clients 0 = some cl₀ ∧
    cl₀.dispatch = some (req, .reply resp) ∧ resp.ok = true ∧ req.cmd = "add_filter_rx" ∧
    req.args.strArg "port" = some "P" ∧ keywordsArg req.args = some ["B"] ∧
    w.clients 0 = some cl ∧ cl.queue = [] ∧ cl.task.isEnded = false ∧
    w.serial.ports.lookup "P" = some op ∧ cl.task.maps.filterStates.lookup "P" = none := by
  obtain ⟨w₀, hw₀, hany₀⟩ := (Option.any_eq_true _ _).mp addedAfterReopening_ok
  obtain ⟨cl₀, hcl₀, hany₀⟩ := (Option.any_eq_true _ _).mp hany₀
  obtain ⟨⟨req, pc⟩, hpc, hreq⟩ := (Option.any_eq_true _ _).mp hany₀
  simp only [Bool.and_eq_true, beq_iff_eq] at hreq
  obtain ⟨⟨⟨hcmd, hport⟩, hkeywords⟩, hresp⟩ := hreq
  obtain ⟨w, hw, htest⟩ := (Option.any_eq_true _ _).mp addedAfterReopening_notInstalled
  simp only [Bool.and_eq_true] at htest
  obtain ⟨hopen, hany⟩ := htest
  obtain ⟨op, hop⟩ := Option.isSome_iff_exists.mp hopen
  obtain ⟨cl, hcl, htest⟩ := (Option.any_eq_true _ _).mp hany
  simp only [Bool.and_eq_true, Bool.not_eq_true', Option.isNone_iff_eq_none,
    List.isEmpty_iff] at htest
  obtain ⟨⟨hqueue, hlive⟩, hnone⟩ := htest
  cases pc with
  | reply resp =>
      exact ⟨w₀, w, cl₀, cl, req, resp, op, hw₀, hw, hcl₀, hpc, hresp, hcmd, hport, hkeywords,
        hcl, hqueue, hlive, hop, hnone⟩
  | _ => simp at hresp

private theorem drainsQueue_quiet :
    ∀ e ∈ drainsQueue, ∀ d req env, e ≠ .client d (.request req env) := by
  simp [drainsQueue, stream]

/-- A successful `add_filter_rx` that installs nothing, although nobody issues a
request after it. -/
theorem addFilter_not_always_installed :
    ¬ ∀ pre post w₀ w c cl₀ cl req resp p keywords, daemon.run pre = some w₀ →
      daemon.run (pre ++ post) = some w → w₀.clients c = some cl₀ →
      cl₀.dispatch = some (req, .reply resp) → resp.ok = true → req.cmd = "add_filter_rx" →
      req.args.strArg "port" = some p → keywordsArg req.args = some keywords →
      (∀ e ∈ post, ∀ d req env, e ≠ .client d (.request req env)) →
      w.clients c = some cl → cl.queue = [] → cl.task.isEnded = false →
      ∃ st op, cl.task.maps.filterStates.lookup p = some st ∧
        w.serial.ports.lookup p = some op ∧ st.rx.chan = op.tx ∧
        ∀ kw ∈ keywords, kw ∈ st.keywords := by
  intro hinstalled
  obtain ⟨w₀, w, cl₀, cl, req, resp, op, hw₀, hw, hcl₀, hpc, hok, hcmd, hport, hkeywords, hcl,
    hqueue, hlive, hop, hnone⟩ := exists_notInstalled
  obtain ⟨st, -, hst, -⟩ := hinstalled addedAfterReopening drainsQueue w₀ w 0 cl₀ cl req resp "P"
    ["B"] hw₀ hw hcl₀ hpc hok hcmd hport hkeywords drainsQueue_quiet hcl hqueue hlive
  simp [hnone] at hst

/-- The theorem at the run that adds a keyword after the port was opened again. -/
theorem addFilter_installed_iff_reopened : ∃ w cl,
    daemon.run (addedAfterReopening ++ drainsQueue) = some w ∧ w.clients 0 = some cl ∧
    ((∃ st op, cl.task.maps.filterStates.lookup "P" = some st ∧
      w.serial.ports.lookup "P" = some op ∧ st.rx.chan = op.tx ∧
      ∀ kw ∈ ["B"], kw ∈ st.keywords) ↔
      cl.task.isEnded = false ∧ ¬ daemon.OccurredSince (ClosedByOther 0 "P") (FilterTakes 0 "P")
        (addedAfterReopening ++ drainsQueue)) := by
  obtain ⟨w₀, w, cl₀, cl, req, resp, op, hw₀, hw, hcl₀, hpc, hok, hcmd, hport, hkeywords, hcl,
    hqueue, hlive, hop, hnone⟩ := exists_notInstalled
  exact ⟨w, cl, hw, hcl, addFilter_installed_iff hw₀ hw hcl₀ hpc hok hcmd hport hkeywords
    (fun e he req env => drainsQueue_quiet e he 0 req env) hcl hqueue⟩

end Commmon

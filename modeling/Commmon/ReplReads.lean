/-
# What `read` shows at the prompt

Whoever reads a port at the prompt again and again wants to see what its device has
sent, without repetition. The lines that the prompt prints for the reads of a port
are, over the whole session, a part of what the device has delivered, in its order;
what was refused goes to the other stream.
-/

import Commmon.ReadRecord
import Commmon.Replies
import Commmon.ReplSession

set_option autoImplicit false

namespace Commmon

/-- The request reads the port. -/
def Request.reads (p : String) (req : Request) : Bool :=
  decide (req.cmd = "read_port" ∧ req.args.strArg "port" = some p)

private theorem reads_iff {p : String} {req : Request} :
    req.reads p = true ↔ req.cmd = "read_port" ∧ req.args.strArg "port" = some p :=
  decide_eq_true_iff

section

variable {w : World} {c : ClientId} {cl : Client}

private theorem World.exchanges_prefix_returns (hclient : w.clients c = some cl) :
    w.exchanges c <+: cl.returns := by
  rw [exchanges, writtenTo, hclient, Client.returns]
  exact ⟨_, congrArg (· ++ _) (List.filterMap_congr fun o _ => by cases o <;> rfl)⟩

/-- What is returned answers a request that has been taken up. -/
theorem World.mem_begun_of_returns (hclient : w.clients c = some cl) {r : Request × Response}
    (hr : r ∈ cl.returns) : r.1 ∈ w.begun c := by
  obtain hwritten | hpending := List.mem_append.mp hr
  · refine List.mem_append_left _ (List.mem_map_of_mem ?_)
    rw [exchanges, writtenTo, hclient]
    obtain ⟨o, ho, hsome⟩ := List.mem_filterMap.mp hwritten
    refine List.mem_filterMap.mpr ⟨o, ho, ?_⟩
    cases o with
    | push line => cases hsome
    | response req resp => exact hsome
  · refine List.mem_append_right _ ?_
    rw [underWay, hclient]
    rcases hpc : cl.dispatch with - | ⟨req, pc⟩
    · simp [hpc] at hpending
    · cases pc with
      | reply resp =>
          obtain rfl : r = (req, resp) := by simpa [hpc] using hpending
          simp [hpc]
      | _ => simp [hpc] at hpending

end

namespace Repl

def Line.isOut : Line → Bool
  | .out _ => true
  | .err _ => false

/-- What a list of entries is shown as. -/
def readLines (L : List Arrival) : List Line :=
  if L = [] then [.out "(비어 있음)"]
  else L.map fun a => .out s!"[{a.entry.timestamp}] {Utf8Lossy.decode a.entry.data}"

section

variable {showFloat : Rat → NumLit} {readFloat : NumLit → Rat} {c : ClientId}
  {w w' : Session showFloat readFloat} {p : String}

/-- What has been printed for the reads of the port, refusals apart. -/
def Session.readOutput (p : String) (w : Session showFloat readFloat) : List Line :=
  (((w.wire.calls.zip w.answers).filter fun x => x.1.val.reads p).map Prod.snd).flatMap fun line =>
    ((Shown.answer line).lines showFloat readFloat).filter Line.isOut

private theorem filter_readLines (L : List Arrival) :
    (readLines L).filter Line.isOut = readLines L := by
  rw [List.filter_eq_self]
  intro line hline
  unfold readLines at hline
  split_ifs at hline
  · rw [List.mem_singleton.mp hline]
    rfl
  · obtain ⟨a, -, rfl⟩ := List.mem_map.mp hline
    rfl

/-- A read is shown as its entries, and prints nothing here if it was refused. -/
theorem output_read {req : Request} {resp : Response} (hanswers : resp.Answers req.cmd)
    (hreads : req.reads p = true) :
    ((Shown.answer (resp.toJson showFloat).print).lines showFloat readFloat).filter Line.isOut =
      (readOf p (req, resp)).toList.flatMap readLines := by
  obtain ⟨hcmd, hport⟩ := reads_iff.mp hreads
  have hread : readOf p (req, resp) = resp.entries? := if_pos ⟨hcmd, hport⟩
  rw [hread]
  cases hanswers with
  | refused hok hdata =>
      obtain ⟨ok, data, error⟩ := resp
      simp only at hok hdata
      subst hok hdata
      have hfaithful : Response.Faithful ⟨false, none, error⟩ := fun data hdata => by cases hdata
      rw [Shown.lines, printResponse_print hfaithful]
      cases error <;> simp [Response.display, Response.entries?, Line.isOut]
  | message msg hmem => simp [hcmd, registrationCommands] at hmem
  | read b hread =>
      rw [Shown.lines, printResponse_print (faithful_entries b), display_entries]
      have hfilter := filter_readLines b
      rw [readLines] at hfilter
      rw [hfilter]
      simp [Response.entries?, Response.success, readLines]
  | managed hmanaged hother => exact absurd hcmd hother

/-- A typed read clears the buffer. -/
theorem parseCommand_read {input : String} {req : Request} (h : parseCommand input = some req)
    (hcmd : req.cmd = "read_port") : Dispatch.clearArg req.args = true := by
  unfold parseCommand at h
  split at h
  · cases h
  · unfold parseWords at h
    split at h <;> simp only [Option.some.injEq, reduceCtorEq] at h <;> subst h
    all_goals first
      | rfl
      | simp at hcmd

private theorem Command.reads_asRead (call : Command) :
    (asRead showFloat readFloat call.val).reads p = call.val.reads p := by
  rw [Request.reads, Value.strArg, call.get_asRead]
  rfl

private theorem Command.clearArg_asRead (call : Command) (hcmd : call.val.cmd = "read_port") :
    Dispatch.clearArg (asRead showFloat readFloat call.val).args = true := by
  obtain ⟨input, hinput⟩ := call.property
  rw [Dispatch.clearArg, call.get_asRead]
  exact parseCommand_read hinput hcmd

/-- Answers of the exchanges whose requests were those of the commands. -/
theorem filter_zip_answers {α β γ δ : Type} {ask : α → β} (answer : γ → δ) (P : α → Bool)
    (Q : β → Bool) (hask : ∀ a, Q (ask a) = P a) {exchanges : List (β × γ)} :
    ∀ {calls : List α}, exchanges.map Prod.fst <+: calls.map ask →
      ((calls.zip (exchanges.map fun x => answer x.2)).filter fun x => P x.1).map Prod.snd =
        (exchanges.filter fun x => Q x.1).map fun x => answer x.2 := by
  induction exchanges with
  | nil => simp
  | cons x exchanges ih =>
      intro calls h
      cases calls with
      | nil => simp at h
      | cons a calls =>
          obtain ⟨hx, h⟩ := List.cons_prefix_cons.mp h
          have hsame : Q x.1 = P a := (congrArg Q hx).trans (hask a)
          rw [List.map_cons, List.zip_cons_cons, List.filter_cons, List.filter_cons, hsame]
          split_ifs
          · rw [List.map_cons, List.map_cons, ih h]
          · exact ih h

/-- The output for the reads among some exchanges. -/
theorem flatMap_outputs {exchanges : List (Request × Response)}
    (hanswers : ∀ x ∈ exchanges, x.2.Answers x.1.cmd) :
    ((exchanges.filter fun x => x.1.reads p).map fun x =>
        (x.2.toJson showFloat).print).flatMap (fun line =>
          ((Shown.answer line).lines showFloat readFloat).filter Line.isOut) =
      (exchanges.filterMap (readOf p)).flatMap readLines := by
  induction exchanges with
  | nil => simp
  | cons x exchanges ih =>
      obtain ⟨hx, hrest⟩ := List.forall_mem_cons.mp hanswers
      by_cases hread : x.1.reads p = true
      · rw [List.filter_cons, if_pos hread, List.map_cons, List.flatMap_cons, ih hrest,
          output_read hx hread]
        cases hlist : readOf p x with
        | none => simp [List.filterMap_cons_none hlist]
        | some L => simp [List.filterMap_cons_some hlist]
      · have hnone : readOf p x = none := if_neg fun h => hread (reads_iff.mpr h)
        rw [List.filter_cons, if_neg hread, ih hrest, List.filterMap_cons_none hnone]

/-- The lists that have been shown. -/
def Session.readLists (c : ClientId) (p : String) (w : Session showFloat readFloat) :
    List (List Arrival) :=
  ((w.wire.world.exchanges c).take w.answers.length).filterMap (readOf p)

/-- The output of the reads is that of the lists. -/
theorem Session.Kept.readOutput (h : w.Kept c)
    (hanswers : ∀ x ∈ w.wire.world.exchanges c, x.2.Answers x.1.cmd) :
    w.readOutput p = (w.readLists c p).flatMap readLines := by
  have hzip := filter_zip_answers (fun resp : Response => (resp.toJson showFloat).print)
    (fun call : Command => call.val.reads p) (Request.reads p) (fun call => call.reads_asRead)
    (h.exchanges_take w.answers.length)
  rw [← h.answers_eq] at hzip
  refine (congrArg (fun lines : List (List Char) => lines.flatMap fun line =>
    ((Shown.answer line).lines showFloat readFloat).filter Line.isOut) hzip).trans ?_
  exact flatMap_outputs fun x hx => hanswers x (List.mem_of_mem_take hx)

private theorem Session.Kept.alwaysClears (h : w.Kept c) {cl : Client}
    (hclient : w.wire.world.clients c = some cl) : cl.AlwaysClears p := by
  intro r hr hread
  have hbegun := (h.wired.begun_prefix fun _ => rfl).subset
    (World.mem_begun_of_returns hclient hr)
  obtain ⟨call, -, hcall⟩ := List.mem_map.mp hbegun
  have hasked : asRead showFloat readFloat call.val = r.1 := hcall
  have hcmd : r.1.cmd = "read_port" := by
    by_contra hother
    simp [readOf_eq_none_of_cmd hother] at hread
  rw [← hasked] at hcmd ⊢
  exact call.clearArg_asRead hcmd

/-- The steps that the daemon takes. -/
def Session.daemonEvents (c : ClientId) (w : Session showFloat readFloat) :
    SessionEvent → List Commmon.Event
  | .wire e => w.wire.daemonEvents c e
  | .take | .hangUp | .typed .. | .answered | .closed | .timeout => []

variable (showFloat readFloat c) in
/-- Those of a run of the session. -/
def daemonRun (es : List SessionEvent) : List Commmon.Event :=
  (session showFloat readFloat c).collect (Session.daemonEvents c)
    (session showFloat readFloat c).init es

private theorem Session.wire_forward {line : List Char} (h : w.forward line = some w') :
    w'.wire = w.wire := by
  unfold Session.forward at h
  split_ifs at h <;> exact Option.some.inj h ▸ rfl

/-- The receiving task leaves the wire as it is. -/
theorem Session.wire_take (h : w.take = some w') : w'.wire = w.wire := by
  unfold Session.take at h
  split at h
  · dsimp only at h
    split at h
    · exact Option.some.inj h ▸ rfl
    · split at h
      · exact Option.some.inj h ▸ rfl
      · split at h
        · exact (wire_forward h).trans rfl
        · split at h
          · exact Option.some.inj h ▸ rfl
          · exact (wire_forward h).trans rfl
  · cases h

/-- Typing adds a line to what the daemon has not read, or leaves the wire as it is. -/
theorem Session.world_submit {text : String} {sent : Bool} (h : w.submit c text sent = some w') :
    w'.wire.world = w.wire.world := by
  unfold Session.submit at h
  dsimp only at h
  split at h
  · exact Option.some.inj h ▸ rfl
  · split at h
    · exact Option.some.inj h ▸ rfl
    · split at h
      · exact Option.some.inj h ▸ rfl
      · split at h
        · exact Option.some.inj h ▸ rfl
        · split at h
          · obtain ⟨wire, hwire, rfl⟩ := Option.map_eq_some_iff.mp h
            exact (Option.some.inj (Attachment.runFrom_daemonEvents showFloat c hwire)).symm
          · exact Option.some.inj h ▸ rfl

/-- The two tasks of the prompt leave the daemon as it is. -/
theorem Session.runFrom_daemonEvents {e : SessionEvent} (hstep : w.step c e = some w') :
    daemon.runFrom w.wire.world (w.daemonEvents c e) = some w'.wire.world := by
  cases e with
  | wire e =>
      cases e with
      | call k => cases hstep
      | serve | daemon | notify | receive =>
          obtain ⟨wire, hwire, rfl⟩ := Option.map_eq_some_iff.mp hstep
          exact Attachment.runFrom_daemonEvents showFloat c hwire
  | take => exact congrArg (fun wire => some wire.world) (wire_take hstep).symm
  | hangUp => exact Option.some.inj hstep ▸ rfl
  | typed input sent =>
      simp only [Session.step] at hstep
      split at hstep
      · exact congrArg some (world_submit hstep).symm
      · exact Option.some.inj hstep ▸ rfl
      · cases hstep
  | answered | closed | timeout =>
      simp only [Session.step] at hstep
      split at hstep
      · exact Option.some.inj hstep ▸ rfl
      · cases hstep

private theorem daemonRun_eq {es : List SessionEvent}
    (hrun : (session showFloat readFloat c).run es = some w) :
    daemon.run (daemonRun showFloat readFloat c es) = some w.wire.world :=
  StepSystem.runFrom_collect (S := session showFloat readFloat c) (T := daemon)
    (f := fun w => w.wire.world)
    (fun _ _ _ hstep => Session.runFrom_daemonEvents hstep) hrun

/-- What is shown of a port was delivered by its device, and is shown once. The lines that
have been printed for the reads of a port, over a whole session, are those of lists of
entries that the port's device delivered in it; of each opening they are, put together, a part
of what was delivered in it, in that order. -/
theorem reads_shown_once {es : List SessionEvent}
    (hrun : (session showFloat readFloat c).run es = some w) (p : String) :
    daemon.run (daemonRun showFloat readFloat c es) = some w.wire.world ∧
      ∃ lists : List (List Arrival), w.readOutput p = lists.flatMap readLines ∧
        (∀ a ∈ lists.flatten, a.From p (daemonRun showFloat readFloat c es)) ∧
        ∀ k, ((lists.flatten.filter (·.chan = k)).map (·.entry)).Sublist
          (deliveries k (daemonRun showFloat readFloat c es)) := by
  have hkept := Session.kept_of_run hrun
  have hds := daemonRun_eq hrun
  refine ⟨hds, w.readLists c p, ?_⟩
  cases hclient : w.wire.world.clients c with
  | none =>
      have hnone : w.wire.world.exchanges c = [] := by
        simp [World.exchanges, World.writtenTo, hclient]
      have hlists : w.readLists c p = [] := by simp [Session.readLists, hnone]
      refine ⟨hkept.readOutput (by simp [hnone]), ?_, fun k => ?_⟩
      · simp [hlists]
      · simp [hlists]
  | some cl =>
      have hbegin : (w.readLists c p).flatten <+: cl.readEntries p :=
        (((List.take_prefix _ _).trans
          (World.exchanges_prefix_returns hclient)).filterMap _).flatten
      refine ⟨hkept.readOutput ?_, fun a ha => ?_, fun k => ?_⟩
      · intro x hx
        exact (answered_of_run hds hclient).returns x
          ((World.exchanges_prefix_returns hclient).subset hx)
      · obtain ⟨r, hr, L, hread, ha⟩ := Client.mem_readEntries.mp (hbegin.subset ha)
        exact (client_sourced hds hclient).read r hr L hread a ha
      · exact ((hbegin.sublist.filter _).map _).trans
          (readEntries_sublist hds hclient (hkept.alwaysClears hclient) k)

end

/-- A line is typed, `dispatch` goes on, and the answer is printed. -/
def typedRead (steps bytes : ℕ) : List SessionEvent :=
  [.typed (.line "read P") true, .wire (.serve ⟨.ok (), .successMsg ""⟩ "")] ++
    List.replicate steps (onDaemon (.client 0 .dispatch)) ++
    [.wire (.receive bytes), .take, .answered]

/-- Another client has opened the port. An entry comes after the first read, and the port
is read twice more. -/
def readSession : List SessionEvent :=
  [onDaemon (.connect 0), onDaemon (.connect 1)] ++
    (issue 1 (portRequest "open_port" "P") 2).map onDaemon ++ typedRead 3 22 ++
    [onDaemon (.deliver 0 ⟨"12:00", [65]⟩)] ++ typedRead 4 54 ++ typedRead 3 22

private theorem readSession_shown :
    ((session (fun _ => .ofNat 0) (fun _ => 0) 0).run readSession).any (fun w =>
      decide (w.readOutput "P" =
        [.out "(비어 있음)", .out "[12:00] A", .out "(비어 있음)"])) = true := by
  decide +kernel

theorem reads_shown_once_twice : ∃ w,
    (session (fun _ => .ofNat 0) (fun _ => 0) 0).run readSession = some w ∧
      w.readOutput "P" = [.out "(비어 있음)", .out "[12:00] A", .out "(비어 있음)"] ∧
      ∃ lists : List (List Arrival), w.readOutput "P" = lists.flatMap readLines ∧
        ∀ k, ((lists.flatten.filter (·.chan = k)).map (·.entry)).Sublist
          (deliveries k (daemonRun (fun _ => .ofNat 0) (fun _ => 0) 0 readSession)) := by
  obtain ⟨w, hrun, hshown⟩ := (Option.any_eq_true _ _).mp readSession_shown
  obtain ⟨-, lists, houtput, -, hsub⟩ := reads_shown_once hrun "P"
  exact ⟨w, hrun, of_decide_eq_true hshown, lists, houtput, hsub⟩

end Repl

end Commmon

/-
# What the context of a hit shows

The context of a hit is cut out of carry and entry at byte offsets and decoded
lossily, so it may begin and end within a character. The match itself lies
within the cut, and decoding cannot change encoded text: the keyword stands in
the context, whatever bytes surround it. What a streaming task writes has been
reported by a scan.
-/

import Commmon.Filtering
import Commmon.LogKeyword
import Commmon.Pushes

set_option autoImplicit false

namespace Commmon

open PatternSearch

theorem occursAt_of_mem_hitOffsets {keyword : String} {carry data : List UInt8} {abs : ℕ}
    (h : abs ∈ hitOffsets keyword carry data) :
    OccursAt (asBytes keyword) (carry ++ data) abs := by
  unfold hitOffsets at h
  split_ifs at h with hne
  · exact absurd h List.not_mem_nil
  · exact (mem_occurrences hne).mp (List.mem_filter.mp h).1

/-- The keyword stands in the context that is cut around its match. -/
theorem keyword_infix_context {hay : List UInt8} {keyword : String} {abs : ℕ}
    (h : OccursAt (asBytes keyword) hay abs) (hne : asBytes keyword ≠ []) (timestamp : String) :
    keyword.toList <:+: (hitAt hay timestamp keyword abs).context.toList := by
  have hend := h.add_length_le hne
  simp only [hitAt, Utf8Lossy.toList_decode]
  apply Utf8Lossy.infix_chars
  rw [← asBytes_eq]
  exact OccursAt.infix_slice h (Nat.sub_le abs 20) (le_min (Nat.le_add_right _ 20) hend)

/-- What a streaming task may write: an entry, or a hit of some scan. -/
def Push.Reported : Push → Prop
  | .rxData _ _ => True
  | .filterHit _ hit => ∃ (st st' : FilterState) (entry : RxEntry) (hits : List (List FilterHit)),
      st.scan entry = some (hits, st') ∧ hit ∈ hits.flatten

/-- Every hit of a scan shows its keyword. -/
theorem FilterState.keyword_infix_of_scan {st st' : FilterState} {entry : RxEntry}
    {hits : List (List FilterHit)} (hscan : st.scan entry = some (hits, st')) {hit : FilterHit}
    (hmem : hit ∈ hits.flatten) : hit.keyword.toList <:+: hit.context.toList := by
  rw [FilterState.scan_eq] at hscan
  obtain ⟨rfl, -⟩ := Prod.mk.inj (Option.some.inj hscan)
  simp only [List.mem_flatten, List.mem_map] at hmem
  obtain ⟨_, ⟨kw, -, rfl⟩, hhit⟩ := hmem
  obtain ⟨abs, habs, rfl⟩ := List.mem_map.mp hhit
  have hne : asBytes kw ≠ [] := by
    intro hnil
    simp [hitOffsets, hnil] at habs
  exact keyword_infix_context (occursAt_of_mem_hitOffsets habs) hne entry.timestamp

namespace StreamTask

variable {m : SerialManager} {t : StreamTask}

private theorem pollRxAt_reported {port : String} {todo closed : List String} {gotData : Bool} :
    ∀ line ∈ (t.pollRxAt m port todo closed gotData).pc.lines, line.Reported := by
  unfold pollRxAt
  cases t.maps.rxReceivers.lookup port with
  | none => simp [TaskPc.lines]
  | some rx =>
      simp only [SerialManager.tryRecv]
      obtain ⟨entry, -, -, -, h⟩ | ⟨-, h⟩ | ⟨-, -, h⟩ | ⟨-, -, h⟩ :=
        (m.channels rx.chan).tryRecv_cases rx.next <;>
        simp [h, TaskPc.lines, Push.Reported]

private theorem pollFilterAt_reported {port : String} {todo closed : List String} {gotData : Bool} :
    ∀ line ∈ (t.pollFilterAt m port todo closed gotData).pc.lines, line.Reported := by
  unfold pollFilterAt
  cases t.maps.filterStates.lookup port with
  | none => simp [TaskPc.lines]
  | some st =>
      simp only [SerialManager.tryRecv]
      obtain ⟨entry, -, -, -, h⟩ | ⟨-, h⟩ | ⟨-, -, h⟩ | ⟨-, -, h⟩ :=
        (m.channels st.rx.chan).tryRecv_cases st.rx.next <;>
        simp only [h, TaskPc.lines, List.not_mem_nil, false_implies, implies_true]
      intro line hline
      cases hscan : FilterState.scan { st with rx := { st.rx with next := st.rx.next + 1 } } entry
        with
      | none => simp [hscan, stopped] at hline
      | some r =>
          obtain ⟨hits, st'⟩ := r
          simp only [hscan, List.mem_map] at hline
          obtain ⟨hit, hmem, rfl⟩ := hline
          exact ⟨_, st', entry, hits, hscan, hmem⟩

/-- What a step writes was in hand, and what it takes in hand is reported. -/
theorem step_lines {queue : List RxSubCommand} {order : List String} {writeOk : Bool}
    {r : StreamTask × List RxSubCommand × List Push}
    (h : t.step m queue order writeOk = some r) :
    (∀ line ∈ r.2.2, line ∈ t.pc.lines) ∧
      ∀ line ∈ r.1.pc.lines, line ∈ t.pc.lines ∨ line.Reported := by
  unfold step at h
  split at h
  · split at h
    · obtain rfl := Option.some.inj h
      exact ⟨by simp, fun line hline => Or.inl hline⟩
    · split_ifs at h <;> obtain rfl := Option.some.inj h <;> simp [TaskPc.lines]
  · split at h
    · obtain rfl := Option.some.inj h
      simp [TaskPc.lines]
    · exact absurd h (by simp)
  · rename_i hpc
    split_ifs at h <;> obtain rfl := Option.some.inj h
    · rw [hpc]
      exact ⟨by simp [TaskPc.lines], fun line hline => Or.inl (List.mem_cons_of_mem _ hline)⟩
    · simp [stopped, TaskPc.lines]
  · obtain rfl := Option.some.inj h
    exact ⟨by simp, fun line hline => Or.inr (pollRxAt_reported line hline)⟩
  · split_ifs at h
    obtain rfl := Option.some.inj h
    simp [TaskPc.lines]
  · rename_i hpc
    split_ifs at h <;> obtain rfl := Option.some.inj h
    · rw [hpc]
      exact ⟨by simp [TaskPc.lines], fun line hline => Or.inl (List.mem_cons_of_mem _ hline)⟩
    · simp [stopped, TaskPc.lines]
  · obtain rfl := Option.some.inj h
    exact ⟨by simp, fun line hline => Or.inr (pollFilterAt_reported line hline)⟩
  · rename_i gotData _
    obtain rfl := Option.some.inj h
    cases gotData <;> simp [TaskPc.lines]
  · obtain rfl := Option.some.inj h
    simp [TaskPc.lines]
  · exact absurd h (by simp)

end StreamTask

/-- What the client's task has written and has in hand is reported. -/
structure Client.Reported (cl : Client) : Prop where
  written : ∀ line, .push line ∈ cl.written → line.Reported
  inHand : ∀ line ∈ cl.task.pc.lines, line.Reported

theorem Client.Reported.of_task {cl : Client} {m : SerialManager} {order : List String}
    {writeOk : Bool} {task : StreamTask} {queue : List RxSubCommand} {lines : List Push}
    (h : cl.Reported) (hstep : cl.task.step m cl.queue order writeOk = some (task, queue, lines)) :
    Client.Reported { cl with
      task := task, queue := queue, written := cl.written ++ lines.map .push } := by
  obtain ⟨hwrites, hhand⟩ := StreamTask.step_lines hstep
  constructor
  · intro line hline
    rw [List.mem_append, List.mem_map] at hline
    obtain hold | ⟨_, hnew, hpush⟩ := hline
    · exact h.written line hold
    · obtain rfl := Outgoing.push.inj hpush
      exact h.inHand _ (hwrites _ hnew)
  · intro line hline
    exact (hhand line hline).elim (h.inHand line) id

theorem Client.Advances.reported {cl cl' : Client} {m : SerialManager} {req : Request} {pc : Pc}
    (h : Advances m cl req pc cl') (hreported : cl.Reported) : cl'.Reported := by
  constructor
  · intro line hline
    cases h with
    | wrote resp =>
        rw [List.mem_append, List.mem_singleton] at hline
        obtain hold | hresponse := hline
        · exact hreported.written line hold
        · cases hresponse
    | _ => exact hreported.written line hline
  · rw [h.task_eq]
    exact hreported.inHand

/-- Whatever has been pushed to a client, in every run, has been reported. -/
theorem reported_of_run {es : List Event} {w : World} (hrun : daemon.run es = some w)
    {c : ClientId} {cl : Client} (hclient : w.clients c = some cl) : cl.Reported := by
  refine client_history (P := fun _ _ cl => cl.Reported) ?_ ?_ ?_ ?_ hrun hclient
  · intro es w
    exact ⟨by simp [Client.new], by simp [Client.new, StreamTask.new, TaskPc.lines]⟩
  · intro es w w' cl _ h
    exact ⟨h.written, by simp [Client.disconnect, StreamTask.stopped, TaskPc.lines]⟩
  · intro es w w' cl cl' ce _ hstep hcl hcl' _ hsteps h
    cases ce with
    | request req env =>
        cases hsteps with
        | began req env m' s' pc hidle hbegins => exact ⟨h.written, h.inHand⟩
    | dispatch =>
        generalize w'.serial = m' at hsteps
        cases hsteps with
        | advanced req pc cl' hpc hadvances => exact hadvances.reported h
    | task order writeOk =>
        obtain ⟨task, queue, lines, htask, rfl⟩ := World.step_task hstep hcl hcl'
        exact h.of_task htask
  · exact fun _ _ _ _ _ _ _ _ _ _ h => h

/-- Every hit shows its keyword. In every run, the context of every `filter_hit`
notification to a client contains the keyword, whatever keywords and entries there
were. -/
theorem keyword_infix_of_notified {es : List Event} {w : World} (hrun : daemon.run es = some w)
    {c : ClientId} {cl : Client} (hclient : w.clients c = some cl) {line : Push}
    (hmem : .push line ∈ cl.written) (hnotify : line.notification.notify = "filter_hit") :
    ∃ keyword context, line.notification.data.strArg "keyword" = some keyword ∧
      line.notification.data.strArg "context" = some context ∧
      keyword.toList <:+: context.toList := by
  cases line with
  | rxData port a => exact absurd hnotify (by simp [Push.notification])
  | filterHit port hit =>
      obtain ⟨st, st', entry, hits, hscan, hhit⟩ :=
        (reported_of_run hrun hclient).written _ hmem
      exact ⟨hit.keyword, hit.context, rfl, rfl, FilterState.keyword_infix_of_scan hscan hhit⟩

/-- A filter for `가` is added, and an entry arrives in which the cut around the
match begins and ends within a character. -/
def hitBetweenCharacters : List Event :=
  [.connect 0] ++ issue 0 (portRequest "open_port" "P") 2 ++
    issue 0 (keywordRequest "filter_rx" "P" "가") 3 ++
    [.deliver 0 ⟨"12:00:00", asBytes "나나나나나나나가나나나나나나나"⟩] ++
    [stream 0 [], stream 0 [], stream 0 ["P"], stream 0 [], stream 0 []]

/-- The hits that a client has been notified of, keyword and context. -/
def hitsWritten (written : List Outgoing) : List (String × String) :=
  written.filterMap fun
    | .push (.filterHit _ hit) => some (hit.keyword, hit.context)
    | _ => none

private theorem hitBetweenCharacters_written : (daemon.run hitBetweenCharacters).any (fun w =>
    (w.clients 0).any fun cl =>
      hitsWritten cl.written == [("가", "\uFFFD\uFFFD나나나나나나가나나나나나나\uFFFD")]) = true := by
  decide +kernel

/-- The theorem at that run: the keyword stands between broken characters. -/
theorem keyword_infix_of_notified_between : ∃ w cl line,
    daemon.run hitBetweenCharacters = some w ∧ w.clients 0 = some cl ∧
    .push line ∈ cl.written ∧ line.notification.notify = "filter_hit" ∧
    ∃ keyword context, line.notification.data.strArg "keyword" = some keyword ∧
      line.notification.data.strArg "context" = some context ∧
      keyword.toList <:+: context.toList := by
  obtain ⟨w, hw, hany⟩ := (Option.any_eq_true _ _).mp hitBetweenCharacters_written
  obtain ⟨cl, hcl, hhits⟩ := (Option.any_eq_true _ _).mp hany
  have hmem : ("가", "\uFFFD\uFFFD나나나나나나가나나나나나나\uFFFD") ∈ hitsWritten cl.written := by
    rw [beq_iff_eq.mp hhits]
    exact List.mem_singleton_self _
  obtain ⟨out, hout, hsome⟩ := List.mem_filterMap.mp hmem
  cases out with
  | response req resp => cases hsome
  | push line =>
      cases line with
      | rxData port a => cases hsome
      | filterHit port hit =>
          exact ⟨w, cl, .filterHit port hit, hw, hcl, hout, rfl,
            keyword_infix_of_notified hw hcl hout rfl⟩

end Commmon

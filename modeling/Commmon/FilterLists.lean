/-
# The keyword lists on their way to the streaming task

The session tells its streaming task about a filter by commands in a queue, and a
command that brings keywords carries a whole list. Every such list has been what the
session records. So if no list that has set a filter had a keyword twice, then no
list has one, neither on its way nor in the streaming task.
-/

import Commmon.FilterOrders

set_option autoImplicit false

namespace Commmon

/-- The list that a command brings to the filter of a port. -/
def RxSubCommand.keywordsOf (p : String) : RxSubCommand → Option (List String)
  | .addFilter port keywords _ => if port = p then some keywords else none
  | .setFilterKeywords port keywords => if port = p then some keywords else none
  | _ => none

/-- The list of the filter as the streaming task has it. -/
def TaskMaps.keywordsOf (maps : TaskMaps) (p : String) : Option (List String) :=
  (maps.filterStates.lookup p).map (·.keywords)

/-- The lists for a port that the streaming task has or that are on their way to
it. -/
def Client.lists (cl : Client) (p : String) : List (List String) :=
  (cl.task.maps.keywordsOf p).toList ++ cl.pending.filterMap (RxSubCommand.keywordsOf p)

/-- A command leaves the list of a filter, brings it or drops it. -/
theorem TaskMaps.keywordsOf_apply (maps : TaskMaps) (cmd : RxSubCommand) (p : String) :
    ∀ keywords ∈ (maps.apply cmd).keywordsOf p,
      keywords ∈ maps.keywordsOf p ∨ keywords ∈ cmd.keywordsOf p := by
  intro keywords hkeywords
  cases cmd with
  | subscribe port rx | unsubscribe port => exact Or.inl hkeywords
  | addFilter port new rx =>
      by_cases hp : p = port
      · subst hp
        exact Or.inr (by simpa [keywordsOf, apply, RxSubCommand.keywordsOf, FilterState.new] using
          hkeywords)
      · exact Or.inl (by simpa [keywordsOf, apply, hp] using hkeywords)
  | removeFilter port =>
      by_cases hp : p = port
      · subst hp
        simp [keywordsOf, apply] at hkeywords
      · exact Or.inl (by simpa [keywordsOf, apply, hp] using hkeywords)
  | setFilterKeywords port new =>
      cases hst : maps.filterStates.lookup port with
      | none => exact Or.inl (by simpa [apply, hst] using hkeywords)
      | some st =>
          by_cases hp : p = port
          · subst hp
            exact Or.inr (by simpa [keywordsOf, apply, hst, RxSubCommand.keywordsOf,
              FilterState.setKeywords] using hkeywords)
          · exact Or.inl (by simpa [keywordsOf, apply, hst, hp] using hkeywords)

namespace Client

variable {cl cl' : Client} {p : String}

theorem mem_lists {keywords : List String} :
    keywords ∈ cl.lists p ↔ keywords ∈ cl.task.maps.keywordsOf p ∨
      keywords ∈ cl.queue.filterMap (RxSubCommand.keywordsOf p) ∨
      keywords ∈ cl.unsent.filterMap (RxSubCommand.keywordsOf p) := by
  simp only [lists, pending, List.filterMap_append, List.mem_append, Option.mem_toList,
    Option.mem_def]

/-- A command sends what the session records. -/
theorem lists_of_sends {s : ClientSession} {req : Request} {pc : Pc}
    (hsends : ∀ keywords ∈ pc.unsent.filterMap (RxSubCommand.keywordsOf p),
      keywords ∈ cl.unsent.filterMap (RxSubCommand.keywordsOf p) ∨
        s.filterSubscriptions.lookup p = some keywords) :
    ∀ keywords ∈ lists { cl with session := s, dispatch := some (req, pc) } p,
      keywords ∈ cl.lists p ∨ s.filterSubscriptions.lookup p = some keywords := by
  intro keywords hkeywords
  rw [mem_lists] at hkeywords ⊢
  obtain htask | hqueue | hunsent := hkeywords
  · exact Or.inl (Or.inl htask)
  · exact Or.inl (Or.inr (Or.inl hqueue))
  · exact (hsends keywords hunsent).imp_left fun h => Or.inr (Or.inr h)

private theorem began_lists {m m' : SerialManager} {s : ClientSession} {req : Request} {pc : Pc}
    (hbegins : Dispatch.Begins m cl.session req m' s pc) :
    ∀ keywords ∈ lists { cl with session := s, dispatch := some (req, pc) } p,
      keywords ∈ cl.lists p ∨ s.filterSubscriptions.lookup p = some keywords := by
  apply lists_of_sends
  intro keywords hkeywords
  cases hbegins with
  | closed port op resp hcmd hport hopen hok =>
      rw [unsent_closeSends, List.filterMap_append] at hkeywords
      split_ifs at hkeywords <;> simp [RxSubCommand.keywordsOf] at hkeywords
  | extended port existing new success hcmd hport hnew hexisting =>
      by_cases hp : port = p
      · subst hp
        obtain rfl : keywords = mergeKeywords existing new := by
          simpa [Pc.unsent, RxSubCommand.keywordsOf] using hkeywords
        exact Or.inr (by simp)
      · simp [Pc.unsent, RxSubCommand.keywordsOf, hp] at hkeywords
  | _ => simp [Pc.unsent, RxSubCommand.keywordsOf] at hkeywords

private theorem advanced_lists {m : SerialManager} {req : Request} {pc : Pc}
    (hpc : cl.dispatch = some (req, pc)) (hadvances : cl.Advances m req pc cl') :
    ∀ keywords ∈ cl'.lists p,
      keywords ∈ cl.lists p ∨ cl'.session.filterSubscriptions.lookup p = some keywords := by
  have hunsent : cl.unsent = pc.unsent := by simp [unsent, hpc]
  cases hadvances with
  | filtered port new success op hop =>
      apply lists_of_sends
      intro keywords hkeywords
      by_cases hp : port = p
      · subst hp
        obtain rfl : keywords = new := by
          simpa [Pc.unsent, RxSubCommand.keywordsOf] using hkeywords
        exact Or.inr (by simp)
      · simp [Pc.unsent, RxSubCommand.keywordsOf, hp] at hkeywords
  | sent cmd success hlive =>
      intro keywords hkeywords
      rw [mem_lists] at hkeywords ⊢
      rw [hunsent]
      simp only [List.filterMap_append, List.mem_append] at hkeywords
      obtain htask | (hqueue | hcmd) | hnone := hkeywords
      · exact Or.inl (Or.inl htask)
      · exact Or.inl (Or.inr (Or.inl hqueue))
      · exact Or.inl (Or.inr (Or.inr hcmd))
      · simp [unsent, Pc.unsent] at hnone
  | told cmd next hlive =>
      intro keywords hkeywords
      rw [mem_lists] at hkeywords ⊢
      rw [hunsent]
      simp only [List.filterMap_append, List.mem_append] at hkeywords
      have hsplit : (Pc.tell cmd next).unsent.filterMap (RxSubCommand.keywordsOf p) =
          [cmd].filterMap (RxSubCommand.keywordsOf p) ++
            next.unsent.filterMap (RxSubCommand.keywordsOf p) := by
        rw [← List.filterMap_append]
        rfl
      obtain htask | (hqueue | hcmd) | hrest := hkeywords
      · exact Or.inl (Or.inl htask)
      · exact Or.inl (Or.inr (Or.inl hqueue))
      · exact Or.inl (Or.inr (Or.inr (hsplit ▸ List.mem_append_left _ hcmd)))
      · exact Or.inl (Or.inr (Or.inr (hsplit ▸ List.mem_append_right _ hrest)))
  | ignored cmd next hended =>
      apply lists_of_sends
      intro keywords hkeywords
      rw [hunsent]
      exact Or.inl ((List.sublist_cons_self cmd next.unsent).filterMap _ |>.subset hkeywords)
  | drained port clear s hround => exact fun keywords hkeywords => Or.inl hkeywords
  | wrote resp =>
      intro keywords hkeywords
      rw [mem_lists] at hkeywords ⊢
      obtain htask | hqueue | hnone := hkeywords
      · exact Or.inl (Or.inl htask)
      · exact Or.inl (Or.inr (Or.inl hqueue))
      · simp [unsent] at hnone
  | _ =>
      apply lists_of_sends
      intro keywords hkeywords
      simp [Pc.unsent, RxSubCommand.keywordsOf] at hkeywords

private theorem streamed_lists {m : SerialManager} {task : StreamTask} {queue : List RxSubCommand}
    {lines : List Push} (hmoves : cl.task.Moves m cl.queue task queue lines)
    (written : List Outgoing) :
    ∀ keywords ∈ lists { cl with task := task, queue := queue, written := written } p,
      keywords ∈ cl.lists p := by
  intro keywords hkeywords
  rw [mem_lists] at hkeywords ⊢
  obtain htask | hqueue | hunsent := hkeywords
  · cases hmoves with
    | died => simp [TaskMaps.keywordsOf, StreamTask.stopped] at htask
    | applied cmd _ hqueue hrx hfilters =>
        obtain hold | hnew := cl.task.maps.keywordsOf_apply cmd p keywords htask
        · exact Or.inl hold
        · exact Or.inr (Or.inl (List.mem_filterMap.mpr ⟨cmd, by simp [hqueue], hnew⟩))
    | went | rxReceived | rxNoticed | rxDropped | filterNoticed => exact Or.inl htask
    | filterReceived port st st' pc hlive hlookup hchan hkeywords hrx hfilters =>
        by_cases hp : p = port
        · subst hp
          exact Or.inl (by simpa [TaskMaps.keywordsOf, hlookup, hkeywords] using htask)
        · exact Or.inl (by simpa [TaskMaps.keywordsOf, hp] using htask)
    | filterDropped pc hlive hrx hfilters =>
        by_cases hp : p ∈ cl.task.pc.closedFilters
        · simp [TaskMaps.keywordsOf, Table.lookup_eraseAll, hp] at htask
        · exact Or.inl (by simpa [TaskMaps.keywordsOf, Table.lookup_eraseAll, hp] using htask)
  · cases hmoves with
    | died => simp at hqueue
    | applied cmd _ hbefore hrx hfilters =>
        rw [hbefore]
        exact Or.inr (Or.inl ((List.sublist_cons_self cmd queue).filterMap _ |>.subset hqueue))
    | _ => exact Or.inr (Or.inl hqueue)
  · exact Or.inr (Or.inr hunsent)

theorem Steps.connected_eq {m m' : SerialManager} {ce : ClientEvent}
    (h : cl.Steps m ce m' cl') : cl'.connected = cl.connected := by
  cases h with
  | began req env m' s' pc hidle hbegins => rfl
  | advanced req pc cl' hpc hadvances => cases hadvances <;> rfl
  | streamed order writeOk task queue lines hrunning hmoves => rfl

/-- A list has been recorded before it is sent. -/
theorem Steps.lists {m m' : SerialManager} {ce : ClientEvent} (h : cl.Steps m ce m' cl') :
    ∀ keywords ∈ cl'.lists p,
      keywords ∈ cl.lists p ∨ cl'.session.filterSubscriptions.lookup p = some keywords := by
  cases h with
  | began req env m' s' pc hidle hbegins => exact began_lists hbegins
  | advanced req pc cl' hpc hadvances => exact advanced_lists hpc hadvances
  | streamed order writeOk task queue lines hrunning hmoves =>
      exact fun keywords hkeywords => Or.inl (streamed_lists hmoves _ keywords hkeywords)

end Client

/-- No list has a keyword twice in a run in which no list has set a filter of the
port with a keyword twice. -/
theorem nodup_lists_of_run {es : List Event} {w : World} (hrun : daemon.run es = some w)
    {c : ClientId} {cl : Client} (hclient : w.clients c = some cl) {p : String}
    (hset : SetDistinctly (cl.orders p)) : ∀ keywords ∈ cl.lists p, keywords.Nodup := by
  refine client_history (P := fun _ _ cl => SetDistinctly (cl.orders p) →
    ∀ keywords ∈ cl.lists p, keywords.Nodup) ?_ ?_ ?_ ?_ hrun hclient hset
  · intro es w _ keywords hkeywords
    simp [Client.mem_lists, Client.new, StreamTask.new, TaskMaps.keywordsOf, Client.unsent]
      at hkeywords
  · intro es w w' cl _ _ _ keywords hkeywords
    simp [Client.mem_lists, Client.disconnect, StreamTask.stopped, TaskMaps.keywordsOf,
      Client.unsent] at hkeywords
  · intro es w w' cl cl' ce hes hstep hcl hcl' hconn hsteps ih hset' keywords hkeywords
    have hcarries := carries_of_step hes hstep hcl hcl'
    obtain hbefore | hrecord := hsteps.lists keywords hkeywords
    · exact ih (hset'.of_prefix (hcarries.orders_grow p)) keywords hbefore
    · have hrun' : daemon.run (es ++ [.client c ce]) = some w' :=
        daemon.run_snoc_eq_some.mpr ⟨w, hes, hstep⟩
      rw [recorded_of_run hrun' hcl' (hsteps.connected_eq.trans hconn) p] at hrecord
      exact nodup_of_recordedBy (hset' _ (List.prefix_refl _)) keywords hrecord
  · exact fun _ _ _ _ _ _ _ _ _ _ ih => ih

end Commmon

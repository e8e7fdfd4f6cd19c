/-
# Reading a port piece by piece

A client that clears the buffer with every read is given each entry once. What it
has read of an opening of the port, put together over all its reads, is what the
device has delivered there, up to entries that were passed over: nothing is out of
its order, and nothing comes again.
-/

import Commmon.Provenance

set_option autoImplicit false

namespace Commmon

open Broadcast

/-- Entries that are at increasing places of a list. -/
theorem map_sublist_of_places {α β : Type} {val : α → β} {as : List α} :
    ∀ (place : α → ℕ) {l : List β}, as.Pairwise (fun a b => place a < place b) →
      (∀ a ∈ as, l[place a]? = some (val a)) → (as.map val).Sublist l := by
  induction as with
  | nil => exact fun _ l _ _ => List.nil_sublist l
  | cons a as ih =>
      intro place l hasc hval
      obtain ⟨hfirst, hasc⟩ := List.pairwise_cons.mp hasc
      obtain ⟨ha, hval⟩ := List.forall_mem_cons.mp hval
      obtain ⟨hlt, ha⟩ := List.getElem?_eq_some_iff.mp ha
      -- The others are in what comes after this place.
      have hrest : (as.map val).Sublist (l.drop (place a + 1)) := by
        refine ih (fun b => place b - (place a + 1)) ?_ ?_
        · refine hasc.imp_of_mem fun {b b'} hb _ hbb' => ?_
          have hle := hfirst b hb
          omega
        · intro b hb
          have hle := hfirst b hb
          rw [List.getElem?_drop, Nat.add_sub_cancel' hle]
          exact hval b hb
      have hsplit : l = l.take (place a) ++ val a :: l.drop (place a + 1) := by
        rw [← ha, List.getElem_cons_drop, List.take_append_drop]
      rw [hsplit, List.map_cons]
      exact (hrest.cons_cons _).trans (List.sublist_append_right _ _)

/-- Everything the client has read of the port. -/
def Client.readEntries (p : String) (cl : Client) : List Arrival :=
  (cl.returns.filterMap (readOf p)).flatten

/-- Every read of the port has cleared the buffer. -/
def Client.AlwaysClears (p : String) (cl : Client) : Prop :=
  ∀ r ∈ cl.returns, (readOf p r).isSome → Dispatch.clearArg r.1.args = true

/-- Entries of one opening are in its order. -/
def InOrder (as : List Arrival) : Prop :=
  as.Pairwise fun a a' => a.chan = a'.chan → a.pos < a'.pos

section

variable {p : String} {m : SerialManager} {cl cl' : Client}

private theorem Client.readEntries_append {rs : List (Request × Response)}
    (hreturns : cl'.returns = cl.returns ++ rs) :
    cl'.readEntries p = cl.readEntries p ++ (rs.filterMap (readOf p)).flatten := by
  rw [readEntries, hreturns, List.filterMap_append, List.flatten_append, readEntries]

theorem Client.mem_readEntries {a : Arrival} :
    a ∈ cl.readEntries p ↔ ∃ r ∈ cl.returns, ∃ L, readOf p r = some L ∧ a ∈ L := by
  constructor
  · intro ha
    obtain ⟨L, hL, ha⟩ := List.mem_flatten.mp ha
    obtain ⟨r, hr, hread⟩ := List.mem_filterMap.mp hL
    exact ⟨r, hr, L, hread, ha⟩
  · rintro ⟨r, hr, L, hread, ha⟩
    exact List.mem_flatten.mpr ⟨L, List.mem_filterMap.mpr ⟨r, hr, hread⟩, ha⟩

/-- An entry that is stored comes after all that have been read or are buffered. -/
theorem Fetches.inOrder {rx rx' : Option Receiver} {b b' read : List Arrival}
    (h : Fetches m p rx b rx' b')
    (hread : ∀ a ∈ read, ∀ x, rx = some x → a.chan = x.chan → a.pos < x.next)
    (hb : Ordered m rx b) (horder : InOrder (read ++ b)) : InOrder (read ++ b') := by
  cases h with
  | same => exact horder
  | attached op b hop => exact horder.sublist (List.sublist_append_of_sublist_left (by simp))
  | stored rx b entry hentry =>
      have hpush : (read ++ pushEntry b ⟨rx.chan, rx.next, entry⟩).Sublist
          ((read ++ b) ++ [⟨rx.chan, rx.next, entry⟩]) := by
        rw [List.append_assoc]
        exact (List.Sublist.refl read).append (Window.push_suffix _ b _).sublist
      refine List.Pairwise.sublist hpush (List.pairwise_append.mpr
        ⟨horder, List.pairwise_singleton _ _, fun a ha a' ha' hchan => ?_⟩)
      obtain rfl := List.mem_singleton.mp ha'
      obtain ha | ha := List.mem_append.mp ha
      · exact hread a ha rx rfl hchan
      · obtain ⟨r, hr, -, hpos⟩ := hb.buffered a ha
        obtain rfl := Option.some.inj hr
        exact hpos

/-- What has been read comes before what is buffered. -/
theorem Client.PortStep.inOrder (h : cl.PortStep m p cl')
    (hread : ∀ a ∈ cl.readEntries p, ∀ x, cl.session.receivers.lookup p = some x →
      a.chan = x.chan → a.pos < x.next)
    (hb : Ordered m (cl.session.receivers.lookup p) (cl.session.buffer p))
    (hclears : cl'.AlwaysClears p)
    (horder : InOrder (cl.readEntries p ++ cl.session.buffer p)) :
    InOrder (cl'.readEntries p ++ cl'.session.buffer p) := by
  cases h with
  | kept rs hfetches hreturns hother =>
      have hnone : rs.filterMap (readOf p) = [] := List.filterMap_eq_nil_iff.mpr hother
      rw [readEntries_append hreturns, hnone, List.flatten_nil, List.append_nil]
      exact hfetches.inOrder hread hb horder
  | forgot r hpc hcloses hreturns hrx hbuffer =>
      have hcmd : r.1.cmd ≠ "read_port" := by
        rw [hcloses.1]
        decide
      have hnone : [r].filterMap (readOf p) = [] :=
        List.filterMap_cons_none (readOf_eq_none_of_cmd hcmd)
      rw [readEntries_append hreturns, hnone, hbuffer, List.flatten_nil, List.append_nil]
      exact horder.sublist (List.sublist_append_of_sublist_left (by simp))
  | read r rx next hrx hstops hrx' hread hbuffer hreturns =>
      have hclear : Dispatch.clearArg r.1.args = true :=
        hclears r (by simp [hreturns]) (by simp [hread])
      have hone : [r].filterMap (readOf p) = [cl.session.buffer p] :=
        List.filterMap_cons_some hread
      rw [readEntries_append hreturns, hone, hbuffer, if_pos hclear]
      simpa using horder

end

section

variable {es : List Event} {w : World} {c : ClientId} {cl : Client} {p : String}

private theorem inOrder_of_run (hrun : daemon.run es = some w) (hclient : w.clients c = some cl)
    (hclears : cl.AlwaysClears p) : InOrder (cl.readEntries p ++ cl.session.buffer p) := by
  refine client_history (P := fun _ _ cl => cl.AlwaysClears p →
    InOrder (cl.readEntries p ++ cl.session.buffer p)) ?_ ?_ ?_ ?_ hrun hclient hclears
  · intro es w _
    simp [InOrder, Client.readEntries, Client.new, Client.returns, ClientSession.new,
      ClientSession.buffer]
  · intro es w w' cl hidle ih hclears
    have hreturns : cl.disconnect.returns = cl.returns ++ [] := by
      rw [Client.returns_of_idle hidle, List.append_nil]
      exact Client.returns_of_idle rfl
    have hclears' : cl.AlwaysClears p := by
      rw [Client.AlwaysClears, hreturns, List.append_nil] at hclears
      exact hclears
    have hempty : cl.disconnect.session.buffer p = [] := by
      simp [Client.disconnect, ClientSession.new, ClientSession.buffer]
    rw [Client.readEntries_append hreturns, hempty]
    refine (ih hclears').sublist ?_
    simp
  · intro es w w' cl cl' ce hes _ hclient _ hconnected hsteps ih hclears
    have hfits : ∀ req pc, cl.dispatch = some (req, pc) → pc.Fits req :=
      fun req pc hpc => fits_of_run hes hclient hpc
    have hport := hsteps.portStep hfits p
    obtain ⟨rs, hreturns⟩ : ∃ rs, cl'.returns = cl.returns ++ rs := by
      cases hport with
      | kept rs _ hreturns _ => exact ⟨rs, hreturns⟩
      | forgot r _ _ hreturns _ _ => exact ⟨[r], hreturns⟩
      | read r _ _ _ _ _ _ _ hreturns => exact ⟨[r], hreturns⟩
    have hclears' : cl.AlwaysClears p := fun r hr =>
      hclears r (hreturns ▸ List.mem_append_left _ hr)
    refine hport.inOrder ?_ (ordered_of_run hes c p cl hclient) hclears (ih hclears')
    intro a ha
    obtain ⟨r, hr, L, hread, ha⟩ := Client.mem_readEntries.mp ha
    exact ((((log_of_run hes c p cl hclient).2 hconnected).shown r hr L hread a ha).2).2
  · exact fun es w w' e cl _ _ _ _ _ ih => ih

/-- What has been read of each opening, in the order in which it has been read, is a part of
what the device has delivered there. -/
theorem readEntries_sublist (hrun : daemon.run es = some w) (hclient : w.clients c = some cl)
    (hclears : cl.AlwaysClears p) (k : ChannelId) :
    (((cl.readEntries p).filter (·.chan = k)).map (·.entry)).Sublist (deliveries k es) := by
  have horder : InOrder (cl.readEntries p) :=
    (inOrder_of_run hrun hclient hclears).sublist (List.sublist_append_left _ _)
  refine map_sublist_of_places (fun a => a.pos) ?_ ?_
  · refine (horder.filter _).imp_of_mem fun {a b} ha hb hab => hab ?_
    have hka : a.chan = k := by simpa using (List.mem_filter.mp ha).2
    have hkb : b.chan = k := by simpa using (List.mem_filter.mp hb).2
    rw [hka, hkb]
  · intro a ha
    obtain ⟨ha, hk⟩ := List.mem_filter.mp ha
    obtain ⟨r, hr, L, hread, ha⟩ := Client.mem_readEntries.mp ha
    have hfrom := (client_sourced hrun hclient).read r hr L hread a ha
    have hk : a.chan = k := by simpa using hk
    rw [← hk]
    exact hfrom.delivered

end

end Commmon

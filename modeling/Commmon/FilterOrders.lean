/-
# What a client asks of its filters

A filter is set by `filter_rx`, or by an `add_filter_rx` that finds none; every
further `add_filter_rx` extends it, and `unfilter_rx` and `close_port` drop it. What
the session records is compared here with what the commands have given, one after
another. A list that extends a filter is merged into it, but a list that sets one is
recorded as it was given.
-/

import Commmon.Filtering

set_option autoImplicit false

namespace Commmon

/-- What a command asks of the filter of one port. -/
inductive FilterOrder
  | set (keywords : List String)
  | add (keywords : List String)
  | drop

namespace FilterOrder

/-- What the session records after one more order. -/
def record (order : FilterOrder) (recorded : Option (List String)) : Option (List String) :=
  match order, recorded with
  | .set keywords, _ => some keywords
  | .add keywords, none => some keywords
  | .add keywords, some existing => some (mergeKeywords existing keywords)
  | .drop, _ => none

/-- All keywords that have been given since the filter was set. -/
def given (order : FilterOrder) (before : Option (List String)) : Option (List String) :=
  match order with
  | .set keywords => some keywords
  | .add keywords => some (before.getD [] ++ keywords)
  | .drop => none

/-- The list that has set the filter. -/
def setting (order : FilterOrder) (first : Option (List String)) : Option (List String) :=
  match order with
  | .set keywords => some keywords
  | .add keywords => some (first.getD keywords)
  | .drop => none

end FilterOrder

def recordedBy (orders : List FilterOrder) : Option (List String) :=
  orders.foldl (fun recorded order => order.record recorded) none

def givenBy (orders : List FilterOrder) : Option (List String) :=
  orders.foldl (fun before order => order.given before) none

def settingOf (orders : List FilterOrder) : Option (List String) :=
  orders.foldl (fun first order => order.setting first) none

@[simp]
theorem recordedBy_snoc (orders : List FilterOrder) (order : FilterOrder) :
    recordedBy (orders ++ [order]) = order.record (recordedBy orders) := by
  simp [recordedBy]

@[simp]
theorem givenBy_snoc (orders : List FilterOrder) (order : FilterOrder) :
    givenBy (orders ++ [order]) = order.given (givenBy orders) := by
  simp [givenBy]

@[simp]
theorem settingOf_snoc (orders : List FilterOrder) (order : FilterOrder) :
    settingOf (orders ++ [order]) = order.setting (settingOf orders) := by
  simp [settingOf]

private theorem mergeKeywords_append (first more new : List String) :
    mergeKeywords (mergeKeywords first more) new = mergeKeywords first (more ++ new) :=
  (List.foldl_append).symm

/-- A filter is recorded as the list that has set it, with the keywords given since
merged into it. -/
theorem recordedBy_cases (orders : List FilterOrder) :
    (recordedBy orders = none ∧ givenBy orders = none ∧ settingOf orders = none) ∨
    ∃ first more, recordedBy orders = some (mergeKeywords first more) ∧
      givenBy orders = some (first ++ more) ∧ settingOf orders = some first := by
  induction orders using List.reverseRecOn with
  | nil => exact Or.inl ⟨rfl, rfl, rfl⟩
  | append_singleton orders order ih =>
      rw [recordedBy_snoc, givenBy_snoc, settingOf_snoc]
      cases order with
      | set keywords => exact Or.inr ⟨keywords, [], by simp [FilterOrder.record, mergeKeywords,
          FilterOrder.given, FilterOrder.setting]⟩
      | add keywords =>
          obtain ⟨hrecord, hgiven, hsetting⟩ | ⟨first, more, hrecord, hgiven, hsetting⟩ := ih
          · refine Or.inr ⟨keywords, [], ?_⟩
            simp [hrecord, hgiven, hsetting, FilterOrder.record, FilterOrder.given,
              FilterOrder.setting, mergeKeywords]
          · refine Or.inr ⟨first, more ++ keywords, ?_⟩
            simp [hrecord, hgiven, hsetting, FilterOrder.record, FilterOrder.given,
              FilterOrder.setting, mergeKeywords_append]
      | drop => exact Or.inl ⟨rfl, rfl, rfl⟩

/-- When the record is a set. It has the keywords given since the filter was set,
each at its first appearance, exactly if the list that has set it has no keyword
twice. -/
theorem recordedBy_eq_iff (orders : List FilterOrder) :
    recordedBy orders = (givenBy orders).map List.eraseDups ↔
      ∀ first ∈ settingOf orders, first.Nodup := by
  obtain ⟨hrecord, hgiven, hsetting⟩ | ⟨first, more, hrecord, hgiven, hsetting⟩ :=
    recordedBy_cases orders
  · simp [hrecord, hgiven, hsetting]
  · simp only [hrecord, hgiven, hsetting, Option.map_some, Option.some_inj, Option.mem_some_iff,
      forall_eq', mergeKeywords_eq_append, List.eraseDups_append, List.append_left_inj]
    exact eq_comm.trans eraseDups_eq_self_iff

/-- A record has no keyword twice if the list that has set it has none. -/
theorem nodup_of_recordedBy {orders : List FilterOrder}
    (h : ∀ first ∈ settingOf orders, first.Nodup) :
    ∀ keywords ∈ recordedBy orders, keywords.Nodup := by
  intro keywords hkeywords
  rw [(recordedBy_eq_iff orders).mpr h] at hkeywords
  obtain ⟨given, -, rfl⟩ := Option.map_eq_some_iff.mp hkeywords
  exact nodup_eraseDups given

/-- Whenever a filter has been set, the list had no keyword twice. -/
def SetDistinctly (orders : List FilterOrder) : Prop :=
  ∀ before, before <+: orders → ∀ first ∈ settingOf before, first.Nodup

theorem SetDistinctly.of_prefix {before orders : List FilterOrder} (h : SetDistinctly orders)
    (hpre : before <+: orders) : SetDistinctly before :=
  fun earlier hearlier => h earlier (hearlier.trans hpre)

/-- The order that a request has for a port. -/
def Request.filterOrder (req : Request) (p : String) : Option FilterOrder :=
  if req.args.strArg "port" = some p then
    match req.cmd, keywordsArg req.args with
    | "filter_rx", some keywords => some (.set keywords)
    | "add_filter_rx", some keywords => some (.add keywords)
    | "unfilter_rx", _ => some .drop
    | "close_port", _ => some .drop
    | _, _ => none
  else none

/-- Four commands have an order. -/
theorem Request.filterOrder_eq_some {req : Request} {p : String} {order : FilterOrder}
    (h : req.filterOrder p = some order) : req.args.strArg "port" = some p ∧
      (req.cmd = "filter_rx" ∨ req.cmd = "add_filter_rx" ∨ req.cmd = "unfilter_rx" ∨
        req.cmd = "close_port") := by
  unfold filterOrder at h
  split_ifs at h with hport
  refine ⟨hport, ?_⟩
  split at h <;> simp_all

/-- The command has been carried out in the session. It has failed nevertheless if
the streaming task had ended when it was to be told. -/
def Response.carriedOut (resp : Response) : Bool := resp.ok || resp.error == deliveryFailed.error

/-- The session shows what the command has done. -/
def Pc.carriedOut : Pc → Bool
  | .send _ _ => true
  | .tell _ next => next.carriedOut
  | .reply resp => resp.carriedOut
  | _ => false

def Outgoing.carriedOut : Outgoing → Option Request
  | .response req resp => if resp.carriedOut then some req else none
  | .push _ => none

namespace Client

/-- The requests that have been carried out in the session, in their order. -/
def carriedOut (cl : Client) : List Request :=
  cl.written.filterMap Outgoing.carriedOut ++
  match cl.dispatch with
  | some (req, pc) => if pc.carriedOut then [req] else []
  | none => []

def orders (cl : Client) (p : String) : List FilterOrder :=
  cl.carriedOut.filterMap fun req => req.filterOrder p

end Client

private theorem carriedOut_ofError {msg : String} :
    (Response.ofError msg).carriedOut = false ↔ msg ≠ "스트리밍 태스크 전달 실패" := by
  simp [Response.carriedOut, Response.ofError, deliveryFailed]

/-- A text with another end is another text. -/
theorem carriedOut_of_not_suffix {start rest : String}
    (h : ¬ rest.toList <:+ "스트리밍 태스크 전달 실패".toList) :
    (Response.ofError (start ++ rest)).carriedOut = false := by
  rw [carriedOut_ofError]
  intro heq
  rw [← heq] at h
  exact h (by simp)

private theorem carriedOut_notOpen (port : String) : (notOpen port).carriedOut = false :=
  carriedOut_of_not_suffix (by decide)

/-- A command on a filter that is refused is not carried out. -/
theorem Dispatch.start_refused {m : SerialManager} {s : ClientSession} {req : Request} {env : Env}
    {resp : Response} (hreply : (start m s req env).2.2 = .reply resp) {p : String}
    (horder : (req.filterOrder p).isSome = true) : resp.carriedOut = false := by
  obtain ⟨order, horder⟩ := Option.isSome_iff_exists.mp horder
  obtain ⟨hport, hcmd | hcmd | hcmd | hcmd⟩ := Request.filterOrder_eq_some horder
  · simp only [start, hcmd, filterRx, hport] at hreply
    split at hreply
    · obtain rfl := Pc.reply.inj hreply
      decide
    · split_ifs at hreply
      · obtain rfl := Pc.reply.inj hreply
        decide
      · obtain rfl := Pc.reply.inj hreply
        exact carriedOut_notOpen p
  · simp only [start, hcmd, addFilterRx, hport] at hreply
    split at hreply
    · obtain rfl := Pc.reply.inj hreply
      decide
    · split_ifs at hreply
      · obtain rfl := Pc.reply.inj hreply
        decide
      · obtain rfl := Pc.reply.inj hreply
        exact carriedOut_notOpen p
      · split at hreply <;> simp at hreply
  · simp only [start, hcmd, unfilterRx, hport] at hreply
    split_ifs at hreply
    obtain rfl := Pc.reply.inj hreply
    exact carriedOut_of_not_suffix (by decide)
  · cases hop : m.ports.lookup p with
    | some op =>
        simp only [start, hcmd, closePort, SerialManager.closePort, hport, hop,
          Response.ok_successMsg] at hreply
        exact absurd (congrArg Pc.closing hreply) (by simp [Pc.closing])
    | none =>
        simp only [start, hcmd, closePort, SerialManager.closePort, hport, hop,
          Response.ok_ofError] at hreply
        obtain rfl := Pc.reply.inj hreply
        exact carriedOut_notOpen p

/-- A filter that is set anew by `add_filter_rx` was not there. -/
theorem Dispatch.start_fresh {m : SerialManager} {s : ClientSession} {req : Request} {env : Env}
    {port success : String} {keywords : List String}
    (htake : (start m s req env).2.2 = .filterTake port keywords success)
    (hcmd : req.cmd = "add_filter_rx") : s.filterSubscriptions.lookup port = none := by
  simp only [start, hcmd, addFilterRx] at htake
  split at htake
  · simp at htake
  · split at htake
    · simp at htake
    · split_ifs at htake
      split at htake
      · simp at htake
      · rename_i hnone
        obtain ⟨rfl, -, -⟩ := Pc.filterTake.inj htake
        exact hnone

namespace Request

variable {req : Request} {p port : String}

private theorem filterOrder_eq_none
    (h : req.cmd ∉ ["filter_rx", "add_filter_rx", "unfilter_rx", "close_port"]) :
    req.filterOrder p = none := by
  by_contra hsome
  obtain ⟨order, horder⟩ := Option.ne_none_iff_exists'.mp hsome
  obtain ⟨-, hcmd⟩ := filterOrder_eq_some horder
  simp only [List.mem_cons, List.not_mem_nil, or_false] at h
  exact h hcmd

private theorem filterOrder_of_ne (hport : req.args.strArg "port" = some port) (hne : p ≠ port) :
    req.filterOrder p = none := by
  have hother : ¬ req.args.strArg "port" = some p := by
    rw [hport]
    exact fun h => hne (Option.some.inj h).symm
  rw [filterOrder, if_neg hother]

/-- What the session records for the port after the request. -/
def refilter (req : Request) (p : String) (recorded : Option (List String)) :
    Option (List String) :=
  match req.filterOrder p with
  | some order => order.record recorded
  | none => recorded

private theorem refilter_of_none (h : req.filterOrder p = none) (recorded : Option (List String)) :
    req.refilter p recorded = recorded := by
  simp only [refilter, h]

end Request

namespace Client

/-- At most one request is carried out in a step, and the record shows it. -/
def Carries (cl cl' : Client) : Prop :=
  (cl'.carriedOut = cl.carriedOut ∧ ∀ p, cl'.session.filterSubscriptions.lookup p =
      cl.session.filterSubscriptions.lookup p) ∨
    ∃ req, cl'.carriedOut = cl.carriedOut ++ [req] ∧
      ∀ p, cl'.session.filterSubscriptions.lookup p =
        req.refilter p (cl.session.filterSubscriptions.lookup p)

variable {cl cl' : Client} {s : ClientSession} {req : Request} {pc pc' : Pc}

theorem Carries.of_same (hdone : cl'.carriedOut = cl.carriedOut)
    (hrecord : ∀ p, cl'.session.filterSubscriptions.lookup p =
      cl.session.filterSubscriptions.lookup p) : cl.Carries cl' :=
  Or.inl ⟨hdone, hrecord⟩

/-- The request is not carried out before the step. -/
theorem Carries.of_done (hbefore : cl.carriedOut = cl.written.filterMap Outgoing.carriedOut)
    (hafter : pc'.carriedOut = true)
    (hrecord : ∀ p, s.filterSubscriptions.lookup p =
      req.refilter p (cl.session.filterSubscriptions.lookup p)) :
    cl.Carries { cl with session := s, dispatch := some (req, pc') } :=
  Or.inr ⟨req, by rw [hbefore]; simp [carriedOut, hafter], hrecord⟩

/-- It is enough to look at the port of the request. -/
theorem Carries.of_done_at {port : String}
    (hbefore : cl.carriedOut = cl.written.filterMap Outgoing.carriedOut)
    (hafter : pc'.carriedOut = true) (hport : req.args.strArg "port" = some port)
    (hat : s.filterSubscriptions.lookup port =
      req.refilter port (cl.session.filterSubscriptions.lookup port))
    (helse : ∀ p, p ≠ port →
      s.filterSubscriptions.lookup p = cl.session.filterSubscriptions.lookup p) :
    cl.Carries { cl with session := s, dispatch := some (req, pc') } := by
  apply Carries.of_done hbefore hafter
  intro p
  by_cases hp : p = port
  · exact hp ▸ hat
  · rw [Request.refilter_of_none (Request.filterOrder_of_ne hport hp)]
    exact helse p hp

/-- Nor after it. -/
theorem Carries.of_undone (hbefore : cl.carriedOut = cl.written.filterMap Outgoing.carriedOut)
    (hafter : pc'.carriedOut = false)
    (hrecord : ∀ p, s.filterSubscriptions.lookup p = cl.session.filterSubscriptions.lookup p) :
    cl.Carries { cl with session := s, dispatch := some (req, pc') } :=
  .of_same (by rw [hbefore]; simp [carriedOut, hafter]) hrecord

/-- The request has no order for any port. -/
theorem Carries.of_other (hbefore : cl.carriedOut = cl.written.filterMap Outgoing.carriedOut)
    (hother : ∀ p, req.filterOrder p = none)
    (hrecord : ∀ p, s.filterSubscriptions.lookup p = cl.session.filterSubscriptions.lookup p) :
    cl.Carries { cl with session := s, dispatch := some (req, pc') } := by
  cases hafter : pc'.carriedOut with
  | true =>
      apply of_done hbefore hafter
      intro p
      rw [Request.refilter_of_none (hother p), hrecord]
  | false => exact of_undone hbefore hafter hrecord

private theorem carriedOut_of_idle (hidle : cl.dispatch = none) :
    cl.carriedOut = cl.written.filterMap Outgoing.carriedOut := by
  simp [carriedOut, hidle]

private theorem carriedOut_of_undone (hpc : cl.dispatch = some (req, pc))
    (h : pc.carriedOut = false) : cl.carriedOut = cl.written.filterMap Outgoing.carriedOut := by
  simp [carriedOut, hpc, h]

/-- Closing a port takes its time. -/
theorem carriedOut_closes {port : String} (h : pc.Closes port) : pc.carriedOut = false := by
  induction pc with
  | onPortClosed q resp => rfl
  | tell cmd next ih => exact ih h.2
  | _ => exact h.elim

/-- A request begins. -/
theorem began_carries {m : SerialManager} {env : Env} (hidle : cl.dispatch = none) :
    cl.Carries { cl with
      session := (Dispatch.start m cl.session req env).2.1
      dispatch := some (req, (Dispatch.start m cl.session req env).2.2) } := by
  have hbefore := carriedOut_of_idle hidle
  have hbegins := Dispatch.start_begins m cl.session req env
  have hrefused := @Dispatch.start_refused m cl.session req env
  generalize (Dispatch.start m cl.session req env).1 = m' at hbegins
  generalize (Dispatch.start m cl.session req env).2.1 = s at hbegins ⊢
  generalize (Dispatch.start m cl.session req env).2.2 = pc at hbegins hrefused ⊢
  cases hbegins with
  | answered resp hresp =>
      by_cases hother : ∀ p, req.filterOrder p = none
      · exact .of_other hbefore hother fun p => rfl
      · obtain ⟨p, hp⟩ := not_forall.mp hother
        have horder := Option.isSome_iff_ne_none.mpr hp
        exact .of_undone hbefore (hrefused rfl horder) fun p => rfl
  | opened port resp hcmd hport hclosed hok => exact .of_undone hbefore rfl fun p => rfl
  | closed port op resp hcmd hport hopen hok =>
      exact .of_undone hbefore (carriedOut_closes (Dispatch.closeSends_closes _ hok)) fun p => rfl
  | subscribing port hcmd hport hnew => exact .of_undone hbefore rfl fun p => rfl
  | unsubscribed port success hcmd hport hmem =>
      exact .of_other hbefore (fun p => Request.filterOrder_eq_none (by simp [hcmd])) fun p => rfl
  | filtering port keywords success hcmd hport hkeywords =>
      exact .of_undone hbefore rfl fun p => rfl
  | extended port existing keywords success hcmd hport hkeywords hexisting =>
      refine Carries.of_done_at hbefore rfl hport ?_ fun p hp => by simp [hp]
      simp [Request.refilter, Request.filterOrder, hcmd, hport, hkeywords, hexisting,
        FilterOrder.record]
  | unfiltered port success existing hcmd hport hexisting =>
      refine Carries.of_done_at hbefore rfl hport ?_ fun p hp => by simp [hp]
      simp [Request.refilter, Request.filterOrder, hcmd, hport, FilterOrder.record]
  | reading port hcmd hport => exact .of_undone hbefore rfl fun p => rfl

/-- The command goes on, and has carried out the request or not as before. -/
theorem Carries.of_next {queue : List RxSubCommand} (hpc : cl.dispatch = some (req, pc))
    (hsame : pc'.carriedOut = pc.carriedOut) :
    cl.Carries { cl with queue := queue, dispatch := some (req, pc') } :=
  .of_same (by simp only [carriedOut, hpc, hsame]) fun p => rfl

/-- The session's registrations stay, and the request has no order. -/
theorem Carries.of_registrations (hpc : cl.dispatch = some (req, pc))
    (hundone : pc.carriedOut = false) (hother : ∀ p, req.filterOrder p = none)
    (hsame : ClientSession.SameRegistrations cl.session s) :
    cl.Carries { cl with session := s, dispatch := some (req, pc') } :=
  .of_other (carriedOut_of_undone hpc hundone) hother fun p => by rw [hsame.filterSubscriptions]

/-- A command that opens, subscribes or reads has no order. -/
theorem no_order_of_fits (h : pc.Fits req) (hpc : (∃ port resp, pc = .openEnsure port resp) ∨
    (∃ port, pc = .subscribeTake port) ∨ ∃ port clear, pc = .drain port clear) :
    ∀ p, req.filterOrder p = none := by
  intro p
  apply Request.filterOrder_eq_none
  obtain ⟨port, resp, rfl⟩ | ⟨port, rfl⟩ | ⟨port, clear, rfl⟩ := hpc
  · cases h with
    | closing _ _ hcloses => exact hcloses.elim
    | openEnsure hcmd => simp [hcmd]
  · cases h with
    | closing _ _ hcloses => exact hcloses.elim
    | subscribeTake hcmd => simp [hcmd]
  · cases h with
    | closing _ _ hcloses => exact hcloses.elim
    | drain hcmd => simp [hcmd]

/-- A closed port is forgotten. -/
theorem forgot_carries {port : String} {resp : Response}
    (hpc : cl.dispatch = some (req, .onPortClosed port resp))
    (hfits : Pc.Fits req (.onPortClosed port resp)) :
    cl.Carries { cl with
      session := cl.session.onPortClosed port, dispatch := some (req, .reply resp) } := by
  cases hfits with
  | closing hcmd hport hcloses =>
      obtain ⟨rfl, hok⟩ := hcloses
      refine Carries.of_done_at (carriedOut_of_undone hpc rfl) ?_ hport ?_ fun p hp => by simp [hp]
      · simp [Pc.carriedOut, Response.carriedOut, hok]
      · simp [Request.refilter, Request.filterOrder, hcmd, hport, FilterOrder.record]

/-- A filter is recorded. -/
theorem filtered_carries {port success : String} {keywords : List String} {cmd : RxSubCommand}
    (hpc : cl.dispatch = some (req, .filterTake port keywords success))
    (hfits : Pc.Fits req (.filterTake port keywords success))
    (hfresh : req.cmd = "add_filter_rx" → cl.session.filterSubscriptions.lookup port = none) :
    cl.Carries { cl with
      session := { cl.session with
        filterSubscriptions := cl.session.filterSubscriptions.insert port keywords }
      dispatch := some (req, .send cmd success) } := by
  cases hfits with
  | closing _ _ hcloses => exact hcloses.elim
  | filterTake hcmd hport hkeywords =>
      refine Carries.of_done_at (carriedOut_of_undone hpc rfl) rfl hport ?_ fun p hp => by simp [hp]
      obtain hcmd | hcmd := hcmd
      · simp [Request.refilter, Request.filterOrder, hcmd, hport, hkeywords, FilterOrder.record]
      · simp [Request.refilter, Request.filterOrder, hcmd, hport, hkeywords, hfresh hcmd,
          FilterOrder.record]

/-- A command goes on. -/
theorem advanced_carries {m : SerialManager} (hpc : cl.dispatch = some (req, pc))
    (hfits : pc.Fits req)
    (hfresh : ∀ port keywords success, pc = .filterTake port keywords success →
      req.cmd = "add_filter_rx" → cl.session.filterSubscriptions.lookup port = none)
    (h : cl.advance m req pc = some cl') : cl.Carries cl' := by
  cases advance_advances hpc h with
  | ensured port resp =>
      exact .of_registrations hpc rfl (no_order_of_fits hfits (Or.inl ⟨port, resp, rfl⟩))
        (cl.session.ensureSubscribed_sameRegistrations m port)
  | forgot port resp => exact forgot_carries hpc hfits
  | missed port pc msg htake hnone =>
      obtain rfl | ⟨keywords, success, rfl⟩ := htake
      · exact .of_other (carriedOut_of_undone hpc rfl)
          (no_order_of_fits hfits (Or.inr (Or.inl ⟨port, rfl⟩))) fun p => rfl
      · have htext : s!"{port} 구독 실패" = msg := by
          simpa [advance, SerialManager.subscribe_eq_none.mpr hnone, Response.ofError] using h
        rw [← htext]
        exact .of_undone (carriedOut_of_undone hpc rfl) (carriedOut_of_not_suffix (by decide))
          fun p => rfl
  | subscribed port success op hop =>
      exact .of_other (carriedOut_of_undone hpc rfl)
        (no_order_of_fits hfits (Or.inr (Or.inl ⟨port, rfl⟩))) fun p => rfl
  | filtered port keywords success op hop =>
      exact filtered_carries hpc hfits (hfresh port keywords success rfl)
  | readEnsured port clear =>
      have hsame := cl.session.ensureSubscribed_sameRegistrations m port
      exact .of_undone (carriedOut_of_undone hpc rfl) rfl fun p => by
        rw [hsame.filterSubscriptions]
  | drained port clear s hround _ =>
      have hdrain := cl.session.drainOne_sameRegistrations m port
      rw [hround] at hdrain
      exact .of_same (by simp [carriedOut]) fun p => by rw [hdrain.filterSubscriptions]
  | answered port clear s hround =>
      have hdrain := cl.session.drainOne_sameRegistrations m port
      rw [hround] at hdrain
      have hanswer := s.answerRead_sameRegistrations port clear
      refine .of_other (carriedOut_of_undone hpc rfl)
        (no_order_of_fits hfits (Or.inr (Or.inr ⟨port, clear, rfl⟩))) fun p => ?_
      rw [hanswer.filterSubscriptions, hdrain.filterSubscriptions]
  | failed cmd success hended => exact .of_next hpc (by simp [Pc.carriedOut, Response.carriedOut])
  | sent cmd success hlive => exact .of_next hpc rfl
  | ignored cmd next hended => exact .of_next hpc rfl
  | told cmd next hlive => exact .of_next hpc rfl
  | wrote resp =>
      apply Carries.of_same
      · cases hresp : resp.carriedOut <;>
          simp [carriedOut, hpc, Pc.carriedOut, Outgoing.carriedOut, hresp]
      · exact fun p => rfl

/-- What the streaming task writes is no response. -/
theorem streamed_carries {task : StreamTask} {queue : List RxSubCommand} (lines : List Push) :
    cl.Carries { cl with
      task := task, queue := queue, written := cl.written ++ lines.map Outgoing.push } := by
  apply Carries.of_same
  · have hpushes : (lines.map Outgoing.push).filterMap Outgoing.carriedOut = [] := by
      simp [Outgoing.carriedOut]
    simp only [carriedOut, List.filterMap_append, hpushes, List.append_nil]
  · exact fun p => rfl

/-- An `add_filter_rx` that is about to set a filter has found none. -/
def Fresh (cl : Client) : Prop :=
  ∀ req port keywords success, cl.dispatch = some (req, .filterTake port keywords success) →
    req.cmd = "add_filter_rx" → cl.session.filterSubscriptions.lookup port = none

private theorem began_fresh {m : SerialManager} {env : Env} :
    Fresh { cl with
      session := (Dispatch.start m cl.session req env).2.1
      dispatch := some (req, (Dispatch.start m cl.session req env).2.2) } := by
  intro req' port keywords success hpc hcmd
  obtain ⟨rfl, htake⟩ := Prod.mk.inj (Option.some.inj hpc)
  have hnone := Dispatch.start_fresh htake hcmd
  have hbegins := Dispatch.start_begins m cl.session req env
  rw [htake] at hbegins
  generalize (Dispatch.start m cl.session req env).1 = m' at hbegins
  generalize (Dispatch.start m cl.session req env).2.1 = s at hbegins ⊢
  generalize hpc : Pc.filterTake port keywords success = pc at hbegins
  cases hbegins with
  | filtering => exact hnone
  | closed port' op resp hcmd' => simp [hcmd'] at hcmd
  | _ => simp at hpc

private theorem advanced_fresh {m : SerialManager} (hfits : pc.Fits req)
    (h : cl.Advances m req pc cl') : cl'.Fresh := by
  intro req' port keywords success hpc' hcmd'
  cases h with
  | ignored cmd next hended | told cmd next hlive =>
      obtain ⟨rfl, rfl⟩ := Prod.mk.inj (Option.some.inj hpc')
      cases hfits with
      | closing hcmd hport hcloses => exact hcloses.2.elim
  | drained port clear s hround hpc => simp [hpc] at hpc'
  | wrote resp => simp at hpc'
  | _ => simp at hpc'

/-- A step of a client is carried out as the record shows. -/
theorem step_carries {m m' : SerialManager} {ce : ClientEvent} (hfresh : cl.Fresh)
    (hfits : ∀ req pc, cl.dispatch = some (req, pc) → pc.Fits req)
    (h : cl.step m ce = some (m', cl')) : cl.Carries cl' ∧ cl'.Fresh := by
  cases ce with
  | request req env =>
      simp only [step] at h
      split at h
      · simp at h
      · rename_i hidle
        obtain ⟨-, rfl⟩ := Prod.mk.inj (Option.some.inj h)
        exact ⟨began_carries hidle, began_fresh⟩
  | dispatch =>
      simp only [step] at h
      split at h
      · simp at h
      · rename_i req pc hpc
        obtain ⟨cl'', hadvance, heq⟩ := Option.map_eq_some_iff.mp h
        obtain ⟨-, rfl⟩ := Prod.mk.inj heq
        have hfits' := hfits req pc hpc
        constructor
        · apply advanced_carries hpc hfits' _ hadvance
          rintro port keywords success rfl
          exact hfresh req port keywords success hpc
        · exact advanced_fresh hfits' (advance_advances hpc hadvance)
  | task order writeOk =>
      simp only [step, Option.map_eq_some_iff, Prod.mk.injEq] at h
      obtain ⟨r, -, -, rfl⟩ := h
      exact ⟨streamed_carries _, hfresh⟩

/-- A step gives at most one order for a port, and the record follows it. -/
theorem Carries.orders_cases (h : cl.Carries cl') (p : String) :
    (cl'.orders p = cl.orders p ∧ cl'.session.filterSubscriptions.lookup p =
      cl.session.filterSubscriptions.lookup p) ∨
    ∃ order, cl'.orders p = cl.orders p ++ [order] ∧
      cl'.session.filterSubscriptions.lookup p =
        order.record (cl.session.filterSubscriptions.lookup p) := by
  obtain ⟨hdone, hrecord⟩ | ⟨req, hdone, hrecord⟩ := h
  · exact Or.inl ⟨by rw [orders, hdone, orders], hrecord p⟩
  · specialize hrecord p
    unfold Request.refilter at hrecord
    cases horder : req.filterOrder p with
    | none =>
        rw [horder] at hrecord
        exact Or.inl ⟨by simp [orders, hdone, horder], hrecord⟩
    | some order =>
        rw [horder] at hrecord
        exact Or.inr ⟨order, by simp [orders, hdone, horder], hrecord⟩

/-- The record follows the orders. -/
theorem Carries.recorded (h : cl.Carries cl') {p : String}
    (hrecord : cl.session.filterSubscriptions.lookup p = recordedBy (cl.orders p)) :
    cl'.session.filterSubscriptions.lookup p = recordedBy (cl'.orders p) := by
  obtain ⟨hsame, hlookup⟩ | ⟨order, hnext, hlookup⟩ := h.orders_cases p
  · rw [hlookup, hsame, hrecord]
  · rw [hlookup, hnext, hrecord, recordedBy_snoc]

theorem Carries.orders_grow (h : cl.Carries cl') (p : String) : cl.orders p <+: cl'.orders p := by
  obtain ⟨hsame, -⟩ | ⟨order, hnext, -⟩ := h.orders_cases p
  · rw [hsame]
  · rw [hnext]
    exact List.prefix_append _ _

end Client

private theorem World.step_client {w w' : World} {c : ClientId} {cl cl' : Client} {ce : ClientEvent}
    (h : w.step (.client c ce) = some w') (hclient : w.clients c = some cl)
    (hclient' : w'.clients c = some cl') : cl.step w.serial ce = some (w'.serial, cl') := by
  simp only [step, hclient, Option.ite_none_right_eq_some, Option.map_eq_some_iff] at h
  obtain ⟨-, r, hr, rfl⟩ := h
  obtain rfl : r.2 = cl' := by simpa [setClient] using hclient'
  exact hr

private theorem fresh_of_run {es : List Event} {w : World} (hrun : daemon.run es = some w)
    {c : ClientId} {cl : Client} (hclient : w.clients c = some cl) : cl.Fresh := by
  refine client_history (P := fun _ _ cl => cl.Fresh) ?_ ?_ ?_ ?_ hrun hclient
  · intro es w req port keywords success hpc
    simp [Client.new] at hpc
  · intro es w w' cl _ _ req port keywords success hpc
    simp [Client.disconnect] at hpc
  · intro es w w' cl cl' ce hes hstep hcl hcl' _ _ hfresh
    exact (Client.step_carries hfresh (fun req pc hpc => fits_of_run hes hcl hpc)
      (World.step_client hstep hcl hcl')).2
  · exact fun _ _ _ _ _ _ _ _ _ _ ih => ih

theorem carries_of_step {es : List Event} {w w' : World} {c : ClientId} {cl cl' : Client}
    {ce : ClientEvent} (hrun : daemon.run es = some w) (hstep : w.step (.client c ce) = some w')
    (hclient : w.clients c = some cl) (hclient' : w'.clients c = some cl') : cl.Carries cl' :=
  (Client.step_carries (fresh_of_run hrun hclient) (fun _ _ hpc => fits_of_run hrun hclient hpc)
    (World.step_client hstep hclient hclient')).1

/-- The record is what the commands have made of it. In every run, a client's
session records for every port what its orders lead to, one after another. -/
theorem recorded_of_run {es : List Event} {w : World} (hrun : daemon.run es = some w)
    {c : ClientId} {cl : Client} (hclient : w.clients c = some cl) (hconn : cl.connected = true)
    (p : String) : cl.session.filterSubscriptions.lookup p = recordedBy (cl.orders p) := by
  refine client_history (P := fun _ _ cl => cl.connected = true →
    cl.session.filterSubscriptions.lookup p = recordedBy (cl.orders p)) ?_ ?_ ?_ ?_ hrun hclient
    hconn
  · intro es w _
    simp [Client.new, ClientSession.new, Client.orders, Client.carriedOut, recordedBy]
  · intro es w w' cl _ _ hgone
    simp [Client.disconnect] at hgone
  · intro es w w' cl cl' ce hes hstep hcl hcl' hconn' _ ih _
    exact (carries_of_step hes hstep hcl hcl').recorded (ih hconn')
  · exact fun _ _ _ _ _ _ _ _ _ _ ih => ih

end Commmon

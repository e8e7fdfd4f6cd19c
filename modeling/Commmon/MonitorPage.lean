/-
# The page of the web monitor

The page makes a line of markup out of every event that its stream brings, with what
the device has sent in it as text. It keeps the last thousand lines. What a device
sends is not markup, whatever its bytes are: the tags of a line are always those
of the page's own template. The port's name and the timestamp go into the line as they
are, so this is said of names that need no escaping.
-/

import Commmon.Lib.Html
import Commmon.MonitorRefresh
import Commmon.Provenance
import Commmon.Wire

set_option autoImplicit false

namespace Commmon

/-- The data of an event of the stream. -/
def ssePayload (portName : String) (entry : RxEntry) : Value :=
  .object [("port", .string portName), ("timestamp", .string entry.timestamp),
    ("ascii", .string (Utf8Lossy.decode entry.data)), ("hex", .string (hexEncode entry.data))]

namespace MonitorPage

open Html (Token)

def maxLines : ℕ := 1000

/-- A field of an event's data. All that is sent have strings here. -/
def field (d : Json) (key : String) : List Char :=
  match d.get key with
  | some (.str s) => s.toList
  | _ => "undefined".toList

def escHtml (s : List Char) : List Char :=
  Html.replaceAll '>' "&gt;".toList (Html.replaceAll '<' "&lt;".toList
    (Html.replaceAll '&' "&amp;".toList s))

/-- The `innerHTML` of a line. -/
def lineHtml (d : Json) (hex : Bool) : List Char :=
  "<span class=\"ts\">".toList ++ field d "timestamp" ++
    "</span> <span class=\"port\">[".toList ++ field d "port" ++
    "]</span> <span class=\"data\">".toList ++ escHtml (field d "ascii") ++ "</span>".toList ++
    if hex then " <span class=\"hex\">[".toList ++ field d "hex" ++ "]</span>".toList else []

end MonitorPage

/-- The page's state. Its `log` has the markup of each line. -/
structure MonitorPage where
  log : List (List Char)
  lines : ℕ
  paused : Bool
  hex : Bool

namespace MonitorPage

def opened : MonitorPage := ⟨[], 0, false, false⟩

/-- A line is appended, and the first ones are removed while there are too many. -/
def append (x : MonitorPage) (html : List Char) : MonitorPage :=
  { x with
    log := (x.log ++ [html]).drop (x.lines + 1 - maxLines)
    lines := min (x.lines + 1) maxLines }

def onmessage (x : MonitorPage) (data : List Char) : MonitorPage :=
  if x.paused then x
  else
    match Json.parse data with
    | none => x
    | some d => x.append (lineHtml d x.hex)

def clear (x : MonitorPage) : MonitorPage := { x with log := [], lines := 0 }

end MonitorPage

/-- `stream` is the stream that the page's `EventSource` is connected to, and `seen` is how
many of its events have been handled. -/
structure MonitorView where
  world : MonitorWorld
  stream : Option ℕ
  seen : ℕ
  page : MonitorPage

inductive MonitorViewEvent
  | monitor (e : MonitorEvent)
  | connect (h : ℕ)
  | message
  | lost
  | pause
  | clear
  | hex

/-- The step that the daemon takes. -/
def MonitorEvent.daemon? : MonitorEvent → Option Event
  | .daemon e => some e
  | .accept _ | .stream .. => none

def MonitorViewEvent.daemon? : MonitorViewEvent → Option Event
  | .monitor e => e.daemon?
  | _ => none

namespace MonitorView

/-- The event that is handled next. -/
def next (x : MonitorView) : Option (String × Arrival) :=
  x.stream.bind fun h => (x.world.streams h).bind fun s => s.emitted[x.seen]?

def step (showFloat : Rat → NumLit) (x : MonitorView) : MonitorViewEvent → Option MonitorView
  | .monitor e => (monitoring.step x.world e).map fun world => { x with world := world }
  | .connect h =>
      match x.stream with
      | some _ => none
      | none => (monitoring.step x.world (.accept h)).map fun world =>
          { x with world := world, stream := some h, seen := 0 }
  | .message => x.next.map fun (portName, a) =>
      { x with
        seen := x.seen + 1
        page := x.page.onmessage ((ssePayload portName a.entry).toJson showFloat).print }
  | .lost => some { x with stream := none }
  | .pause => some { x with page := { x.page with paused := !x.page.paused } }
  | .clear => some { x with page := x.page.clear }
  | .hex => some { x with page := { x.page with hex := !x.page.hex } }

/-- A step of the view is one of the monitor's, or leaves it as it is. -/
theorem world_step {showFloat : Rat → NumLit} {x x' : MonitorView} {e : MonitorViewEvent}
    (hstep : x.step showFloat e = some x') :
    x'.world = x.world ∧ e.daemon? = none ∨
      ∃ e', monitoring.step x.world e' = some x'.world ∧ e.daemon? = e'.daemon? := by
  cases e with
  | monitor e =>
      obtain ⟨world, hworld, rfl⟩ := Option.map_eq_some_iff.mp hstep
      exact Or.inr ⟨e, hworld, rfl⟩
  | connect h =>
      simp only [step] at hstep
      split at hstep
      · cases hstep
      · obtain ⟨world, hworld, rfl⟩ := Option.map_eq_some_iff.mp hstep
        exact Or.inr ⟨.accept h, hworld, rfl⟩
  | message =>
      obtain ⟨y, -, rfl⟩ := Option.map_eq_some_iff.mp hstep
      exact Or.inl ⟨rfl, rfl⟩
  | lost | pause | clear | hex => exact Or.inl ⟨Option.some.inj hstep ▸ rfl, rfl⟩

/-- What an event shows on the page. -/
def shows (x : MonitorView) : MonitorViewEvent → List (String × Arrival × Bool)
  | .message => if x.page.paused then [] else
      x.next.toList.map fun (portName, a) => (portName, a, x.page.hex)
  | _ => []

end MonitorView

/-- All runs of the monitor with a browser. -/
def monitorView (showFloat : Rat → NumLit) : StepSystem MonitorView MonitorViewEvent where
  init := ⟨monitoring.init, none, 0, .opened⟩
  step := MonitorView.step showFloat

namespace MonitorPage

/-- The texts and the tags of an entry's line. -/
def template (portName : String) (entry : RxEntry) (hex : Bool) : List (List Char × List Char) :=
  [([], "span class=\"ts\"".toList), (entry.timestamp.toList, "/span".toList),
    ([' '], "span class=\"port\"".toList), ('[' :: (portName.toList ++ [']']), "/span".toList),
    ([' '], "span class=\"data\"".toList), (Utf8Lossy.chars entry.data, "/span".toList)] ++
    if hex then [([' '], "span class=\"hex\"".toList),
      ('[' :: ((hexEncode entry.data).toList ++ [']']), "/span".toList)] else []

/-- The name needs no escaping. -/
def Plain (text : List Char) : Prop := ∀ c ∈ text, c ≠ '<' ∧ c ≠ '>' ∧ c ≠ '&'

instance : DecidablePred Plain := fun text => List.decidableBAll _ text

private theorem isTag_template (portName : String) (entry : RxEntry) (hex : Bool) :
    ∀ p ∈ template portName entry hex, Html.IsTag p.2 := by
  cases hex <;>
    · simp [template]
      decide

private theorem escHtml_eq (s : List Char) : escHtml s = Html.escape s :=
  (Html.escape_eq_replaceAll s).symm

private theorem plain_hexEncode (data : List UInt8) : Plain (hexEncode data).toList := by
  have hdigit : ∀ n < 16, n.digitChar ≠ '<' ∧ n.digitChar ≠ '>' ∧ n.digitChar ≠ '&' := by decide
  intro c hc
  rw [hexEncode, String.toList_ofList] at hc
  obtain ⟨b, -, hb⟩ := List.mem_flatMap.mp hc
  have hlt : b.toNat / 16 < 16 := Nat.div_lt_of_lt_mul b.toNat_lt
  obtain rfl | hb := List.mem_cons.mp hb
  · exact hdigit _ hlt
  · obtain rfl := List.mem_singleton.mp hb
    exact hdigit _ (Nat.mod_lt _ (by decide))

private theorem escape_bracketed {text : List Char} (h : Plain text) :
    Html.escape ('[' :: (text ++ [']'])) = '[' :: (text ++ [']']) :=
  Html.escape_of_plain (List.forall_mem_cons.mpr ⟨by decide,
    List.forall_mem_append.mpr ⟨h, by simp⟩⟩)

private theorem field_payload (showFloat : Rat → NumLit) (portName : String) (entry : RxEntry) :
    field ((ssePayload portName entry).toJson showFloat) "timestamp" = entry.timestamp.toList ∧
      field ((ssePayload portName entry).toJson showFloat) "port" = portName.toList ∧
      field ((ssePayload portName entry).toJson showFloat) "ascii" =
        Utf8Lossy.chars entry.data ∧
      field ((ssePayload portName entry).toJson showFloat) "hex" =
        (hexEncode entry.data).toList := by
  refine ⟨?_, ?_, ?_, ?_⟩ <;>
    simp [field, ssePayload, Value.toJson, fieldsToJson, Json.get, List.insertionSort,
      List.orderedInsert, List.lookup_cons, Utf8Lossy.toList_decode]

/-- The pieces of markup between the texts. -/
theorem markup_eq :
    "<span class=\"ts\">".toList = '<' :: ("span class=\"ts\"".toList ++ ['>']) ∧
      "</span> <span class=\"port\">[".toList = ('<' :: ("/span".toList ++ ['>'])) ++
        ([' '] ++ (('<' :: ("span class=\"port\"".toList ++ ['>'])) ++ ['['])) ∧
      "]</span> <span class=\"data\">".toList = [']'] ++ (('<' :: ("/span".toList ++ ['>'])) ++
        ([' '] ++ ('<' :: ("span class=\"data\"".toList ++ ['>'])))) ∧
      "</span>".toList = '<' :: ("/span".toList ++ ['>']) ∧
      " <span class=\"hex\">[".toList =
        [' '] ++ (('<' :: ("span class=\"hex\"".toList ++ ['>'])) ++ ['[']) ∧
      "]</span>".toList = [']'] ++ ('<' :: ("/span".toList ++ ['>'])) := by
  decide

/-- The line of an entry is the template with its texts escaped. -/
theorem lineHtml_payload (showFloat : Rat → NumLit) {portName : String} {entry : RxEntry}
    (hport : Plain portName.toList) (htimestamp : Plain entry.timestamp.toList) (hex : Bool) :
    lineHtml ((ssePayload portName entry).toJson showFloat) hex =
      Html.render (template portName entry hex) := by
  obtain ⟨hts, hname, hascii, hdigits⟩ := field_payload showFloat portName entry
  obtain ⟨htag₁, htag₂, htag₃, htag₄, htag₅, htag₆⟩ := markup_eq
  have hempty : Html.escape [] = [] := rfl
  have hspace : Html.escape [' '] = [' '] := rfl
  unfold lineHtml
  rewrite [hts, hname, hascii, hdigits, escHtml_eq, htag₁, htag₂, htag₃, htag₄, htag₅, htag₆]
  simp only [template, Html.render, List.cons_append, List.nil_append, List.append_assoc,
    Html.escape_of_plain htimestamp, escape_bracketed hport, hempty, hspace]
  cases hex with
  | false => simp only [Bool.false_eq_true, if_false, Html.render]
  | true =>
      simp only [if_true, Html.render, escape_bracketed (plain_hexEncode _), hspace,
        List.cons_append, List.nil_append, List.append_nil, List.append_assoc]

end MonitorPage

/-- The receivers of a stream are of their ports, and so is what it has emitted. -/
structure SseStream.Sourced (ds : List Event) (x : SseStream) : Prop where
  receivers : ∀ p rx, x.receivers.lookup p = some rx → OpenedAs ds p rx.chan
  emitted : ∀ e ∈ x.emitted, e.2.From e.1 ds

theorem SseStream.Sourced.later {ds : List Event} {x : SseStream} (h : x.Sourced ds) (e : Event) :
    x.Sourced (ds ++ [e]) :=
  ⟨fun p rx hrx => (h.receivers p rx hrx).later [e], fun x hx => (h.emitted x hx).later e⟩

/-- A step emits nothing, or what the receiver of a port receives. -/
theorem SseStream.step_emitted {x x' : SseStream} {m : SerialManager} {order : List String}
    (hstep : x.step m order = some x') :
    x'.emitted = x.emitted ∨ ∃ p rx entry, x.receivers.lookup p = some rx ∧
      (m.channels rx.chan).sent[rx.next]? = some entry ∧
      x'.emitted = x.emitted ++ [(p, ⟨rx.chan, rx.next, entry⟩)] := by
  cases hpc : x.pc with
  | naming =>
      simp only [step, hpc] at hstep
      split_ifs at hstep
      exact Or.inl (Option.some.inj hstep ▸ rfl)
  | sleeping =>
      simp only [step, hpc] at hstep
      exact Or.inl (Option.some.inj hstep ▸ rfl)
  | subscribing names todo =>
      cases todo with
      | nil =>
          simp only [step, hpc] at hstep
          split_ifs at hstep
          · exact Or.inl (Option.some.inj hstep ▸ rfl)
          · exact Or.inl (Option.some.inj hstep ▸ rfl)
      | cons name todo =>
          simp only [step, hpc] at hstep
          exact Or.inl (Option.some.inj hstep ▸ rfl)
  | polling todo gotData =>
      cases todo with
      | nil =>
          simp only [step, hpc] at hstep
          exact Or.inl (Option.some.inj hstep ▸ rfl)
      | cons p todo =>
          cases hrx : x.receivers.lookup p with
          | none =>
              simp only [step, hpc, hrx] at hstep
              exact Or.inl (Option.some.inj hstep ▸ rfl)
          | some rx =>
              obtain ⟨entry, hentry, -, -, heq⟩ | ⟨next, -, heq⟩ :=
                step_polling (m := m) order hpc hrx
              · obtain rfl := Option.some.inj (heq.symm.trans hstep)
                exact Or.inr ⟨p, rx, entry, hrx, hentry, rfl⟩
              · exact Or.inl (Option.some.inj (heq.symm.trans hstep) ▸ rfl)

theorem SseStream.Sourced.step {ds : List Event} {d : World} (hrun : daemon.run ds = some d)
    {x x' : SseStream} (h : x.Sourced ds) {order : List String}
    (hstep : x.step d.serial order = some x') : x'.Sourced ds := by
  constructor
  · intro p rx hrx
    obtain hsame | ⟨-, hnew⟩ | ⟨hnone, -⟩ | ⟨r, next, hr, hr', -⟩ := step_lookup hstep p
    · exact h.receivers p rx (hsame.symm.trans hrx)
    · obtain ⟨op, hop, rfl⟩ := SerialManager.subscribe_eq_some.mp (hnew.symm.trans hrx)
      exact .now hrun hop
    · exact absurd (hnone.symm.trans hrx) (by simp)
    · obtain rfl := Option.some.inj (hr'.symm.trans hrx)
      exact h.receivers p r hr
  · obtain hsame | ⟨p, rx, entry, hrx, hentry, hnew⟩ := step_emitted hstep
    · exact hsame ▸ h.emitted
    · rw [hnew]
      refine List.forall_mem_append.mpr ⟨h.emitted, List.forall_mem_singleton.mpr ?_⟩
      exact Arrival.from_received hrun (h.receivers p rx hrx) hentry

/-- The daemon has taken the steps `ds`, and what the streams have emitted was delivered in
them. -/
structure MonitorWorld.Sourced (ds : List Event) (w : MonitorWorld) : Prop where
  reached : Commmon.daemon.run ds = some w.daemon
  streams : ∀ h x, w.streams h = some x → x.Sourced ds

theorem MonitorWorld.Sourced.step {ds : List Event} {w w' : MonitorWorld} (hw : w.Sourced ds)
    {e : MonitorEvent} (hstep : monitoring.step w e = some w') :
    w'.Sourced (ds ++ e.daemon?.toList) := by
  cases e with
  | daemon e =>
      obtain ⟨d, hd, rfl⟩ := Option.map_eq_some_iff.mp hstep
      exact ⟨Commmon.daemon.run_snoc_eq_some.mpr ⟨w.daemon, hw.reached, hd⟩,
        fun h x hx => (hw.streams h x hx).later e⟩
  | accept h =>
      rw [MonitorEvent.daemon?, Option.toList_none, List.append_nil]
      simp only [monitoring, MonitorWorld.step] at hstep
      split at hstep
      · cases hstep
      · obtain rfl := Option.some.inj hstep
        refine ⟨hw.reached, fun i x hx => ?_⟩
        rw [streams_setStream] at hx
        split_ifs at hx
        · obtain rfl := Option.some.inj hx
          exact ⟨by simp [SseStream.new], by simp [SseStream.new]⟩
        · exact hw.streams i x hx
  | stream h order =>
      rw [MonitorEvent.daemon?, Option.toList_none, List.append_nil]
      simp only [monitoring, MonitorWorld.step] at hstep
      split at hstep
      · rename_i x hx
        obtain ⟨x', hx', rfl⟩ := Option.map_eq_some_iff.mp hstep
        refine ⟨hw.reached, fun i y hy => ?_⟩
        rw [streams_setStream] at hy
        split_ifs at hy
        · obtain rfl := Option.some.inj hy
          exact (hw.streams h x hx).step hw.reached hx'
        · exact hw.streams i y hy
      · cases hstep

section

variable {showFloat : Rat → NumLit} {before es : List MonitorViewEvent} {w₀ w w' : MonitorView}

private theorem MonitorView.sourced_step {ds : List Event} (hw : w.world.Sourced ds)
    {e : MonitorViewEvent} (hstep : w.step showFloat e = some w') :
    w'.world.Sourced (ds ++ e.daemon?.toList) := by
  obtain ⟨hsame, hnone⟩ | ⟨e', hmonitor, hevent⟩ := world_step hstep
  · rwa [hsame, hnone, Option.toList_none, List.append_nil]
  · rw [hevent]
    exact hw.step hmonitor

/-- The daemon has taken its own steps of the run. -/
theorem MonitorView.sourced_of_run {ds : List Event} (hw : w₀.world.Sourced ds)
    (hrun : (monitorView showFloat).runFrom w₀ es = some w) :
    w.world.Sourced (ds ++ es.filterMap MonitorViewEvent.daemon?) := by
  induction es using List.reverseRecOn generalizing w with
  | nil =>
      obtain rfl := Option.some.inj hrun
      rwa [List.filterMap_nil, List.append_nil]
  | append_singleton es e ih =>
      rw [StepSystem.runFrom_append, Option.bind_eq_some_iff] at hrun
      obtain ⟨u, hu, hlast⟩ := hrun
      obtain ⟨w', hstep, hlast⟩ := (monitorView showFloat).runFrom_cons_eq_some.mp hlast
      obtain rfl := Option.some.inj hlast
      have hone : [e].filterMap MonitorViewEvent.daemon? = e.daemon?.toList := by
        cases h : e.daemon? <;> simp [h]
      rw [List.filterMap_append, hone, ← List.append_assoc]
      exact sourced_step (ih hu) hstep

/-- The page shows the last of what has come. -/
structure MonitorPage.Shows (showFloat : Rat → NumLit) (x : MonitorPage)
    (taken : List (String × Arrival × Bool)) : Prop where
  log : x.log = (taken.rtake maxLines).map fun t =>
    lineHtml ((ssePayload t.1 t.2.1.entry).toJson showFloat) t.2.2
  lines : x.lines = x.log.length

theorem MonitorPage.Shows.append {x : MonitorPage} {taken : List (String × Arrival × Bool)}
    (h : x.Shows showFloat taken) (t : String × Arrival × Bool) :
    (x.append (lineHtml ((ssePayload t.1 t.2.1.entry).toJson showFloat) t.2.2)).Shows showFloat
      (taken ++ [t]) := by
  have hlines : x.lines = (taken.rtake maxLines).length := by
    rw [h.lines, h.log, List.length_map]
  have hle : x.lines ≤ maxLines := by
    rw [hlines, Window.length_rtake]
    exact Nat.min_le_left _ _
  constructor
  · have hdrop : (taken ++ [t]).rtake maxLines =
        (taken.rtake maxLines ++ [t]).drop (x.lines + 1 - maxLines) := by
      rw [← Window.rtake_rtake_append, List.rtake, List.length_append, ← hlines,
        List.length_singleton]
    rw [hdrop, MonitorPage.append, h.log, List.map_drop, List.map_append, List.map_singleton]
  · simp only [MonitorPage.append, List.length_drop, List.length_append, List.length_singleton,
      ← h.lines]
    omega

theorem MonitorPage.Shows.message {x : MonitorPage} {taken : List (String × Arrival × Bool)}
    (h : x.Shows showFloat taken) (portName : String) (a : Arrival) :
    (x.onmessage ((ssePayload portName a.entry).toJson showFloat).print).Shows showFloat
      (taken ++ if x.paused then [] else [(portName, a, x.hex)]) := by
  unfold MonitorPage.onmessage
  split_ifs
  · rw [List.append_nil]
    exact h
  · rw [Json.parse_print]
    exact h.append (portName, a, x.hex)

theorem MonitorPage.Shows.step {taken : List (String × Arrival × Bool)} {e : MonitorViewEvent}
    (h : w.page.Shows showFloat taken) (he : e ≠ .clear)
    (hstep : w.step showFloat e = some w') : w'.page.Shows showFloat (taken ++ w.shows e) := by
  cases e with
  | message =>
      obtain ⟨y, hnext, rfl⟩ := Option.map_eq_some_iff.mp hstep
      have hshows : w.shows .message = if w.page.paused then [] else [(y.1, y.2, w.page.hex)] := by
        rw [MonitorView.shows, hnext]
        rfl
      rw [hshows]
      exact h.message y.1 y.2
  | clear => exact absurd rfl he
  | monitor e =>
      obtain ⟨world, -, rfl⟩ := Option.map_eq_some_iff.mp hstep
      exact (List.append_nil taken).symm ▸ h
  | connect i =>
      simp only [MonitorView.step] at hstep
      split at hstep
      · cases hstep
      · obtain ⟨world, -, rfl⟩ := Option.map_eq_some_iff.mp hstep
        exact (List.append_nil taken).symm ▸ h
  | lost | pause | hex =>
      obtain rfl := Option.some.inj hstep
      exact (List.append_nil taken).symm ▸ ⟨h.log, h.lines⟩

/-- What is shown was delivered by the device of its port. -/
theorem MonitorView.shows_from {ds : List Event} (hw : w.world.Sourced ds)
    {e : MonitorViewEvent} {t : String × Arrival × Bool} (ht : t ∈ w.shows e) :
    t.2.1.From t.1 ds := by
  cases e with
  | message =>
      rw [shows] at ht
      split_ifs at ht
      · cases ht
      · obtain ⟨y, hy, rfl⟩ := List.mem_map.mp ht
        obtain ⟨h, hstream, hemitted⟩ := Option.bind_eq_some_iff.mp (Option.mem_toList.mp hy)
        obtain ⟨x, hx, hget⟩ := Option.bind_eq_some_iff.mp hemitted
        exact (hw.streams h x hx).emitted y (List.mem_of_getElem? hget)
  | _ => cases ht

theorem MonitorPage.Shows.empty {x : MonitorPage} (hlog : x.log = []) (hlines : x.lines = 0) :
    x.Shows showFloat [] :=
  ⟨by rw [hlog, List.rtake_nil, List.map_nil], by rw [hlines, hlog, List.length_nil]⟩

private theorem MonitorPage.shows_of_run (hempty : w₀.page.Shows showFloat [])
    (hrun : (monitorView showFloat).runFrom w₀ es = some w) (hclear : ∀ e ∈ es, e ≠ .clear) :
    w.page.Shows showFloat ((monitorView showFloat).collect MonitorView.shows w₀ es) := by
  induction es using List.reverseRecOn generalizing w with
  | nil =>
      obtain rfl := Option.some.inj hrun
      exact hempty
  | append_singleton es e ih =>
      rw [StepSystem.runFrom_append, Option.bind_eq_some_iff] at hrun
      obtain ⟨u, hu, hlast⟩ := hrun
      obtain ⟨w', hstep, hlast⟩ := (monitorView showFloat).runFrom_cons_eq_some.mp hlast
      obtain rfl := Option.some.inj hlast
      rw [(monitorView showFloat).collect_snoc hu hstep]
      exact (ih hu fun e' he' => hclear e' (by simp [he'])).step (hclear e (by simp)) hstep

private theorem MonitorView.shows_from_of_run {ds : List Event} (hw : w₀.world.Sourced ds)
    (hrun : (monitorView showFloat).runFrom w₀ es = some w) :
    ∀ t ∈ (monitorView showFloat).collect shows w₀ es,
      t.2.1.From t.1 (ds ++ es.filterMap MonitorViewEvent.daemon?) := by
  induction es using List.reverseRecOn generalizing w with
  | nil => simp [StepSystem.collect]
  | append_singleton es e ih =>
      rw [StepSystem.runFrom_append, Option.bind_eq_some_iff] at hrun
      obtain ⟨u, hu, hlast⟩ := hrun
      obtain ⟨w', hstep, -⟩ := (monitorView showFloat).runFrom_cons_eq_some.mp hlast
      rw [(monitorView showFloat).collect_snoc hu hstep, List.filterMap_append,
        ← List.append_assoc]
      exact List.forall_mem_append.mpr ⟨fun t ht => (ih hu t ht).more _,
        fun t ht => (shows_from (sourced_of_run hw hu) ht).more _⟩

/-- The tokens of an entry's line. -/
def MonitorPage.lineTokens (t : String × Arrival × Bool) : List Html.Token :=
  (template t.1 t.2.1.entry t.2.2).flatMap fun p => (Html.shown p.1).map .char ++ [.tag p.2]

/-- The page shows what the devices have sent, as text. From an empty page on, and as
long as it is not cleared, the lines on the page are those of the last thousand events that
came while it was not paused, in their order. If the names of the ports and the timestamps
need no escaping, the tags of every line are the template's own, with the entry's text
between them whatever its bytes are. Each entry was delivered, in the daemon's own steps of the
run, by the device of its port. -/
theorem page_shows_entries (hbefore : (monitorView showFloat).run before = some w₀)
    (hempty : w₀.page.log = [] ∧ w₀.page.lines = 0)
    (hrun : (monitorView showFloat).runFrom w₀ es = some w)
    (hclear : ∀ e ∈ es, e ≠ .clear)
    (hplain : ∀ t ∈ (monitorView showFloat).collect MonitorView.shows w₀ es,
      MonitorPage.Plain t.1.toList ∧ MonitorPage.Plain t.2.1.entry.timestamp.toList) :
    w.page.log.map Html.tokens =
        (((monitorView showFloat).collect MonitorView.shows w₀ es).rtake
          MonitorPage.maxLines).map MonitorPage.lineTokens ∧
      w.page.lines = w.page.log.length ∧
      daemon.run ((before ++ es).filterMap MonitorViewEvent.daemon?) = some w.world.daemon ∧
      ∀ t ∈ (monitorView showFloat).collect MonitorView.shows w₀ es,
        t.2.1.From t.1 ((before ++ es).filterMap MonitorViewEvent.daemon?) := by
  have hshows := MonitorPage.shows_of_run (.empty hempty.1 hempty.2) hrun hclear
  have hinit : (monitorView showFloat).init.world.Sourced [] := ⟨rfl, fun h x hx => by cases hx⟩
  have hbegun := MonitorView.sourced_of_run hinit hbefore
  rw [List.nil_append] at hbegun
  rw [List.filterMap_append]
  refine ⟨?_, hshows.lines, (MonitorView.sourced_of_run hbegun hrun).reached,
    MonitorView.shows_from_of_run hbegun hrun⟩
  rw [hshows.log, List.map_map]
  refine List.map_congr_left fun t ht => ?_
  obtain ⟨hport, htimestamp⟩ := hplain t (List.mem_of_mem_drop ht)
  rw [Function.comp_apply, MonitorPage.lineHtml_payload showFloat hport htimestamp,
    Html.tokens_render (MonitorPage.isTag_template _ _ _)]
  rfl

end

/-- A browser at the monitor while a port is open. -/
def watching : List MonitorViewEvent :=
  (Event.connect 0 :: issue 0 (portRequest "open_port" "P") 2).map (fun e =>
    .monitor (.daemon e)) ++ [.connect 0]

/-- The device sends what would be a tag. -/
def markupSent : List MonitorViewEvent :=
  [.monitor (.stream 0 ["P"]), .monitor (.stream 0 []), .monitor (.stream 0 ["P"]),
    .monitor (.daemon (.deliver 0 ⟨"12:00", [0x3C, 0x62, 0x3E]⟩)), .monitor (.stream 0 []),
    .message]

private theorem markupSent_shows :
    ((monitorView fun _ => .ofNat 0).run watching).any (fun w₀ =>
      decide (w₀.page.log = []) && decide (w₀.page.lines = 0) &&
        ((monitorView fun _ => .ofNat 0).runFrom w₀ markupSent).isSome &&
        decide (((monitorView fun _ => .ofNat 0).collect MonitorView.shows w₀ markupSent).map
          (fun t => (t.1, t.2.1.entry)) = [("P", ⟨"12:00", [0x3C, 0x62, 0x3E]⟩)])) = true := by
  decide +kernel

theorem page_shows_entries_markup : ∃ w₀ w t,
    (monitorView fun _ => .ofNat 0).run watching = some w₀ ∧
      (monitorView fun _ => .ofNat 0).runFrom w₀ markupSent = some w ∧
      (t.1, t.2.1.entry) = ("P", (⟨"12:00", [0x3C, 0x62, 0x3E]⟩ : RxEntry)) ∧
      w.page.log.map Html.tokens = [MonitorPage.lineTokens t] ∧
      t.2.1.From t.1 ((watching ++ markupSent).filterMap MonitorViewEvent.daemon?) := by
  obtain ⟨w₀, hw₀, htest⟩ := (Option.any_eq_true _ _).mp markupSent_shows
  simp only [Bool.and_eq_true, decide_eq_true_eq] at htest
  obtain ⟨⟨⟨hlog, hlines⟩, hruns⟩, hshown⟩ := htest
  obtain ⟨w, hw⟩ := Option.isSome_iff_exists.mp hruns
  obtain ⟨t, hcollect, ht⟩ := List.map_eq_singleton_iff.mp hshown
  obtain ⟨hport, hentry⟩ := Prod.mk.inj ht
  have hclear : ∀ e ∈ markupSent, e ≠ .clear := by simp [markupSent]
  obtain ⟨htokens, -, -, hfrom⟩ := page_shows_entries hw₀ ⟨hlog, hlines⟩ hw hclear (by
    rw [hcollect, List.forall_mem_singleton, hport, hentry]
    decide)
  rw [hcollect] at htokens hfrom
  have hshort : [t].length ≤ MonitorPage.maxLines := Nat.succ_le_of_lt (by decide)
  rw [Window.rtake_of_length_le hshort] at htokens
  exact ⟨w₀, w, t, hw₀, hw, ht, htokens, hfrom t List.mem_cons_self⟩

end Commmon

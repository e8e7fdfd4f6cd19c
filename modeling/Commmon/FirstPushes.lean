/-
# What a new buffer misses

The buffer of a port is made by the tool that subscribed, when its promise has
been resolved. The data handler that resolves the promise first handles the rest
of its chunk, and what it handles for the port before the tool goes on is not
kept: there is no buffer yet, or the tool replaces the one there is. And of a push that a data
event ends within, the port's name may be garbled, so that it finds no buffer.

The messages here are those that the daemon writes, in whatever order, and the data events are
the bytes of their lines, cut anywhere. The pushes that belong to an earlier registration of
the port come first. How many of those that are handled since the call are older is part of
a run here.
-/

import Commmon.CutLines

set_option autoImplicit false

namespace Commmon

open Utf8Lossy (replacement)

/-- The bytes of a data event. -/
def McpEvent.chunk? : McpEvent → Option (List UInt8)
  | .data chunk => some chunk
  | .call _ | .resume | .readRxStream _ _ | .readFilterHits _ _ => none

/-- The data events of a run. -/
def chunksOf (es : List McpEvent) : List (List UInt8) := es.filterMap McpEvent.chunk?

private theorem chunksOf_append (es fs : List McpEvent) :
    chunksOf (es ++ fs) = chunksOf es ++ chunksOf fs :=
  List.filterMap_append

namespace McpServer

variable {s t : McpServer} {kind : BufferKind} {port : String}

/-- The text that is kept is what the data events leave. -/
theorem buffer_step {e : McpEvent} (hstep : s.step e = some t) :
    t.client.buffer = kept s.client.buffer (chunksOf [e]) := by
  cases e with
  | call tool =>
      obtain rfl := Option.some.inj hstep
      rfl
  | data chunk =>
      simp only [step] at hstep
      split_ifs at hstep
      obtain rfl := Option.some.inj hstep
      exact s.client.buffer_onBytes chunk
  | resume =>
      obtain ⟨r, -, rfl⟩ := Option.map_eq_some_iff.mp hstep
      exact ToolCall.buffer_resume r.1 s.client r.2
  | readRxStream p clear =>
      obtain rfl := Option.some.inj hstep
      rfl
  | readFilterHits p clear =>
      obtain rfl := Option.some.inj hstep
      rfl

private theorem pushes_eq (s : McpServer) (e : McpEvent) :
    s.pushes kind port e =
      (handed s.client.buffer (chunksOf [e])).filterMap (pushFor kind port) := by
  cases e with
  | data chunk =>
      rw [pushes, chunksOf, List.filterMap_cons, McpEvent.chunk?, List.filterMap_nil, handed,
        handed, List.append_nil]
  | _ => rfl

/-- The pushes that a run handles are those of the messages that it is handed. -/
theorem pushesOn_eq (kind : BufferKind) (port : String) {es : List McpEvent} :
    ∀ {s : McpServer}, mcpServer.runFrom s es = some t → s.pushesOn kind port es =
        (handed s.client.buffer (chunksOf es)).filterMap (pushFor kind port) ∧
      t.client.buffer = kept s.client.buffer (chunksOf es) := by
  induction es with
  | nil =>
      intro s hrun
      obtain rfl := Option.some.inj hrun
      exact ⟨rfl, rfl⟩
  | cons e es ih =>
      intro s hrun
      obtain ⟨m, hstep, hrest⟩ := mcpServer.runFrom_cons_eq_some.mp hrun
      obtain ⟨hpushes, hbuffer⟩ := ih hrest
      have hchunks : chunksOf (e :: es) = chunksOf [e] ++ chunksOf es := chunksOf_append [e] es
      obtain ⟨hhanded, hkept⟩ := handed_append (chunksOf [e]) (chunksOf es) s.client.buffer
      have hstep : s.step e = some m := hstep
      rw [← buffer_step hstep] at hhanded hkept
      have hcons : s.pushesOn kind port (e :: es) =
          s.pushes kind port e ++ m.pushesOn kind port es := by
        rw [pushesOn, hstep]
      refine ⟨?_, by rw [hbuffer, hchunks, hkept]⟩
      rw [hcons, hpushes, s.pushes_eq, hchunks, hhanded, List.filterMap_append]

end McpServer

/-- A call that makes a buffer, in a run of the server over a connection to which the daemon
writes `written`. The call is answered with success and goes on, and then no other tool touches
the buffer; a tool that keeps a buffer that is there finds the buffer as no other tool has
touched it either. No port is opened under the empty name. -/
structure Subscribing where
  tool : ToolCall
  kind : BufferKind
  port : String
  makes : tool.makes = some (kind, port)
  named : port ≠ ""
  start : List McpEvent
  before : List McpEvent
  after : List McpEvent
  called : McpServer
  answered : McpServer
  resumed : McpServer
  reached : McpServer
  resp : Json
  run_start : mcpServer.run start = some called
  run_before : mcpServer.runFrom called (.call tool :: before) = some answered
  turn : answered.settled[answered.resumed]? = some (called.calls.length, resp)
  succeeded : ToolCall.succeeded resp = true
  step_resume : mcpServer.step answered .resume = some resumed
  run_after : mcpServer.runFrom resumed after = some reached
  untouched : tool.keeps = true →
    mcpServer.Along (fun s e _ => s.touches e ≠ some (kind, port)) called (.call tool :: before)
  kept : mcpServer.Along (fun s e _ => s.touches e ≠ some (kind, port)) resumed after
  showFloat : Rat → NumLit
  written : List Message
  later : List UInt8
  stream : (chunksOf start ++ chunksOf before ++ chunksOf after).flatten ++ later =
    writtenBytes showFloat written
  older : ℕ

namespace Subscribing

variable (x : Subscribing)

/-- The data events of the whole run. -/
def chunks : List (List UInt8) := chunksOf x.start ++ chunksOf x.before ++ chunksOf x.after

/-- How many lines have been handled when the tool is called. -/
def calledLine : ℕ := (handed [] (chunksOf x.start)).length

/-- How many lines have been handled when the tool goes on. -/
def resumedLine : ℕ := (handed [] (chunksOf x.start ++ chunksOf x.before)).length

/-- How many lines have been handled in the end. -/
def reachedLine : ℕ := (handed [] x.chunks).length

/-- What the daemon has pushed for the port in its lines from `i` on, before `j`. -/
def pushed (i j : ℕ) : List Json :=
  ((x.written.take j).drop i).filterMap fun m => pushFor x.kind x.port (m.toJson x.showFloat)

/-- The pushes for the port that are handled before the call goes on. -/
def early : List Json := x.pushed x.calledLine x.resumedLine

/-- Those that are handled after it. -/
def late : List Json := x.pushed x.resumedLine x.reachedLine

/-- The messages of the subscription that have been handled. -/
def messages : List Json := (x.early ++ x.late).drop x.older

/-- The buffer has the most recent messages of the subscription. -/
def Complete : Prop :=
  ∃ buf, x.reached.client.bufferOf x.kind x.port = some buf ∧
    (x.messages.rtake maxRxStreamEntries).Sublist buf

/-- From a line on, no data event ends within a character of a push for the port. (Where the
port's name has replacement characters, the same goes for the other ports' pushes of the
kind, which a cut can turn into pushes for it.) -/
def Uncut (k : ℕ) : Prop :=
  ∀ i, k ≤ i → i < x.reachedLine → ∀ m, x.written[i]? = some m →
    Concerns x.kind x.port (m.toJson x.showFloat) → ¬ CutsLine x.chunks i

/-- What is asked of the timing and of the cuts: no push of the subscription comes before the
tool goes on, or the tool keeps a buffer that was there, and none is cut; or enough
pushes have come since both. -/
def Lossless : Prop :=
  (x.early.length ≤ x.older ∧ x.Uncut x.resumedLine) ∨
  ((x.tool.keeps = true ∧ (x.called.client.bufferOf x.kind x.port).isSome) ∧
    x.Uncut x.calledLine) ∨
  ∃ k, x.resumedLine ≤ k ∧ x.Uncut k ∧ maxRxStreamEntries ≤ (x.pushed k x.reachedLine).length

/-- The calls are only ever appended to. -/
theorem calls_prefix {s t : McpServer} {es : List McpEvent}
    (hrun : mcpServer.runFrom s es = some t) : s.calls <+: t.calls := by
  refine mcpServer.runFrom_invariant (P := fun t => s.calls <+: t.calls) ?_
    (List.prefix_refl _) hrun
  intro m e t hm hstep
  apply hm.trans
  cases e with
  | call tool =>
      obtain rfl := Option.some.inj hstep
      exact List.prefix_append _ _
  | data chunk =>
      simp only [mcpServer, McpServer.step] at hstep
      split_ifs at hstep
      obtain rfl := Option.some.inj hstep
      exact List.prefix_refl _
  | resume =>
      obtain ⟨r, -, rfl⟩ := Option.map_eq_some_iff.mp hstep
      exact List.prefix_refl _
  | readRxStream p clear =>
      obtain rfl := Option.some.inj hstep
      exact List.prefix_refl _
  | readFilterHits p clear =>
      obtain rfl := Option.some.inj hstep
      exact List.prefix_refl _

private theorem turn_answered : x.answered.turn = some (x.tool, x.resp) := by
  obtain ⟨m, hcall, hrest⟩ := mcpServer.runFrom_cons_eq_some.mp x.run_before
  obtain rfl := Option.some.inj hcall
  obtain ⟨more, hmore⟩ := calls_prefix hrest
  have hlookup : x.answered.calls[x.called.calls.length]? = some x.tool := by
    rw [← hmore]
    simp
  rw [McpServer.turn, x.turn]
  simp [hlookup]

/-- The buffer that the call leaves. -/
theorem bufferOf_resumed : x.resumed.client.bufferOf x.kind x.port =
    some (if x.tool.keeps then (x.answered.client.bufferOf x.kind x.port).getD [] else []) := by
  obtain ⟨r, hr, hresumed⟩ := Option.map_eq_some_iff.mp x.step_resume
  obtain rfl : (x.tool, x.resp) = r := Option.some.inj (x.turn_answered.symm.trans hr)
  rw [← hresumed]
  exact ToolCall.bufferOf_resume x.makes x.succeeded

/-- The pushes that the server takes out of the lines from `i` on, before `j`. -/
def taken (i j : ℕ) : List Json :=
  (((handed [] x.chunks).take j).drop i).filterMap (pushFor x.kind x.port)

/-- What is handled falls into three parts. -/
theorem handed_chunks : ∃ first second : List Json,
    handed [] x.chunks = handed [] (chunksOf x.start) ++ first ++ second ∧
      x.called.pushesOn x.kind x.port (.call x.tool :: x.before) =
        first.filterMap (pushFor x.kind x.port) ∧
      x.resumed.pushesOn x.kind x.port x.after = second.filterMap (pushFor x.kind x.port) ∧
      handed [] (chunksOf x.start ++ chunksOf x.before) =
        handed [] (chunksOf x.start) ++ first := by
  obtain ⟨-, hcalled⟩ := McpServer.pushesOn_eq x.kind x.port x.run_start
  obtain ⟨hfirst, hanswered⟩ :=
    McpServer.pushesOn_eq x.kind x.port x.run_before
  obtain ⟨hsecond, -⟩ := McpServer.pushesOn_eq x.kind x.port x.run_after
  have hstep : x.answered.step .resume = some x.resumed := x.step_resume
  have hresumed : x.resumed.client.buffer = x.answered.client.buffer := McpServer.buffer_step hstep
  have hinit : mcpServer.init.client.buffer = [] := rfl
  have hchunks : chunksOf (.call x.tool :: x.before) = chunksOf x.before := rfl
  rw [hinit] at hcalled
  rw [hcalled, hchunks] at hfirst hanswered
  rw [hresumed, hanswered] at hsecond
  obtain ⟨hhanded, hkept⟩ := handed_append (chunksOf x.start) (chunksOf x.before) []
  obtain ⟨hall, -⟩ := handed_append (chunksOf x.start ++ chunksOf x.before) (chunksOf x.after) []
  rw [hhanded, hkept] at hall
  exact ⟨_, _, hall, hfirst, hsecond, hhanded⟩

private theorem pushesOn_taken :
    x.called.pushesOn x.kind x.port (.call x.tool :: x.before) =
        x.taken x.calledLine x.resumedLine ∧
      x.resumed.pushesOn x.kind x.port x.after = x.taken x.resumedLine x.reachedLine := by
  obtain ⟨first, second, hall, hfirst, hsecond, hhanded⟩ := x.handed_chunks
  have hresumed : x.resumedLine = (handed [] (chunksOf x.start) ++ first).length :=
    congrArg List.length hhanded
  rw [hfirst, hsecond, taken, taken, reachedLine, List.take_length, hresumed, calledLine, hall,
    List.take_left, List.drop_left, List.drop_left]
  exact ⟨rfl, rfl⟩

private theorem lines_le : x.calledLine ≤ x.resumedLine ∧ x.resumedLine ≤ x.reachedLine := by
  obtain ⟨first, second, hall, -, -, hhanded⟩ := x.handed_chunks
  rw [calledLine, resumedLine, reachedLine, hall, hhanded]
  simp

/-- A line that has been handled gives the push that it was written as, if that is uncut. -/
theorem pushFor_handed {i : ℕ} (h : x.Uncut i) {k : ℕ} (hk : i ≤ k) :
    ((handed [] x.chunks)[k]?).map (pushFor x.kind x.port) =
      ((x.written.take x.reachedLine)[k]?).map fun m =>
        pushFor x.kind x.port (m.toJson x.showFloat) := by
  obtain ⟨n, hhanded, -⟩ := exists_handedOn x.stream
  have hhanded : HandedOn x.showFloat x.written x.chunks n := hhanded
  have hn : x.reachedLine = n := hhanded.length
  cases hmsg : (handed [] x.chunks)[k]? with
  | none =>
      have hle : x.reachedLine ≤ k := List.getElem?_eq_none_iff.mp hmsg
      rw [List.getElem?_eq_none ((List.length_take_le _ _).trans hle)]
      rfl
  | some msg =>
      obtain ⟨hlt, m, hm, hblurred⟩ := hhanded.exists_written hmsg
      have hsame : pushFor x.kind x.port msg = pushFor x.kind x.port (m.toJson x.showFloat) := by
        refine pushFor_of_intact hblurred fun hconcerns => ?_
        have hintact := hhanded.intact k hlt (h k hk (hn ▸ hlt) m hm hconcerns)
        rw [hmsg, hm] at hintact
        exact Option.some.inj hintact
      rw [List.getElem?_take_of_lt (hn ▸ hlt), hm, Option.map_some, Option.map_some, hsame]

/-- Where no push for the port is cut, the server takes the daemon's. -/
theorem taken_eq_pushed {i j : ℕ} (h : x.Uncut i) (hj : j ≤ x.reachedLine) :
    x.taken i j = x.pushed i j := by
  have hsame : (((handed [] x.chunks).take j).drop i).map (pushFor x.kind x.port) =
      ((x.written.take j).drop i).map fun m => pushFor x.kind x.port (m.toJson x.showFloat) := by
    refine List.ext_getElem? fun k => ?_
    rw [List.getElem?_map, List.getElem?_map, List.getElem?_drop, List.getElem?_drop]
    by_cases hk : i + k < j
    · have hline := x.pushFor_handed h (Nat.le_add_right i k)
      rw [List.getElem?_take_of_lt (by omega)] at hline
      rw [List.getElem?_take_of_lt hk, List.getElem?_take_of_lt hk, hline]
    · have hout : ∀ {α : Type} (l : List α), (l.take j)[i + k]? = none := fun l =>
        List.getElem?_eq_none ((List.length_take_le j l).trans (Nat.not_lt.mp hk))
      rw [hout, hout]
      rfl
  have hid := congrArg (List.filterMap id) hsame
  rwa [List.filterMap_map, List.filterMap_map] at hid

private theorem bufferOf_reached : x.reached.client.bufferOf x.kind x.port =
    some (if x.tool.keeps then
      match x.called.client.bufferOf x.kind x.port with
      | some buf => Window.keep maxRxStreamEntries buf
          (x.taken x.calledLine x.resumedLine ++ x.taken x.resumedLine x.reachedLine)
      | none => (x.taken x.resumedLine x.reachedLine).rtake maxRxStreamEntries
    else (x.taken x.resumedLine x.reachedLine).rtake maxRxStreamEntries) := by
  obtain ⟨hfirst, hsecond⟩ := x.pushesOn_taken
  rw [McpServer.bufferOf_runFrom x.named x.kept x.run_after, bufferOf_resumed, Option.map_some,
    hsecond]
  congr 1
  split_ifs with hkeeps
  · rw [McpServer.bufferOf_runFrom x.named (x.untouched hkeeps) x.run_before, hfirst]
    cases x.called.client.bufferOf x.kind x.port with
    | none => exact Window.keep_nil _ _
    | some buf => exact (Window.keep_append _ _ _ _).symm
  · exact Window.keep_nil _ _

/-- The last pushes that are taken after the tool has gone on are in the buffer. -/
theorem exists_buffer (k : ℕ) : ∃ buf, x.reached.client.bufferOf x.kind x.port = some buf ∧
    (((x.taken x.resumedLine x.reachedLine).drop k).rtake maxRxStreamEntries).Sublist buf := by
  generalize htaken : x.taken x.resumedLine x.reachedLine = late
  refine ⟨_, x.bufferOf_reached, ?_⟩
  rw [htaken]
  have hlate : ((late.drop k).rtake maxRxStreamEntries).Sublist
      (late.rtake maxRxStreamEntries) := by
    rw [← List.nil_append late]
    exact Window.rtake_drop_append_sublist_iff.mpr (Or.inl (Nat.zero_le _))
  split_ifs
  · cases x.called.client.bufferOf x.kind x.port with
    | none => exact hlate
    | some buf =>
        have hkeep := Window.rtake_drop_suffix_keep maxRxStreamEntries buf
          (x.taken x.calledLine x.resumedLine ++ late)
          ((x.taken x.calledLine x.resumedLine).length + k)
        rw [List.drop_length_add_append] at hkeep
        exact hkeep.sublist
  · exact hlate

/-- The lines behind a line are among those behind an earlier one. -/
theorem suffix_late {k : ℕ} (hk : x.resumedLine ≤ k) :
    x.pushed k x.reachedLine <:+ x.late ∧
      x.taken k x.reachedLine <:+ x.taken x.resumedLine x.reachedLine := by
  obtain ⟨d, rfl⟩ := Nat.exists_eq_add_of_le hk
  constructor
  · rw [late, pushed, pushed, ← List.drop_drop]
    exact (List.drop_suffix d _).filterMap _
  · rw [taken, taken, ← List.drop_drop]
    exact (List.drop_suffix d _).filterMap _

private theorem Uncut.mono {x : Subscribing} {k l : ℕ} (h : x.Uncut k) (hkl : k ≤ l) : x.Uncut l :=
  fun i hi => h i (hkl.trans hi)

/-- Enough pushes behind the last cut fill the buffer. -/
theorem complete_of_enough {k : ℕ} (hk : x.resumedLine ≤ k) (huncut : x.Uncut k)
    (henough : maxRxStreamEntries ≤ (x.pushed k x.reachedLine).length) : x.Complete := by
  obtain ⟨⟨first, hlate⟩, ⟨second, htaken⟩⟩ := x.suffix_late hk
  have hsame := x.taken_eq_pushed huncut le_rfl
  obtain ⟨buf, hbuf, hsub⟩ := x.exists_buffer second.length
  rw [← htaken, List.drop_left, hsame] at hsub
  refine ⟨buf, hbuf, List.Sublist.trans ?_ hsub⟩
  rw [messages, ← hlate, ← List.append_assoc]
  exact Window.rtake_drop_append_sublist_iff.mpr (Or.inr henough)

/-- A buffer that was there, and is kept, has all of them. -/
theorem complete_of_kept (hkeeps : x.tool.keeps = true)
    (hbuffer : (x.called.client.bufferOf x.kind x.port).isSome) (huncut : x.Uncut x.calledLine) :
    x.Complete := by
  obtain ⟨old, hold⟩ := Option.isSome_iff_exists.mp hbuffer
  have hreached := x.bufferOf_reached
  rw [if_pos hkeeps, hold, x.taken_eq_pushed huncut x.lines_le.2,
    x.taken_eq_pushed (huncut.mono x.lines_le.1) le_rfl] at hreached
  exact ⟨_, hreached, (Window.rtake_drop_suffix_keep _ old _ x.older).sublist⟩

private theorem complete_of_late (htime : x.early.length ≤ x.older)
    (huncut : x.Uncut x.resumedLine) : x.Complete := by
  obtain ⟨buf, hbuf, hsub⟩ := x.exists_buffer (x.older - x.early.length)
  rw [x.taken_eq_pushed huncut le_rfl] at hsub
  refine ⟨buf, hbuf, ?_⟩
  rw [messages, List.drop_append, List.drop_eq_nil_of_le htime, List.nil_append]
  exact hsub

private theorem complete_of_lossless (h : x.Lossless) : x.Complete := by
  obtain ⟨htime, huncut⟩ | ⟨⟨hkeeps, hbuffer⟩, huncut⟩ | ⟨k, hk, huncut, henough⟩ := h
  · exact x.complete_of_late htime huncut
  · exact x.complete_of_kept hkeeps hbuffer huncut
  · exact x.complete_of_enough hk huncut henough

private theorem lossless_of_complete (huncut : x.Uncut x.calledLine) (h : x.Complete) :
    x.Lossless := by
  have hlater := huncut.mono x.lines_le.1
  by_cases hkept : x.tool.keeps = true ∧ (x.called.client.bufferOf x.kind x.port).isSome
  · exact Or.inr (Or.inl ⟨hkept, huncut⟩)
  · have hreached : x.reached.client.bufferOf x.kind x.port =
        some (x.late.rtake maxRxStreamEntries) := by
      rw [bufferOf_reached, x.taken_eq_pushed hlater le_rfl]
      split_ifs with hkeeps
      · cases hbuf : x.called.client.bufferOf x.kind x.port with
        | none => rfl
        | some buf => exact absurd ⟨hkeeps, by rw [hbuf]; rfl⟩ hkept
      · rfl
    obtain ⟨buf, hbuf, hsub⟩ := h
    obtain rfl := Option.some.inj (hreached.symm.trans hbuf)
    obtain htime | henough := Window.rtake_drop_append_sublist_iff.mp hsub
    · exact Or.inl ⟨htime, hlater⟩
    · exact Or.inr (Or.inr ⟨x.resumedLine, le_rfl, hlater, henough⟩)

end Subscribing

/-- What a new buffer misses. The buffer has the most recent of the daemon's pushes for the
subscription if the timing and the cuts allow it, and where no push is cut it has them only
then. -/
theorem Subscribing.buffer_complete_iff (x : Subscribing) :
    (x.Lossless → x.Complete) ∧ (x.Uncut x.calledLine → (x.Complete ↔ x.Lossless)) :=
  ⟨x.complete_of_lossless,
    fun huncut => ⟨x.lossless_of_complete huncut, x.complete_of_lossless⟩⟩

/-- The response to a subscription, and the first push of it. -/
def subscriptionLines (port : String) : List Message :=
  [.response (.successMsg s!"{port} 실시간 RX 구독 시작"),
    .notification (Push.rxData port ⟨0, 0, "12:00:00.000", [0x6F, 0x6B]⟩).notification]

/-- The bytes of the lines from `i` on, before `j`. -/
def subscriptionBytes (port : String) (i j : ℕ) : List UInt8 :=
  writtenBytes (fun _ => .ofNat 0) (((subscriptionLines port).take j).drop i)

/-- The two lines come in some chunks before the tool goes on, and in some after. -/
theorem exists_subscribing (port : String) (before after : List (List UInt8)) (hport : port ≠ "")
    (hstream : (before ++ after).flatten = subscriptionBytes port 0 2)
    (hruns : (mcpServer.run (.call (.subscribeRx port) :: before.map .data)).any (fun s =>
      (s.settled[s.resumed]?).any (fun r => decide (r.1 = 0) && ToolCall.succeeded r.2) &&
        (mcpServer.step s .resume).any fun t =>
          (mcpServer.runFrom t (after.map .data)).isSome) = true) :
    ∃ x : Subscribing, x.calledLine = 0 ∧ x.resumedLine = (handed [] before).length ∧
      x.chunks = before ++ after ∧ x.older = 0 ∧
      (∀ i j, x.pushed i j = (((subscriptionLines port).take j).drop i).filterMap
        fun m => pushFor .rxStream port (m.toJson fun _ => .ofNat 0)) ∧
      x.reached.client.bufferOf x.kind x.port = some ((((handed [] (before ++ after)).drop
        (handed [] before).length).filterMap (pushFor .rxStream port)).rtake
          maxRxStreamEntries) := by
  have hdata : ∀ chunks : List (List UInt8), chunksOf (chunks.map .data) = chunks := by
    intro chunks
    rw [chunksOf, List.filterMap_map]
    exact List.filterMap_some
  obtain ⟨answered, hrun, hnext⟩ := (Option.any_eq_true _ _).mp hruns
  obtain ⟨hsettled, hresume⟩ := (Bool.and_eq_true _ _).mp hnext
  obtain ⟨⟨i, resp⟩, hresp, hok⟩ := (Option.any_eq_true _ _).mp hsettled
  obtain ⟨hi, hok⟩ := (Bool.and_eq_true _ _).mp hok
  obtain rfl : i = 0 := of_decide_eq_true hi
  obtain ⟨resumed, hresumed, hafter⟩ := (Option.any_eq_true _ _).mp hresume
  obtain ⟨reached, hreached⟩ := Option.isSome_iff_exists.mp hafter
  have hkept : mcpServer.Along (fun s e _ => s.touches e ≠ some (.rxStream, port)) resumed
      (after.map .data) := by
    refine mcpServer.along_of_labels (fun e he s t => ?_) resumed
    obtain ⟨chunk, -, rfl⟩ := List.mem_map.mp he
    exact Option.some_ne_none _ |>.symm
  have hwritten : (chunksOf [] ++ chunksOf (before.map .data) ++
      chunksOf (after.map .data)).flatten ++ [] =
        writtenBytes (fun _ => .ofNat 0) (subscriptionLines port) := by
    rw [hdata, hdata, List.append_nil]
    exact hstream
  let x : Subscribing := {
    tool := .subscribeRx port
    kind := .rxStream
    port := port
    makes := rfl
    named := hport
    start := []
    before := before.map .data
    after := after.map .data
    called := mcpServer.init
    answered := answered
    resumed := resumed
    reached := reached
    resp := resp
    run_start := rfl
    run_before := hrun
    turn := hresp
    succeeded := hok
    step_resume := hresumed
    run_after := hreached
    untouched := fun h => absurd h Bool.false_ne_true
    kept := hkept
    showFloat := fun _ => .ofNat 0
    written := subscriptionLines port
    later := []
    stream := hwritten
    older := 0 }
  have hchunks : x.chunks = before ++ after := by
    change chunksOf [] ++ chunksOf (before.map .data) ++ chunksOf (after.map .data) = _
    rw [hdata, hdata]
    rfl
  have hresumedLine : x.resumedLine = (handed [] before).length := by
    change (handed [] (chunksOf [] ++ chunksOf (before.map .data))).length = _
    rw [hdata]
    rfl
  refine ⟨x, rfl, hresumedLine, hchunks, rfl, fun i j => rfl, ?_⟩
  rw [x.bufferOf_reached, if_neg (by exact Bool.false_ne_true), Subscribing.taken,
    Subscribing.reachedLine, List.take_length, hchunks, hresumedLine]

/-- A push in the chunk of the response is gone when the call has returned. -/
theorem first_pushes_missed : ¬ ∀ x : Subscribing, x.Complete := by
  intro hcomplete
  obtain ⟨x, hcalled, hresumed, hchunks, holder, hpushed, hbuffer⟩ :=
    exists_subscribing "COM3" [subscriptionBytes "COM3" 0 2] []
      (by decide) (by decide +kernel) (by decide +kernel)
  have hnone : ((handed [] ([subscriptionBytes "COM3" 0 2] ++ [])).drop
      (handed [] [subscriptionBytes "COM3" 0 2]).length).filterMap (pushFor .rxStream "COM3") =
        [] := by
    rw [List.append_nil, List.drop_length]
    rfl
  have hearly : x.early.length = 1 := by
    have hlines : (handed [] [subscriptionBytes "COM3" 0 2]).length = 2 := by decide +kernel
    rw [Subscribing.early, hpushed, hcalled, hresumed, hlines]
    decide +kernel
  obtain ⟨buf, hbuf, hsub⟩ := hcomplete x
  rw [hbuffer, hnone] at hbuf
  obtain rfl := Option.some.inj hbuf
  have hlength := hsub.length_le
  rw [Subscribing.messages, holder, List.drop_zero, Window.length_rtake] at hlength
  simp [hearly, maxRxStreamEntries] at hlength

/-- A push whose port name is cut is gone as well, though it comes late enough. -/
private theorem cut_pushes_missed : ∃ x : Subscribing, x.early.length ≤ x.older ∧ ¬ x.Complete := by
  obtain ⟨x, hcalled, hresumed, hchunks, holder, hpushed, hbuffer⟩ :=
    exists_subscribing "한" [subscriptionBytes "한" 0 1]
      [(subscriptionBytes "한" 1 2).take 63, (subscriptionBytes "한" 1 2).drop 63]
      (by decide) (by decide +kernel) (by decide +kernel)
  have hlines : (handed [] [subscriptionBytes "한" 0 1]).length = 1 := by decide +kernel
  have hall : (handed [] ([subscriptionBytes "한" 0 1] ++ [(subscriptionBytes "한" 1 2).take 63,
      (subscriptionBytes "한" 1 2).drop 63])).length = 2 := by decide +kernel
  have hnone : ((handed [] ([subscriptionBytes "한" 0 1] ++ [(subscriptionBytes "한" 1 2).take 63,
      (subscriptionBytes "한" 1 2).drop 63])).drop
        (handed [] [subscriptionBytes "한" 0 1]).length).filterMap (pushFor .rxStream "한") =
          [] := by
    rw [← List.isEmpty_iff]
    decide +kernel
  have hearly : x.early = [] := by
    rw [Subscribing.early, hpushed, hcalled, hresumed, hlines, ← List.isEmpty_iff]
    decide +kernel
  have hlate : x.late.length = 1 := by
    rw [Subscribing.late, hpushed, hresumed, hlines, Subscribing.reachedLine, hchunks, hall]
    decide +kernel
  refine ⟨x, by rw [hearly]; exact Nat.zero_le _, ?_⟩
  rintro ⟨buf, hbuf, hsub⟩
  rw [hbuffer, hnone] at hbuf
  obtain rfl := Option.some.inj hbuf
  have hlength := hsub.length_le
  rw [Subscribing.messages, holder, hearly, List.drop_zero, Window.length_rtake] at hlength
  simp [hlate, maxRxStreamEntries] at hlength

/-- The theorem for a push that comes after the tool has gone on, in a data event of its own,
and for one that is cut. -/
theorem buffer_complete_iff_late :
    (∃ x : Subscribing, x.late.length = 1 ∧ x.Lossless ∧ x.Complete) ∧
      ∃ x : Subscribing, x.early.length ≤ x.older ∧ ¬ x.Lossless ∧ ¬ x.Complete := by
  obtain ⟨y, hearlyCut, hmissed⟩ := cut_pushes_missed
  refine ⟨?_, y, hearlyCut, fun h => hmissed (y.buffer_complete_iff.1 h), hmissed⟩
  obtain ⟨x, hcalled, hresumed, hchunks, holder, hpushed, -⟩ :=
    exists_subscribing "한" [subscriptionBytes "한" 0 1] [subscriptionBytes "한" 1 2] (by decide)
      (by decide +kernel) (by decide +kernel)
  have hlines : (handed [] [subscriptionBytes "한" 0 1]).length = 1 := by decide +kernel
  have hall : (handed [] ([subscriptionBytes "한" 0 1] ++ [subscriptionBytes "한" 1 2])).length =
      2 := by decide +kernel
  have hearly : x.early = [] := by
    rw [Subscribing.early, hpushed, hcalled, hresumed, hlines, ← List.isEmpty_iff]
    decide +kernel
  have hlate : x.late.length = 1 := by
    rw [Subscribing.late, hpushed, hresumed, hlines, Subscribing.reachedLine, hchunks, hall]
    decide +kernel
  have hwhole : ∀ piece ∈ x.chunks, Utf8Lossy.Whole piece := by
    rw [hchunks]
    exact List.forall_mem_cons.mpr ⟨⟨_, rfl⟩, List.forall_mem_singleton.mpr ⟨_, rfl⟩⟩
  have hlossless : x.Lossless :=
    Or.inl ⟨by rw [hearly]; exact Nat.zero_le _, fun i _ _ _ _ _ => not_cutsLine hwhole i⟩
  exact ⟨x, hlate, hlossless, x.buffer_complete_iff.1 hlossless⟩

end Commmon

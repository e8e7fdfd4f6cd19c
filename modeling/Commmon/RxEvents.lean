/-
# What the C++ client takes for an entry

The client calls back for a line that has `notify` and `rx_data` somewhere in
quotes. A response has at most one text that is not the daemon's own, and that
cannot have both. Every notification has the first, and one of another kind has
the second exactly when a text in it is `rx_data`, or ends in a quote and
`rx_data`. The texts of a stop notification are chosen by other clients.
-/

import Commmon.LogStops
import Commmon.Pairing
import Commmon.Replies
import Commmon.RxFields

set_option autoImplicit false

namespace Commmon

open Json (IsWord Shows Token tokens)
open Utf8Lossy (encode)

namespace RxClient

/-- A text of the value shows the word. -/
def Mentions (v : Json) (w : String) : Prop := ∃ s, .text s ∈ tokens v ∧ Shows w.toList s

/-- What the client looks for in a line. -/
theorem parseNotification_isSome_iff (v : Json) :
    (parseNotification (encode v.print)).isSome = true ↔
      Mentions v "notify" ∧ Mentions v "rx_data" := by
  have hfind : ∀ w : String, IsWord w.toList →
      (find (encode v.print) (encode ('"' :: (w.toList ++ ['"']))) ≠ none ↔ Mentions v w) :=
    fun w hw => (find_encode_ne_none_iff (List.cons_ne_nil _ _)).trans
      (Json.quoted_infix_print_iff hw)
  have hnotify : find (encode v.print) (bytes "\"notify\"") ≠ none ↔ Mentions v "notify" :=
    hfind "notify" (by decide)
  have hname : find (encode v.print) (bytes "\"rx_data\"") ≠ none ↔ Mentions v "rx_data" :=
    hfind "rx_data" (by decide)
  rw [← hnotify, ← hname, parseNotification]
  split_ifs with hno hno'
  · simp [hno]
  · simp [hno']
  · simp [hno, hno']

end RxClient

open RxClient (Mentions)

/-- A response with one text at most. -/
def Response.IsMessage (resp : Response) : Prop :=
  resp.data = none ∨ ∃ msg, resp.data = some (.value (.string msg)) ∧ resp.error = none

/-- The commands of the client. -/
def subscribeCommands : List String := ["subscribe_rx", "unsubscribe_rx"]

private theorem Response.Answers.isMessage {cmd : String} {resp : Response} (h : resp.Answers cmd)
    (hcmd : cmd ∈ subscribeCommands) : resp.IsMessage := by
  have hkinds : ∀ cmd ∈ subscribeCommands, cmd ∈ registrationCommands ∧ cmd ≠ "read_port" := by
    decide
  cases h with
  | refused hok hdata => exact Or.inl hdata
  | message msg => exact Or.inr ⟨msg, rfl, rfl⟩
  | read b hread => exact absurd hread (hkinds _ hcmd).2
  | managed hmanaged => exact absurd (hkinds _ hcmd).1 hmanaged

/-- The answers to the client's commands are messages, whatever the other
clients do. -/
theorem isMessage_of_run {es : List Event} {w : World} (hrun : daemon.run es = some w)
    {c : ClientId} {cl : Client} (hclient : w.clients c = some cl) {req : Request}
    {resp : Response} (hmem : .response req resp ∈ cl.written)
    (hcmd : req.cmd ∈ subscribeCommands) : resp.IsMessage :=
  ((answered_of_run hrun hclient).written req resp hmem).isMessage hcmd

/-- A text does not end in both of the words. -/
theorem not_shows_both {s : String} (hnotify : Shows "notify".toList s)
    (hname : Shows "rx_data".toList s) : False := by
  have hsuffix := List.suffix_of_suffix_length_le hnotify hname (by decide)
  exact absurd hsuffix (by decide)

section

variable (showFloat : Rat → NumLit)

/-- The texts of a message are the daemon's own words and one more. -/
theorem Response.IsMessage.texts {resp : Response} (h : resp.IsMessage) :
    ∃ msg, ∀ s, .text s ∈ tokens (resp.toJson showFloat) →
      s ∈ ["ok", "data", "error"] ∨ s = msg := by
  obtain hdata | ⟨msg, hdata, herror⟩ := h
  · refine ⟨resp.error.getD "", fun s hs => ?_⟩
    rw [Response.toJson, hdata, Json.text_mem_tokens_obj] at hs
    cases herror : resp.error with
    | none => simp_all [Json.text_mem_tokens_bool]
    | some e =>
        obtain rfl | rfl | rfl : s = "ok" ∨ s = "error" ∨ s = e := by
          simpa [herror, Json.text_mem_tokens_bool, or_assoc] using hs
        all_goals simp
  · refine ⟨msg, fun s hs => ?_⟩
    rw [Response.toJson, hdata, herror, Json.text_mem_tokens_obj] at hs
    obtain rfl | rfl | rfl : s = "ok" ∨ s = "data" ∨ s = msg := by
      simpa [Json.text_mem_tokens_bool, Payload.toValue, Value.toJson, or_assoc] using hs
    all_goals simp

/-- A message is never taken for an entry. -/
theorem Response.IsMessage.not_mentions {resp : Response} (h : resp.IsMessage) :
    ¬ (Mentions (resp.toJson showFloat) "notify" ∧ Mentions (resp.toJson showFloat) "rx_data") := by
  rintro ⟨⟨s, hs, hnotify⟩, t, ht, hname⟩
  obtain ⟨msg, htexts⟩ := h.texts showFloat
  have hown : ∀ u ∈ ["ok", "data", "error"],
      ¬ Shows "notify".toList u ∧ ¬ Shows "rx_data".toList u := by decide
  obtain hs | rfl := htexts s hs
  · exact (hown s hs).1 hnotify
  · obtain ht | rfl := htexts t ht
    · exact (hown t ht).2 hname
    · exact not_shows_both hnotify hname

end

/-- The texts in the data of a notification. -/
def Notification.texts (n : Notification) : List String :=
  match n.data with
  | .object fields => fields.filterMap fun f => f.2.asStr
  | _ => []

/-- The keys in the data of the daemon's notifications. -/
def dataKeys : List String :=
  ["port", "timestamp", "ascii", "hex", "keyword", "context", "reason", "file"]

/-- The data of a notification is an object of texts. -/
def Notification.OfTexts (n : Notification) : Prop :=
  ∃ fields, n.data = .object fields ∧ ∀ f ∈ fields, f.1 ∈ dataKeys ∧ ∃ s, f.2 = .string s

theorem ofTexts_push (p : Push) : p.notification.OfTexts := by
  cases p with
  | rxData port a => exact ⟨_, rfl, by simp [dataKeys]⟩
  | filterHit port hit => exact ⟨_, rfl, by simp [dataKeys]⟩

private theorem Notification.IsStop.ofTexts {n : Notification} (h : n.IsStop) : n.OfTexts := by
  cases h with
  | keyword portName keyword filePath => exact ⟨_, rfl, by simp [dataKeys]⟩
  | duration t => exact ⟨_, rfl, by simp [dataKeys]⟩

section

variable (showFloat : Rat → NumLit)

theorem fieldsToJson_eq (fields : List (String × Value)) :
    fieldsToJson showFloat fields = fields.map fun f => (f.1, f.2.toJson showFloat) := by
  induction fields with
  | nil => rfl
  | cons f fields ih => exact congrArg (_ :: ·) ih

/-- The texts of a notification's line. -/
theorem text_mem_notification {n : Notification} (hn : n.OfTexts) {s : String} :
    .text s ∈ tokens (n.toJson showFloat) →
      s ∈ ["notify", "data"] ∨ s ∈ dataKeys ∨ s = n.notify ∨ s ∈ n.texts := by
  obtain ⟨fields, hdata, hfields⟩ := hn
  intro hs
  rw [Notification.toJson, Json.text_mem_tokens_obj] at hs
  obtain ⟨f, hf, hs⟩ := hs
  obtain rfl | hf := List.mem_cons.mp hf
  · obtain rfl | hs := hs
    · simp
    · simp [Json.text_mem_tokens_str.mp hs]
  obtain rfl := List.mem_singleton.mp hf
  obtain rfl | hs := hs
  · simp
  rw [hdata, Value.toJson, Json.text_mem_tokens_obj] at hs
  obtain ⟨g, hg, hs⟩ := hs
  rw [(List.perm_insertionSort _ _).mem_iff, fieldsToJson_eq, List.mem_map] at hg
  obtain ⟨⟨k, v⟩, hkv, rfl⟩ := hg
  obtain ⟨hkey, t, ht⟩ := hfields _ hkv
  obtain rfl : v = .string t := ht
  obtain rfl | hs := hs
  · exact Or.inr (Or.inl hkey)
  · rw [Value.toJson, Json.text_mem_tokens_str] at hs
    refine Or.inr (Or.inr (Or.inr ?_))
    rw [Notification.texts, hdata]
    exact List.mem_filterMap.mpr ⟨_, hkv, congrArg some hs.symm⟩

private theorem mem_text_notification {n : Notification} (hn : n.OfTexts) {s : String}
    (hs : s = "notify" ∨ s = n.notify ∨ s ∈ n.texts) : .text s ∈ tokens (n.toJson showFloat) := by
  obtain ⟨fields, hdata, -⟩ := hn
  rw [Notification.toJson, Json.text_mem_tokens_obj]
  obtain rfl | rfl | hs := hs
  · exact ⟨_, List.mem_cons_self, Or.inl rfl⟩
  · exact ⟨_, List.mem_cons_self, Or.inr (Json.text_mem_tokens_str.mpr rfl)⟩
  · refine ⟨_, List.mem_cons_of_mem _ List.mem_cons_self, Or.inr ?_⟩
    rw [Notification.texts, hdata] at hs
    obtain ⟨⟨k, v⟩, hkv, hv⟩ := List.mem_filterMap.mp hs
    obtain rfl : v = .string s := by
      cases v <;> simp_all [Value.asStr]
    rw [hdata, Value.toJson, Json.text_mem_tokens_obj]
    refine ⟨(k, .str s), ?_, Or.inr (Json.text_mem_tokens_str.mpr rfl)⟩
    rw [(List.perm_insertionSort _ _).mem_iff, fieldsToJson_eq]
    exact List.mem_map.mpr ⟨_, hkv, rfl⟩

/-- A notification is taken for an entry if its name or a text of it is taken for
that of an entry. -/
theorem mentions_notification_iff {n : Notification} (hn : n.OfTexts) :
    Mentions (n.toJson showFloat) "notify" ∧ Mentions (n.toJson showFloat) "rx_data" ↔
      Shows "rx_data".toList n.notify ∨ ∃ s ∈ n.texts, Shows "rx_data".toList s := by
  have hown : ∀ s ∈ ["notify", "data"] ++ dataKeys, ¬ Shows "rx_data".toList s := by decide
  constructor
  · rintro ⟨-, s, hs, hname⟩
    obtain hs | hs | rfl | hs := text_mem_notification showFloat hn hs
    · exact absurd hname (hown s (List.mem_append_left _ hs))
    · exact absurd hname (hown s (List.mem_append_right _ hs))
    · exact Or.inl hname
    · exact Or.inr ⟨s, hs, hname⟩
  · intro h
    refine ⟨⟨"notify", mem_text_notification showFloat hn (Or.inl rfl), by decide⟩, ?_⟩
    obtain hname | ⟨s, hs, hname⟩ := h
    · exact ⟨n.notify, mem_text_notification showFloat hn (Or.inr (Or.inl rfl)), hname⟩
    · exact ⟨s, mem_text_notification showFloat hn (Or.inr (Or.inr hs)), hname⟩

end

/-- The lines of a client whose commands are `subscribe_rx` and `unsubscribe_rx`:
the responses to them and to lines that are no request, what is pushed, and what
the logs of all clients broadcast. -/
inductive ReachesSubscriber : Message → Prop
  | answered {es : List Event} {w : World} {c : ClientId} {cl : Client} {req : Request}
      {resp : Response} (hrun : daemon.run es = some w) (hclient : w.clients c = some cl)
      (hmem : .response req resp ∈ cl.written) (hcmd : req.cmd ∈ subscribeCommands) :
      ReachesSubscriber (.response resp)
  | refused (e : String) : ReachesSubscriber (.response (.ofError s!"JSON 파싱 오류: {e}"))
  | pushed {es : List Event} {w : World} {c : ClientId} {cl : Client} {p : Push}
      (hrun : daemon.run es = some w) (hclient : w.clients c = some cl)
      (hmem : .push p ∈ cl.written) : ReachesSubscriber (.notification p.notification)
  | stopped {es : List LogEvent} {w : LogWorld} {x : LogStopped} (hrun : logging.run es = some w)
      (hx : x ∈ w.logs.notified) : ReachesSubscriber (.notification x.notification)

/-- A notification of another kind with a text that is `rx_data`, or ends in a
quote and `rx_data`. -/
def Message.LooksLikeEntry : Message → Prop
  | .response _ => False
  | .notification n => n.notify ≠ "rx_data" ∧ ∃ s ∈ n.texts, Shows "rx_data".toList s

section

variable (showFloat : Rat → NumLit)

/-- The line as it gets to the parser. -/
def Message.lineBytes (m : Message) : List UInt8 := encode (m.toJson showFloat).print

/-- The callbacks are invoked. -/
def Message.CallsBack (m : Message) : Prop :=
  (RxClient.parseNotification (m.lineBytes showFloat)).isSome = true

/-- The message is a notification whose `notify` is `rx_data`. -/
def Message.IsEntry (m : Message) : Prop :=
  (m.toJson showFloat).get "notify" = some (.str "rx_data")

private theorem callsBack_notification_iff {n : Notification} (hn : n.OfTexts)
    (hname : n.notify ∈ ["rx_data", "filter_hit", "log_stopped"]) :
    ((Message.notification n).CallsBack showFloat ↔ (Message.notification n).IsEntry showFloat) ↔
      ¬ (Message.notification n).LooksLikeEntry := by
  have hshows : ∀ name ∈ ["rx_data", "filter_hit", "log_stopped"],
      Shows "rx_data".toList name ↔ name = "rx_data" := by decide
  rw [Message.CallsBack, Message.lineBytes, RxClient.parseNotification_isSome_iff, Message.IsEntry,
    Message.toJson, mentions_notification_iff showFloat hn, Notification.get_notify,
    hshows n.notify hname, Message.LooksLikeEntry, Option.some.injEq, Json.str.injEq,
    or_iff_left_iff_imp, not_and', not_not]

/-- When the callbacks are invoked for entries only. -/
theorem callsBack_iff_isEntry_iff {m : Message} (hm : ReachesSubscriber m) :
    (m.CallsBack showFloat ↔ m.IsEntry showFloat) ↔ ¬ m.LooksLikeEntry := by
  have hresponse : ∀ resp : Response, resp.IsMessage →
      (((Message.response resp).CallsBack showFloat ↔
        (Message.response resp).IsEntry showFloat) ↔
          ¬ (Message.response resp).LooksLikeEntry) := by
    intro resp hresp
    rw [Message.CallsBack, Message.lineBytes, RxClient.parseNotification_isSome_iff,
      Message.IsEntry, Message.toJson, Response.get_notify]
    simpa [Message.LooksLikeEntry] using hresp.not_mentions showFloat
  cases hm with
  | answered hrun hclient hmem hcmd => exact hresponse _ (isMessage_of_run hrun hclient hmem hcmd)
  | refused e => exact hresponse _ (Or.inl rfl)
  | @pushed es w c cl p hrun hclient hmem =>
      refine callsBack_notification_iff showFloat (ofTexts_push p) ?_
      cases p <;> simp [Push.notification]
  | stopped hrun hx =>
      have hstop := LogWorld.isStop_of_run hrun _ hx
      refine callsBack_notification_iff showFloat hstop.ofTexts ?_
      rw [hstop.notify]
      decide

end

/-- Another client's log whose stop keyword is the name of the notification. -/
def misleadingLog : List LogEvent :=
  logCall 0 (.openPort (logArgs "P" [])) 1 ++
    logCall 1 (.startLog (logArgs "P" [("stopKeyword", .string "rx_data")])) 2 ++
    [.createFile 0 true, .deliver 0 ⟨"t", RxClient.bytes "rx_data"⟩, .recv 0, .write 0 true]

private theorem misleadingLog_notifies : (logging.run misleadingLog).any (fun w =>
    w.logs.notified.any fun x => decide ("rx_data" ∈ x.notification.texts)) = true := by
  decide +kernel

/-- The stop notification of that log reaches every client. -/
theorem exists_misleading : ∃ n : Notification, n.IsStop ∧ "rx_data" ∈ n.texts ∧
    ReachesSubscriber (.notification n) := by
  obtain ⟨w, hw, hany⟩ := (Option.any_eq_true _ _).mp misleadingLog_notifies
  obtain ⟨x, hx, htext⟩ := List.any_eq_true.mp hany
  exact ⟨x.notification, LogWorld.isStop_of_run hw x hx, of_decide_eq_true htext, .stopped hw hx⟩

private theorem looksLikeEntry_of_isStop {n : Notification} (hn : n.IsStop)
    (htext : "rx_data" ∈ n.texts) : (Message.notification n).LooksLikeEntry :=
  ⟨by rw [hn.notify]; decide, "rx_data", htext, List.suffix_refl _⟩

/-- The theorem for that notification. -/
theorem callsBack_iff_isEntry_misled : ∃ m, ReachesSubscriber m ∧
    ¬ (m.CallsBack (fun _ => .ofNat 0) ↔ m.IsEntry fun _ => .ofNat 0) := by
  obtain ⟨n, hn, htext, hreaches⟩ := exists_misleading
  refine ⟨_, hreaches, fun h => ?_⟩
  exact (callsBack_iff_isEntry_iff _ hreaches).mp h (looksLikeEntry_of_isStop hn htext)

/-- The client takes that notification for an entry. -/
theorem not_always_callsBack_iff_isEntry :
    ¬ ∀ (showFloat : Rat → NumLit) (m : Message), ReachesSubscriber m →
      (m.CallsBack showFloat ↔ m.IsEntry showFloat) := by
  intro hcalled
  obtain ⟨n, hn, htext, hreaches⟩ := exists_misleading
  have hname : n.notify ∈ ["rx_data", "filter_hit", "log_stopped"] := by
    rw [hn.notify]
    decide
  have hiff := callsBack_notification_iff (fun _ => .ofNat 0) hn.ofTexts hname
  exact hiff.mp (hcalled _ _ hreaches) (looksLikeEntry_of_isStop hn htext)

end Commmon

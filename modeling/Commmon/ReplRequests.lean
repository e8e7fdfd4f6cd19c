/-
# What the prompt sends and the daemon reads

The prompt prints a request as one line of JSON, and the daemon parses the line. The
two have a table each of the commands and their arguments. A key that one of them
misspells, or a value of another type, would pass both without a word, so that the
tables agree is shown of every line that can be typed.

How a floating point number is written and read is not decided here; no request of
the prompt has one.
-/

import Commmon.FailedCommands
import Commmon.LogFlags
import Commmon.RxCommands

set_option autoImplicit false

namespace Commmon

open Utf8Lossy (encode)

/-! ## JSON as the daemon holds it -/

section Reading

variable (readFloat : NumLit → Rat)

/-- A literal without a point or an exponent is an integer if it fits. -/
def Number.ofLit (n : NumLit) : Number :=
  match n.text with
  | '-' :: digits =>
      if digits.all Char.isDigit = true ∧ 0 < Json.natOf digits ∧ Json.natOf digits ≤ 2 ^ 63 then
        .negInt (-(Json.natOf digits : ℤ))
      else .float (readFloat n)
  | digits =>
      if digits.all Char.isDigit = true ∧ Json.natOf digits < UInt64.size then
        .posInt (Json.natOf digits)
      else .float (readFloat n)

mutual

/-- Of the fields with one key the last counts. -/
def Value.ofJson : Json → Value
  | .null => .null
  | .bool b => .bool b
  | .num n => .number (.ofLit readFloat n)
  | .str s => .string s
  | .arr vs => .array (elementsOfJson vs)
  | .obj fields => .object (fieldsOfJson fields).reverse
termination_by structural v => v

def elementsOfJson : List Json → List Value
  | [] => []
  | v :: vs => Value.ofJson v :: elementsOfJson vs
termination_by structural vs => vs

def fieldsOfJson : List (String × Json) → List (String × Value)
  | [] => []
  | (k, v) :: fs => (k, Value.ofJson v) :: fieldsOfJson fs
termination_by structural fs => fs

end

/-- The request that the daemon dispatches for a line, if it parses. -/
def daemonRequest (line : List UInt8) : Option Request :=
  (requestOfLine line).map fun r => ⟨r.cmd, .ofJson readFloat r.args⟩

end Reading

namespace Repl

/-- The object that `parse_command` builds. A command without arguments has no such
field. -/
def message (req : Request) : Value :=
  match req.args with
  | .null => .object [("cmd", .string req.cmd)]
  | args => .object [("cmd", .string req.cmd), ("args", args)]

/-- The line that is sent, without its terminator. -/
def requestLine (showFloat : Rat → NumLit) (req : Request) : List UInt8 :=
  encode ((message req).toJson showFloat).print

end Repl

/-! ## The daemon's table -/

/-- The commands that `dispatch` has a branch for. -/
def Dispatch.commands : List String :=
  ["list_ports", "open_port", "close_port", "write_port", "read_port", "start_log", "update_log",
    "stop_log", "subscribe_rx", "unsubscribe_rx", "filter_rx", "add_filter_rx", "unfilter_rx",
    "port_status", "open_monitor", "close_monitor"]

/-- The arguments that a command is refused without. -/
def Dispatch.requiredArgs : String → List String
  | "list_ports" | "port_status" | "open_monitor" | "close_monitor" => []
  | "write_port" => ["port", "data"]
  | "filter_rx" | "add_filter_rx" => ["port", "keywords"]
  | _ => ["port"]

/-- The arguments that are read as strings. -/
def Dispatch.stringArgs : List String :=
  ["port", "data", "encoding", "stopKeyword", "filePath", "keywords", "dataBits", "parity",
    "stopBits"]

/-- The arguments that are read as unsigned integers. -/
def Dispatch.numberArgs : List String := ["baudRate", "duration", "httpPort"]

/-- The request is in the daemon's table, and every argument that is there is of the
type that is read. -/
structure Request.Spoken (req : Request) : Prop where
  known : req.cmd ∈ Dispatch.commands
  strings : ∀ key ∈ Dispatch.stringArgs, ∀ v, req.args.get key = some v → ∃ s, v = .string s
  numbers : ∀ key ∈ Dispatch.numberArgs, ∀ v, req.args.get key = some v →
    ∃ n < UInt64.size, v = .number (.posInt n)
  clear : req.args.get "clear" = none
  required : ∀ key ∈ Dispatch.requiredArgs req.cmd, (req.args.strArg key).isSome = true

/-! ## Arguments come through as they are -/

/-- Where keys are not repeated, what is found under a key is what stands there. -/
theorem lookup_eq_some_iff_mem {α : Type} {l : List (String × α)}
    (hkeys : (l.map Prod.fst).Nodup) {k : String} {v : α} :
    l.lookup k = some v ↔ (k, v) ∈ l := by
  induction l with
  | nil => simp
  | cons f l ih =>
      obtain ⟨k', v'⟩ := f
      obtain ⟨hnew, hkeys⟩ := List.nodup_cons.mp hkeys
      by_cases hk : k = k'
      · subst hk
        have hrest : (k, v) ∉ l := fun h => hnew (List.mem_map.mpr ⟨_, h, rfl⟩)
        simp [hrest, eq_comm]
      · simp [List.lookup_cons, beq_false_of_ne hk, hk, ih hkeys]

theorem lookup_eq_of_perm {α : Type} {l l' : List (String × α)} (hperm : l.Perm l')
    (hkeys : (l.map Prod.fst).Nodup) (k : String) : l.lookup k = l'.lookup k := by
  have hkeys' : (l'.map Prod.fst).Nodup := (hperm.map _).nodup_iff.mp hkeys
  apply Option.ext
  intro v
  rw [lookup_eq_some_iff_mem hkeys, lookup_eq_some_iff_mem hkeys', hperm.mem_iff]

/-- The values that the prompt sends: strings, and numbers of sixty-four bits. -/
def Value.Plain : Value → Prop
  | .string _ => True
  | .number (.posInt n) => n < UInt64.size
  | _ => False

section RoundTrip

variable (readFloat : NumLit → Rat) (showFloat : Rat → NumLit)

theorem Number.ofLit_ofNat {n : ℕ} (hn : n < UInt64.size) :
    Number.ofLit readFloat (.ofNat n) = .posInt n := by
  have hvalue : Json.natOf (Nat.toDigits 10 n) = n := Nat.ofDigitChars_ten_toDigits
  have hdigits : (Nat.toDigits 10 n).all Char.isDigit = true :=
    List.all_eq_true.mpr fun c hc => Nat.isDigit_of_mem_toDigits (by decide) (by decide) hc
  unfold Number.ofLit
  split
  · rename_i digits htext
    have hminus : '-' ∈ (NumLit.ofNat n).text := htext ▸ List.mem_cons_self
    exact absurd (Nat.isDigit_of_mem_toDigits (by decide) (by decide) hminus) (by decide)
  · change (if (Nat.toDigits 10 n).all Char.isDigit = true ∧
      Json.natOf (Nat.toDigits 10 n) < UInt64.size then _ else _) = _
    rw [if_pos ⟨hdigits, hvalue.symm ▸ hn⟩]
    exact congrArg Number.posInt hvalue

private theorem Value.Plain.ofJson_toJson {v : Value} (h : v.Plain) :
    Value.ofJson readFloat (v.toJson showFloat) = v := by
  cases v with
  | string s => rfl
  | number x =>
      cases x with
      | posInt n => exact congrArg Value.number (Number.ofLit_ofNat readFloat h)
      | _ => exact h.elim
  | _ => exact h.elim

theorem fieldsOfJson_eq (fields : List (String × Json)) :
    fieldsOfJson readFloat fields = fields.map fun f => (f.1, Value.ofJson readFloat f.2) := by
  induction fields with
  | nil => rfl
  | cons f fields ih => exact congrArg (_ :: ·) ih

/-- An object of such values is read as it was written. -/
theorem get_ofJson_toJson {fields : List (String × Value)}
    (hkeys : (fields.map Prod.fst).Nodup) (hplain : ∀ f ∈ fields, f.2.Plain) (key : String) :
    (Value.ofJson readFloat ((Value.object fields).toJson showFloat)).get key =
      fields.lookup key := by
  have hsame : (fields.map fun f => (f.1, f.2.toJson showFloat)).map
      (fun f => (f.1, Value.ofJson readFloat f.2)) = fields := by
    rw [List.map_map]
    refine (List.map_congr_left fun f hf => ?_).trans (List.map_id fields)
    exact Prod.ext rfl ((hplain f hf).ofJson_toJson readFloat showFloat)
  have hperm : (fieldsOfJson readFloat
      ((fieldsToJson showFloat fields).insertionSort fun f g => f.1 ≤ g.1)).reverse.Perm
      fields := by
    rw [fieldsOfJson_eq, fieldsToJson_eq]
    refine (List.reverse_perm _).trans (((List.perm_insertionSort _ _).map _).trans ?_)
    rw [hsame]
  exact (lookup_eq_of_perm hperm.symm hkeys key).symm

end RoundTrip

/-- No arguments, or an object of plain values. -/
inductive Value.PlainArgs : Value → Prop
  | null : PlainArgs .null
  | object (fields : List (String × Value)) (hkeys : (fields.map Prod.fst).Nodup)
      (hplain : ∀ f ∈ fields, f.2.Plain) : PlainArgs (.object fields)

namespace Repl

/-- The daemon reads what the prompt sends. The line is one line, it parses, and
every argument is as it was. -/
theorem daemonRequest_requestLine (readFloat : NumLit → Rat) (showFloat : Rat → NumLit)
    {req : Request} (hargs : req.args.PlainArgs) :
    RecvLoop.newline ∉ requestLine showFloat req ∧
      ∃ args, daemonRequest readFloat (requestLine showFloat req) = some ⟨req.cmd, args⟩ ∧
        ∀ key, args.get key = req.args.get key := by
  refine ⟨newline_not_mem_encode_print _, ?_⟩
  obtain ⟨cmd, args⟩ := req
  cases hargs with
  | null =>
      refine ⟨.null, ?_, fun key => rfl⟩
      have hline : requestLine showFloat ⟨cmd, .null⟩ =
          encode (Json.obj [("cmd", .str cmd)]).print := rfl
      rw [daemonRequest, hline, requestOfLine_print]
      simp [requestOf, Value.ofJson]
  | object fields hkeys hplain =>
      refine ⟨.ofJson readFloat ((Value.object fields).toJson showFloat), ?_,
        get_ofJson_toJson readFloat showFloat hkeys hplain⟩
      have hline : requestLine showFloat ⟨cmd, .object fields⟩ =
          encode (Json.obj [("args", (Value.object fields).toJson showFloat),
            ("cmd", .str cmd)]).print := by
        have hsort : List.insertionSort (fun f g : String × Json => f.1 ≤ g.1)
              [("cmd", .str cmd), ("args", (Value.object fields).toJson showFloat)] =
            [("args", (Value.object fields).toJson showFloat), ("cmd", .str cmd)] := by
          simp [List.insertionSort, List.orderedInsert]
        exact congrArg (fun fields => encode (Json.obj fields).print) hsort
      rw [daemonRequest, hline, requestOfLine_print]
      simp [requestOf]

/-! ## What can be typed -/

/-- The argument is one that the daemon reads, and of the type that it reads. -/
def TypedField (f : String × Value) : Prop :=
  (f.1 ∈ Dispatch.stringArgs ∧ ∃ s, f.2 = .string s) ∨
    (f.1 ∈ Dispatch.numberArgs ∧ ∃ n < UInt64.size, f.2 = .number (.posInt n))

structure TypedFields (fields : List (String × Value)) : Prop where
  keys : (fields.map Prod.fst).Nodup
  typed : ∀ f ∈ fields, TypedField f

theorem TypedField.string {key s : String} (hkey : key ∈ Dispatch.stringArgs) :
    TypedField (key, .string s) :=
  Or.inl ⟨hkey, s, rfl⟩

theorem TypedField.number {key : String} {n : ℕ} (hkey : key ∈ Dispatch.numberArgs)
    (hn : n < UInt64.size) : TypedField (key, .number (.posInt n)) :=
  Or.inr ⟨hkey, n, hn, rfl⟩

theorem TypedFields.setField {fields : List (String × Value)} (h : TypedFields fields)
    {key : String} {v : Value} (hv : TypedField (key, v)) :
    TypedFields (setField fields key v) where
  keys := by
    rw [Repl.setField, List.map_cons, List.nodup_cons]
    refine ⟨fun hmem => ?_, h.keys.sublist (List.filter_sublist.map _)⟩
    obtain ⟨f, hf, hkey⟩ := List.mem_map.mp hmem
    simp [hkey] at hf
  typed f hf := by
    obtain rfl | hf := List.mem_cons.mp hf
    · exact hv
    · exact h.typed f (List.mem_filter.mp hf).1

theorem TypedFields.logFlags {flags : List String} {fields : List (String × Value)}
    (h : TypedFields fields) : TypedFields (logFlags flags fields) := by
  fun_induction Repl.logFlags flags fields with
  | case1 fields val rest n hn ih =>
      exact ih (h.setField (.number (by decide) (parseUnsigned_lt hn)))
  | case2 fields val rest hnone ih => exact ih h
  | case3 fields val rest ih => exact ih (h.setField (.string (by decide)))
  | case4 fields val rest ih => exact ih (h.setField (.string (by decide)))
  | case5 fields word rest _ _ _ ih => exact ih h
  | case6 fields => exact h

/-- The options of a log command leave the port alone. -/
theorem lookup_port_logFlags (flags : List String) (fields : List (String × Value)) :
    (logFlags flags fields).lookup "port" = fields.lookup "port" := by
  fun_induction Repl.logFlags flags fields with
  | case1 fields val rest n hn ih => simpa [lookup_setField] using ih
  | case2 fields val rest hnone ih => exact ih
  | case3 fields val rest ih => simpa [lookup_setField] using ih
  | case4 fields val rest ih => simpa [lookup_setField] using ih
  | case5 fields word rest _ _ _ ih => exact ih
  | case6 fields => rfl

private theorem typedFields_openArgs (port : String) (rest : List String) :
    ∃ fields, openArgs port rest = .object fields ∧ TypedFields fields ∧
      fields.lookup "port" = some (.string port) := by
  have hbaud : (rest[0]?.bind (parseUnsigned UInt64.size)).getD 115200 < UInt64.size := by
    cases hparse : rest[0]?.bind (parseUnsigned UInt64.size) with
    | none => decide
    | some n =>
        obtain ⟨word, -, hword⟩ := Option.bind_eq_some_iff.mp hparse
        exact parseUnsigned_lt hword
  refine ⟨_, rfl, ?_, by simp⟩
  cases hconfig : rest[1]? with
  | none =>
      refine ⟨by simp, ?_⟩
      simp only [Option.map_none, Option.getD_none, List.append_nil, List.mem_cons,
        List.not_mem_nil, or_false]
      rintro f (rfl | rfl)
      · exact .string (by decide)
      · exact .number (by decide) hbaud
  | some config =>
      simp only [Option.map_some, Option.getD_some, lineSettings]
      split
      · refine ⟨by simp, ?_⟩
        simp only [List.cons_append, List.nil_append, List.mem_cons, List.not_mem_nil, or_false]
        rintro f (rfl | rfl | rfl | rfl | rfl)
        · exact .string (by decide)
        · exact .number (by decide) hbaud
        all_goals exact .string (by decide)
      · refine ⟨by simp, ?_⟩
        simp only [List.append_nil, List.mem_cons, List.not_mem_nil, or_false]
        rintro f (rfl | rfl)
        · exact .string (by decide)
        · exact .number (by decide) hbaud

private theorem typedFields_monitorArgs (words : List String) :
    ∃ fields, monitorArgs words = .object fields ∧ TypedFields fields := by
  refine ⟨_, rfl, ?_⟩
  cases hparse : (flagValue "--port" words).bind (parseUnsigned UInt16.size) with
  | none => exact ⟨by simp, by simp⟩
  | some n =>
      obtain ⟨word, -, hword⟩ := Option.bind_eq_some_iff.mp hparse
      have hn : n < UInt64.size := Nat.lt_trans (parseUnsigned_lt hword) (by decide)
      refine ⟨by simp, ?_⟩
      simp only [Option.map_some, Option.toList_some, List.mem_singleton]
      rintro f rfl
      exact .number (by decide) hn

/-- The requests of the prompt. -/
inductive Sent : Request → Prop
  | bare (cmd : String) (hcmd : cmd ∈ ["list_ports", "port_status", "close_monitor"]) :
      Sent ⟨cmd, .null⟩
  | object (cmd : String) (fields : List (String × Value)) (hcmd : cmd ∈ Dispatch.commands)
      (htyped : TypedFields fields)
      (hrequired : ∀ key ∈ Dispatch.requiredArgs cmd, ∃ s, fields.lookup key = some (.string s)) :
      Sent ⟨cmd, .object fields⟩

theorem Sent.openPort (port : String) (rest : List String) :
    Sent ⟨"open_port", openArgs port rest⟩ := by
  obtain ⟨fields, hfields, htyped, hport⟩ := typedFields_openArgs port rest
  rw [hfields]
  exact .object _ _ (by decide) htyped (by simpa [Dispatch.requiredArgs] using ⟨port, hport⟩)

theorem Sent.monitor (words : List String) : Sent ⟨"open_monitor", monitorArgs words⟩ := by
  obtain ⟨fields, hfields, htyped⟩ := typedFields_monitorArgs words
  rw [hfields]
  exact .object _ _ (by decide) htyped (by simp [Dispatch.requiredArgs])

/-- Both forms of a write, with data and with its encoding. -/
theorem Sent.write (port data : String) (encoding : Option String) :
    Sent ⟨"write_port", .object ([("port", .string port), ("data", .string data)] ++
      (encoding.map fun s => ("encoding", Value.string s)).toList)⟩ := by
  cases encoding with
  | none =>
      refine .object _ _ (by decide) ⟨by simp, ?_⟩
        (by simp [Dispatch.requiredArgs, List.lookup_cons])
      simp only [Option.map_none, Option.toList_none, List.append_nil, List.mem_cons,
        List.not_mem_nil, or_false]
      rintro f (rfl | rfl) <;> exact .string (by decide)
  | some s =>
      refine .object _ _ (by decide) ⟨by simp, ?_⟩
        (by simp [Dispatch.requiredArgs, List.lookup_cons])
      simp only [Option.map_some, Option.toList_some, List.cons_append, List.nil_append,
        List.mem_cons, List.not_mem_nil, or_false]
      rintro f (rfl | rfl | rfl) <;> exact .string (by decide)

/-- A command that names a port and nothing else. -/
theorem Sent.onPort {cmd : String} (hcmd : cmd ∈ Dispatch.commands)
    (hrequired : Dispatch.requiredArgs cmd = ["port"]) (port : String) :
    Sent (onPort cmd port) := by
  refine .object cmd _ hcmd ⟨by simp, ?_⟩ ?_
  · simp only [List.mem_singleton]
    rintro f rfl
    exact .string (by decide)
  · rw [hrequired]
    simp

theorem Sent.log {cmd : String} (hcmd : cmd ∈ Dispatch.commands)
    (hrequired : Dispatch.requiredArgs cmd = ["port"]) (port : String) (flags : List String) :
    Sent ⟨cmd, .object (logFlags flags [("port", .string port)])⟩ := by
  refine .object cmd _ hcmd (TypedFields.logFlags ⟨by simp, ?_⟩) ?_
  · simp only [List.mem_singleton]
    rintro f rfl
    exact .string (by decide)
  · rw [hrequired]
    simp [lookup_port_logFlags]

private theorem parseWords_sent {word : String} {words : List String} {req : Request}
    (h : parseWords word words = some req) : Sent req := by
  unfold parseWords at h
  split at h <;> simp only [Option.some.injEq, reduceCtorEq] at h <;> subst h
  all_goals first
    | exact .bare _ (by simp)
    | exact .onPort (by decide) rfl _
    | exact .log (by decide) rfl _ _
    | exact .openPort _ _
    | exact .write _ _ (some "hex")
    | exact .write _ _ none
    | exact .monitor _

theorem parseCommand_sent {line : String} {req : Request} (h : parseCommand line = some req) :
    Sent req := by
  unfold parseCommand at h
  split at h
  · simp at h
  · exact parseWords_sent h

theorem Sent.plainArgs {req : Request} (h : Sent req) : req.args.PlainArgs := by
  cases h with
  | bare cmd hcmd => exact .null
  | object cmd fields hcmd htyped hrequired =>
      refine .object fields htyped.keys fun f hf => ?_
      obtain ⟨k, v⟩ := f
      obtain ⟨-, s, hv⟩ | ⟨-, n, hn, hv⟩ := htyped.typed _ hf
      · obtain rfl : v = .string s := hv
        trivial
      · obtain rfl : v = .number (.posInt n) := hv
        exact hn

/-- What the prompt sends is in the daemon's table, also after it has been read. -/
theorem Sent.spoken {req : Request} (h : Sent req) {args : Value}
    (hargs : ∀ key, args.get key = req.args.get key) : Request.Spoken ⟨req.cmd, args⟩ := by
  have hdisjoint : ∀ key ∈ Dispatch.stringArgs, key ∉ Dispatch.numberArgs := by decide
  have hclear : "clear" ∉ Dispatch.stringArgs ∧ "clear" ∉ Dispatch.numberArgs := by decide
  cases h with
  | bare cmd hcmd =>
      have hnone : ∀ key, args.get key = none := hargs
      have hbare : ∀ cmd ∈ ["list_ports", "port_status", "close_monitor"],
          cmd ∈ Dispatch.commands ∧ Dispatch.requiredArgs cmd = [] := by decide
      obtain ⟨hknown, hrequired⟩ := hbare cmd hcmd
      exact ⟨hknown, by simp [hnone], by simp [hnone], hnone _, by simp [hrequired]⟩
  | object cmd fields hcmd htyped hrequired =>
      have hmem : ∀ key v, args.get key = some v → TypedField (key, v) := by
        intro key v hv
        rw [hargs] at hv
        exact htyped.typed _ ((lookup_eq_some_iff_mem htyped.keys).mp hv)
      refine ⟨hcmd, fun key hkey v hv => ?_, fun key hkey v hv => ?_, ?_, fun key hkey => ?_⟩
      · obtain ⟨-, hs⟩ | ⟨hnumber, -⟩ := hmem key v hv
        · exact hs
        · exact absurd hnumber (hdisjoint key hkey)
      · obtain ⟨hstring, -⟩ | ⟨-, hn⟩ := hmem key v hv
        · exact absurd hkey (hdisjoint key hstring)
        · exact hn
      · cases hget : args.get "clear" with
        | none => rfl
        | some v =>
            obtain ⟨hstring, -⟩ | ⟨hnumber, -⟩ := hmem _ v hget
            · exact absurd hstring hclear.1
            · exact absurd hnumber hclear.2
      · obtain ⟨s, hs⟩ := hrequired key hkey
        have hget : args.get key = some (.string s) := (hargs key).trans hs
        simp [Value.strArg, hget, Value.asStr]

end Repl

/-! ## Answers to what is in the table -/

/-- The answers that say that the request itself was wrong. -/
def refusals (cmd : String) : List String :=
  ["port 파라미터가 필요합니다.", "data 파라미터가 필요합니다.", s!"알 수 없는 명령: {cmd}"]

def Response.Refuses (cmd : String) (resp : Response) : Prop :=
  ∃ text ∈ refusals cmd, resp.error = some text

/-- Words of the other answers. -/
def otherWords : List String :=
  ["열려 있", " 열기 실패: ", "구독 중", "문자열", "등록", "추가", "HEX", "로그", "업데이트"]

private theorem otherWords_not_in_refusals : ∀ w ∈ otherWords, ∀ cmd ∈ Dispatch.commands,
    ∀ text ∈ refusals cmd, ¬ w.toList <:+: text.toList := by
  have hmissing : ∀ w ∈ otherWords,
      ∀ text ∈ ["port 파라미터가 필요합니다.", "data 파라미터가 필요합니다."],
        ¬ w.toList <:+: text.toList := by
    decide +kernel
  have hunknown : ∀ w ∈ otherWords, ∀ cmd ∈ Dispatch.commands,
      ¬ w.toList <:+: (s!"알 수 없는 명령: {cmd}").toList := by
    decide +kernel
  intro w hw cmd hcmd text htext
  simp only [refusals, List.mem_cons, List.not_mem_nil, or_false] at htext
  obtain rfl | rfl | rfl := htext
  · exact hmissing w hw _ List.mem_cons_self
  · exact hmissing w hw _ (List.mem_cons_of_mem _ List.mem_cons_self)
  · exact hunknown w hw cmd hcmd

namespace Response

variable {cmd : String}

private theorem not_refuses_of_error_none {resp : Response} (h : resp.error = none) :
    ¬ resp.Refuses cmd := by
  rintro ⟨text, -, htext⟩
  simp [h] at htext

/-- An answer with one of the other words in it. -/
theorem not_refuses_of_word (hcmd : cmd ∈ Dispatch.commands) (w : String) {text : String}
    (hw : w ∈ otherWords) (hwithin : w.toList <:+: text.toList) :
    ¬ (ofError text).Refuses cmd := by
  rintro ⟨refusal, hmem, htext⟩
  obtain rfl : text = refusal := Option.some.inj htext
  exact otherWords_not_in_refusals w hw cmd hcmd text hmem hwithin

/-- Such a word stands behind the name of a port. -/
theorem not_refuses_append (hcmd : cmd ∈ Dispatch.commands) (w tail : String)
    (hw : w ∈ otherWords) (hwithin : w.toList <:+: tail.toList) (name : String) :
    ¬ (ofError (name ++ tail)).Refuses cmd := by
  apply not_refuses_of_word hcmd w hw
  rw [String.toList_append]
  exact hwithin.trans (List.suffix_append _ _).isInfix

private theorem not_refuses_notOpen (hcmd : cmd ∈ Dispatch.commands) (port : String) :
    ¬ (notOpen port).Refuses cmd :=
  not_refuses_append hcmd "열려 있" "가 열려 있지 않습니다." (by decide)
    (by decide) port

end Response

section Answers

variable {cmd port : String} {args : Value}

private theorem SerialManager.openPort_not_refuses (hcmd : cmd ∈ Dispatch.commands)
    (hport : args.strArg "port" = some port) (m : SerialManager) (opened : Except String Unit) :
    ¬ (m.openPort args opened).2.Refuses cmd := by
  simp only [openPort, hport]
  split_ifs
  · exact Response.not_refuses_append hcmd "열려 있" "는 이미 열려 있습니다."
      (by decide) (by decide) port
  · cases opened with
    | ok u => exact Response.not_refuses_of_error_none rfl
    | error e =>
        apply Response.not_refuses_of_word hcmd " 열기 실패: " (by decide)
        have htext : s!"{port} 열기 실패: {e}" = port ++ " 열기 실패: " ++ e := rfl
        rw [htext, String.toList_append, String.toList_append]
        exact List.infix_append _ _ _

private theorem SerialManager.closePort_not_refuses (hcmd : cmd ∈ Dispatch.commands)
    (hport : args.strArg "port" = some port) (m : SerialManager) :
    ¬ (m.closePort args).2.Refuses cmd := by
  simp only [closePort, hport]
  split
  · exact Response.not_refuses_of_error_none rfl
  · exact Response.not_refuses_notOpen hcmd port

end Answers

/-- Every first answer to the request, whatever the state and the environment: of the
session's commands, of a write, of the serial manager and of a close. The answer that is
taken from the environment is `list_ports`'s. A command that answers later has found its
arguments. It then says that it is done, what it has read, that the port or its log is there
already or is not there any more, or `구독 실패`. -/
structure Request.Understood (req : Request) : Prop where
  session : ∀ (m : SerialManager) (s : ClientSession) (env : Env) (resp : Response),
    (Dispatch.start m s req env).2.2 = .reply resp →
    resp = env.manager ∨ ¬ resp.Refuses req.cmd
  write : ∀ (decoded : Except String (List UInt8)) (resp : Response), req.cmd = "write_port" →
    Dispatch.writeBytes req.args decoded = .error resp → ¬ resp.Refuses req.cmd
  manager : ∀ (w w' : LogWorld) (i : CallId) (env : Logs.LogEnv) (cmd : LogCommand)
    (resp : Response), route req = .manager cmd → w.start i env cmd = some w' →
    w'.calls i = some (.done (some resp)) → ¬ resp.Refuses req.cmd
  closing : ∀ m : SerialManager, req.cmd = "close_port" →
    ¬ (m.closePort req.args).2.Refuses req.cmd

namespace Dispatch

variable {m : SerialManager} {s : ClientSession} {req : Request} {port : String}

private theorem openPort_not_refuses (hcmd : req.cmd ∈ commands)
    (hport : req.args.strArg "port" = some port) (opened : Except String Unit) {resp : Response}
    (h : (openPort m s req.args opened).2.2 = .reply resp) : ¬ resp.Refuses req.cmd := by
  have hresp := m.openPort_not_refuses hcmd hport opened
  dsimp only [openPort] at h
  split at h
  · simp at h
  · exact (Pc.reply.inj h) ▸ hresp

private theorem closePort_not_refuses (hcmd : req.cmd ∈ commands)
    (hport : req.args.strArg "port" = some port) {resp : Response}
    (h : (closePort m s req.args).2.2 = .reply resp) : ¬ resp.Refuses req.cmd := by
  have hresp := m.closePort_not_refuses hcmd hport
  dsimp only [closePort] at h
  split at h
  · dsimp only [closeSends] at h
    split_ifs at h
  · exact (Pc.reply.inj h) ▸ hresp

private theorem subscribeRx_not_refuses (hcmd : req.cmd ∈ commands)
    (hport : req.args.strArg "port" = some port) {resp : Response}
    (h : (subscribeRx m s req.args).2 = .reply resp) : ¬ resp.Refuses req.cmd := by
  simp only [subscribeRx, hport] at h
  split_ifs at h <;> obtain rfl := Pc.reply.inj h
  · exact Response.not_refuses_notOpen hcmd port
  · exact Response.not_refuses_append hcmd "구독 중" "는 이미 구독 중입니다."
      (by decide) (by decide) port

private theorem unsubscribeRx_not_refuses (hcmd : req.cmd ∈ commands)
    (hport : req.args.strArg "port" = some port) {resp : Response}
    (h : (unsubscribeRx s req.args).2 = .reply resp) : ¬ resp.Refuses req.cmd := by
  simp only [unsubscribeRx, hport] at h
  split_ifs at h
  obtain rfl := Pc.reply.inj h
  exact Response.not_refuses_append hcmd "구독 중" "는 구독 중이 아닙니다."
    (by decide) (by decide) port

private theorem unfilterRx_not_refuses (hcmd : req.cmd ∈ commands)
    (hport : req.args.strArg "port" = some port) {resp : Response}
    (h : (unfilterRx s req.args).2 = .reply resp) : ¬ resp.Refuses req.cmd := by
  simp only [unfilterRx, hport] at h
  split_ifs at h
  obtain rfl := Pc.reply.inj h
  exact Response.not_refuses_append hcmd "등록" "에 등록된 필터가 없습니다."
    (by decide) (by decide) port

private theorem filterRx_not_refuses (hcmd : req.cmd ∈ commands)
    (hport : req.args.strArg "port" = some port) {resp : Response}
    (h : (filterRx m s req.args).2 = .reply resp) : ¬ resp.Refuses req.cmd := by
  simp only [filterRx, hport] at h
  split at h
  · obtain rfl := Pc.reply.inj h
    exact Response.not_refuses_of_word hcmd "문자열" (by decide) (by decide)
  · split_ifs at h <;> obtain rfl := Pc.reply.inj h
    · exact Response.not_refuses_of_word hcmd "등록" (by decide) (by decide)
    · exact Response.not_refuses_notOpen hcmd port

private theorem addFilterRx_not_refuses (hcmd : req.cmd ∈ commands)
    (hport : req.args.strArg "port" = some port) {resp : Response}
    (h : (addFilterRx m s req.args).2 = .reply resp) : ¬ resp.Refuses req.cmd := by
  simp only [addFilterRx, hport] at h
  split at h
  · obtain rfl := Pc.reply.inj h
    exact Response.not_refuses_of_word hcmd "문자열" (by decide) (by decide)
  · split_ifs at h
    · obtain rfl := Pc.reply.inj h
      exact Response.not_refuses_of_word hcmd "추가" (by decide) (by decide)
    · obtain rfl := Pc.reply.inj h
      exact Response.not_refuses_notOpen hcmd port
    · split at h <;> simp at h

private theorem readPort_not_refuses (hcmd : req.cmd ∈ commands)
    (hport : req.args.strArg "port" = some port) {resp : Response}
    (h : (readPort m s req.args).2 = .reply resp) : ¬ resp.Refuses req.cmd := by
  simp only [readPort, hport] at h
  split_ifs at h
  obtain rfl := Pc.reply.inj h
  exact Response.not_refuses_notOpen hcmd port

private theorem writeBytes_not_refuses (hcmd : req.cmd ∈ commands)
    (hport : req.args.strArg "port" = some port) {data : String}
    (hdata : req.args.strArg "data" = some data) {decoded : Except String (List UInt8)}
    {resp : Response} (h : writeBytes req.args decoded = .error resp) :
    ¬ resp.Refuses req.cmd := by
  simp only [writeBytes, hport, hdata] at h
  split at h
  · simp at h
  · rename_i e _
    obtain rfl := Except.error.inj h
    apply Response.not_refuses_of_word hcmd "HEX" (by decide)
    have htext : s!"HEX 디코딩 실패: {e}" = "HEX 디코딩 실패: " ++ e := rfl
    have hwithin : "HEX".toList <:+: "HEX 디코딩 실패: ".toList := by decide
    rw [htext, String.toList_append]
    exact hwithin.trans (List.prefix_append _ _).isInfix
  · simp at h

end Dispatch

/-- What a call answers where it begins. -/
theorem LogWorld.start_not_refuses {req : Request} (hcmd : req.cmd ∈ Dispatch.commands)
    {port : String} (hport : req.args.strArg "port" = some port) {w w' : LogWorld} {i : CallId}
    {env : Logs.LogEnv} {cmd : LogCommand} {resp : Response} (hroute : route req = .manager cmd)
    (h : w.start i env cmd = some w') (hresp : w'.calls i = some (.done (some resp))) :
    ¬ resp.Refuses req.cmd := by
  have hnone : ¬ (Response.ofError s!"{port}의 활성 로그가 없습니다.").Refuses req.cmd :=
    Response.not_refuses_append hcmd "로그" "의 활성 로그가 없습니다." (by decide) (by decide) port
  obtain ⟨-, rfl⟩ | ⟨-, rfl⟩ | ⟨-, rfl⟩ | ⟨-, rfl⟩ | ⟨-, rfl⟩ :=
    LogWorld.route_manager hroute
  · obtain rfl := Option.some.inj h
    obtain rfl : (w.serial.openPort req.args env.opened).2 = resp := by simpa using hresp
    exact w.serial.openPort_not_refuses hcmd hport env.opened
  · simp only [start, startOn, hport, whenUnlocked] at h
    split_ifs at h
    obtain rfl := Option.some.inj h
    unfold beginStop at hresp
    split at hresp <;> simp at hresp
  · simp only [start, startOn, hport] at h
    split at h <;> obtain rfl := Option.some.inj h
    · obtain rfl : notOpen port = resp := by simpa [notOpen] using hresp
      exact Response.not_refuses_notOpen hcmd port
    · simp at hresp
  · simp only [start, startOn, hport, whenUnlocked] at h
    split_ifs at h
    obtain rfl := Option.some.inj h
    obtain rfl : (w.logs.updateLog port req.args).2 = resp := by simpa using hresp
    unfold Logs.updateLog
    split
    · exact hnone
    · dsimp only
      split_ifs
      · exact Response.not_refuses_of_word hcmd "업데이트" (by decide) (by decide)
      · exact Response.not_refuses_of_error_none rfl
  · simp only [start, startOn, hport, whenUnlocked] at h
    split_ifs at h
    obtain rfl := Option.some.inj h
    unfold beginStop at hresp
    split at hresp
    · simp at hresp
    · obtain rfl : Response.ofError s!"{port}의 활성 로그가 없습니다." = resp := by
        simpa using hresp
      exact hnone

/-- The request is in the daemon's table, with the arguments that it is refused
without. -/
structure Request.Complete (req : Request) : Prop where
  known : req.cmd ∈ Dispatch.commands
  exists_port : "port" ∈ Dispatch.requiredArgs req.cmd → ∃ port, req.args.strArg "port" = some port
  exists_data : "data" ∈ Dispatch.requiredArgs req.cmd → ∃ data, req.args.strArg "data" = some data

namespace Request.Complete

variable {req : Request}

theorem session (h : req.Complete) (m : SerialManager) (s : ClientSession) (env : Env)
    (resp : Response) (hstart : (Dispatch.start m s req env).2.2 = .reply resp) :
    resp = env.manager ∨ ¬ resp.Refuses req.cmd := by
  have hport : req.cmd ∈ sessionCommands → ∃ port, req.args.strArg "port" = some port := by
    have hall : ∀ cmd ∈ sessionCommands, "port" ∈ Dispatch.requiredArgs cmd := by decide
    exact fun hcmd => h.exists_port (hall req.cmd hcmd)
  unfold Dispatch.start at hstart
  split at hstart
  · rename_i hcmd
    obtain ⟨port, hport⟩ := hport (hcmd ▸ by decide)
    exact Or.inr (Dispatch.openPort_not_refuses h.known hport _ hstart)
  · rename_i hcmd
    obtain ⟨port, hport⟩ := hport (hcmd ▸ by decide)
    exact Or.inr (Dispatch.closePort_not_refuses h.known hport hstart)
  · rename_i hcmd
    obtain ⟨port, hport⟩ := hport (hcmd ▸ by decide)
    exact Or.inr (Dispatch.subscribeRx_not_refuses h.known hport hstart)
  · rename_i hcmd
    obtain ⟨port, hport⟩ := hport (hcmd ▸ by decide)
    exact Or.inr (Dispatch.unsubscribeRx_not_refuses h.known hport hstart)
  · rename_i hcmd
    obtain ⟨port, hport⟩ := hport (hcmd ▸ by decide)
    exact Or.inr (Dispatch.filterRx_not_refuses h.known hport hstart)
  · rename_i hcmd
    obtain ⟨port, hport⟩ := hport (hcmd ▸ by decide)
    exact Or.inr (Dispatch.addFilterRx_not_refuses h.known hport hstart)
  · rename_i hcmd
    obtain ⟨port, hport⟩ := hport (hcmd ▸ by decide)
    exact Or.inr (Dispatch.unfilterRx_not_refuses h.known hport hstart)
  · rename_i hcmd
    obtain ⟨port, hport⟩ := hport (hcmd ▸ by decide)
    exact Or.inr (Dispatch.readPort_not_refuses h.known hport hstart)
  · exact Or.inl (Pc.reply.inj hstart).symm
  all_goals first
    | exact Or.inl (Pc.reply.inj hstart).symm
    | exact absurd h.known (by simp_all [Dispatch.commands])

theorem understood (h : req.Complete) : req.Understood where
  session := h.session
  write decoded resp hcmd hwrite := by
    obtain ⟨port, hport⟩ := h.exists_port (hcmd ▸ by decide)
    obtain ⟨data, hdata⟩ := h.exists_data (hcmd ▸ by decide)
    exact Dispatch.writeBytes_not_refuses h.known hport hdata hwrite
  manager w w' i env cmd resp hroute hstart hresp := by
    have hcmd : "port" ∈ Dispatch.requiredArgs req.cmd := by
      obtain ⟨hcmd, -⟩ | ⟨hcmd, -⟩ | ⟨hcmd, -⟩ | ⟨hcmd, -⟩ | ⟨hcmd, -⟩ :=
        LogWorld.route_manager hroute <;> exact hcmd ▸ by decide
    obtain ⟨port, hport⟩ := h.exists_port hcmd
    exact LogWorld.start_not_refuses h.known hport hroute hstart hresp
  closing m hcmd := by
    obtain ⟨port, hport⟩ := h.exists_port (hcmd ▸ by decide)
    exact m.closePort_not_refuses h.known hport

end Request.Complete

theorem Request.Spoken.understood {req : Request} (h : req.Spoken) : req.Understood :=
  Complete.understood
    { known := h.known
      exists_port := fun hport => Option.isSome_iff_exists.mp (h.required "port" hport)
      exists_data := fun hdata => Option.isSome_iff_exists.mp (h.required "data" hdata) }

/-- The prompt speaks the daemon's protocol. What a line is made into is one line
that parses to a request in the daemon's table, of which every argument is absent or
of its type and none is missing that must be there; no answer to it says otherwise. -/
theorem Repl.parseCommand_spoken (readFloat : NumLit → Rat) (showFloat : Rat → NumLit)
    {line : String} {req : Request} (h : parseCommand line = some req) :
    RecvLoop.newline ∉ requestLine showFloat req ∧
      ∃ r, daemonRequest readFloat (requestLine showFloat req) = some r ∧
        r.cmd = req.cmd ∧ r.Spoken ∧ r.Understood := by
  have hsent := parseCommand_sent h
  obtain ⟨hline, args, hread, hargs⟩ :=
    daemonRequest_requestLine readFloat showFloat hsent.plainArgs
  have hspoken := hsent.spoken hargs
  exact ⟨hline, _, hread, rfl, hspoken, hspoken.understood⟩

/-- A keyword that looks like an option, and a duration that is none. -/
theorem Repl.logLine_spoken : ∃ req r,
    parseCommand "log start COM3 --keyword --file --duration x" = some req ∧
      daemonRequest (fun _ => 0) (requestLine (fun _ => .ofNat 0) req) = some r ∧
      r.cmd = "start_log" ∧ r.Spoken := by
  have hline : parseCommand "log start COM3 --keyword --file --duration x" =
      some ⟨"start_log", .object [("stopKeyword", .string "--file"), ("port", .string "COM3")]⟩ :=
    rfl
  obtain ⟨-, r, hr, hcmd, hspoken, -⟩ :=
    parseCommand_spoken (fun _ => 0) (fun _ => .ofNat 0) hline
  exact ⟨_, r, hline, hr, hcmd, hspoken⟩

end Commmon

/-
# The path that start_log sends

The tool of the MCP server is given a path, or chooses one. A path that is not absolute
is put behind the working directory, and a label goes into its last name, before the
extension. The directory stays what it was.

The strings of the tool are sequences of code units, and a label is cut by them. Where
the cut goes through a character, what is left is no text, and the daemon does not take
the request for JSON. Neither does it where a string was none in the first place. A call
whose directory cannot be made sends nothing.
-/

import Commmon.Lib.JsonUtf16
import Commmon.Lib.PathNames
import Commmon.Lib.Utf8Decoder
import Commmon.LogPaths
import Commmon.ToolLines

set_option autoImplicit false

namespace Commmon

open Paths Label
open Utf16 (IsText isHigh isLow isSurrogate)
open Utf8Lossy (encode)
open RecvLoop (newline)

/-! ## Resolving a path -/

def isDriveLetter (u : CodeUnit) : Bool :=
  0x41 ≤ u.toNat && u.toNat ≤ 0x5A || 0x61 ≤ u.toNat && u.toNat ≤ 0x7A

/-- `path.isAbsolute`. A drive alone is not absolute. -/
def Platform.isAbsolute (p : Platform) (path : List CodeUnit) : Bool :=
  match path with
  | [] => false
  | u :: rest =>
      p.isSep u.toNat || p == .windows && isDriveLetter u && rest.head? == some 0x3A &&
        rest.tail.head?.any fun v => p.isSep v.toNat

/-- A host whose directories are text. On Windows every drive has a working directory
of its own, with its root in front. -/
structure Workplace extends Host where
  drive : CodeUnit → List CodeUnit × List CodeUnit
  drive_ends : ∀ letter, ∃ u ∈ (drive letter).1.getLast?, platform.isSep u.toNat = true
  root_text : IsText root
  rest_text : IsText rest
  drive_text : ∀ letter, IsText (drive letter).1 ∧ IsText (drive letter).2

namespace Workplace

variable (w : Workplace)

/-- The root that a relative path is put behind, and what comes after it. -/
def base (path : List CodeUnit) : List CodeUnit × List (List CodeUnit) :=
  match path with
  | letter :: colon :: rest =>
      if w.platform = .windows ∧ isDriveLetter letter = true ∧ colon = 0x3A then
        ((w.drive letter).1, [(w.drive letter).2, rest])
      else (w.root, [w.rest, path])
  | _ => (w.root, [w.rest, path])

/-- `path.resolve(process.cwd(), filePath)`, unless the path is absolute. -/
def resolved (filePath : List CodeUnit) : List CodeUnit :=
  if w.platform.isAbsolute filePath then filePath
  else w.platform.unitStyle.joinNormal (w.base filePath).1 (w.base filePath).2

/-- The path for a `filePath` that is given. -/
def givenPath (filePath : List CodeUnit) (label : Option (List CodeUnit)) : List CodeUnit :=
  let safeLabel := sanitizeLabel label
  let resolvedPath := w.resolved filePath
  if safeLabel.isEmpty then resolvedPath
  else w.platform.unitStyle.beforeExtension resolvedPath (underscore :: safeLabel)

/-- The resolved path ends in separators, and the name before them has an extension. -/
def Trailing (filePath : List CodeUnit) : Prop :=
  w.platform.unitStyle.EndsInSep (w.resolved filePath) ∧
    w.platform.unitStyle.extname (w.resolved filePath) ≠ []

/-! ## The label in the name -/

variable {w}

/-- Separators end a relative path only if nothing is left of it but the root. -/
theorem resolved_of_endsInSep {filePath : List CodeUnit}
    (hrelative : w.platform.isAbsolute filePath = false)
    (hends : w.platform.unitStyle.EndsInSep (w.resolved filePath)) :
    w.resolved filePath = (w.base filePath).1 := by
  have hpath : w.resolved filePath =
      w.platform.unitStyle.joinNormal (w.base filePath).1 (w.base filePath).2 :=
    if_neg (by simp [hrelative])
  rw [hpath] at hends ⊢
  exact PathStyle.joinNormal_of_endsInSep hends

private theorem lettered_label (label : Option (List CodeUnit)) :
    ∀ u ∈ underscore :: sanitizeLabel label, w.platform.unitStyle.isSep u = false := by
  have hunder : isForbidden underscore = false := by decide
  exact List.forall_mem_cons.mpr ⟨isSep_of_allowed hunder,
    fun u hu => isSep_of_allowed (not_isForbidden_sanitizeLabel label u hu)⟩

private theorem givenPath_of_label {filePath : List CodeUnit} {label : Option (List CodeUnit)}
    (h : sanitizeLabel label ≠ []) : w.givenPath filePath label =
      w.platform.unitStyle.beforeExtension (w.resolved filePath)
        (underscore :: sanitizeLabel label) :=
  if_neg (by simpa using h)

private theorem givenPath_of_empty {filePath : List CodeUnit} {label : Option (List CodeUnit)}
    (h : sanitizeLabel label = []) : w.givenPath filePath label = w.resolved filePath :=
  if_pos (by simpa using h)

/-- A label makes the path longer. -/
theorem length_resolved_lt {filePath : List CodeUnit} {label : Option (List CodeUnit)}
    (h : sanitizeLabel label ≠ []) :
    (w.resolved filePath).length < (w.givenPath filePath label).length := by
  rw [givenPath_of_label h, PathStyle.beforeExtension]
  simp only [List.length_append, List.length_take, List.length_cons]
  omega

private theorem givenPath_inj {filePath : List CodeUnit} {label label' : Option (List CodeUnit)} :
    w.givenPath filePath label = w.givenPath filePath label' ↔
      sanitizeLabel label = sanitizeLabel label' := by
  by_cases h : sanitizeLabel label = []
  · by_cases h' : sanitizeLabel label' = []
    · simp [givenPath_of_empty h, givenPath_of_empty h', h, h']
    · have hlt : (w.resolved filePath).length < (w.givenPath filePath label').length :=
        length_resolved_lt h'
      rw [givenPath_of_empty h, h]
      exact iff_of_false (fun heq => hlt.ne (congrArg List.length heq)) (Ne.symm h')
  · by_cases h' : sanitizeLabel label' = []
    · have hlt : (w.resolved filePath).length < (w.givenPath filePath label).length :=
        length_resolved_lt h
      rw [givenPath_of_empty h', h']
      exact iff_of_false (fun heq => hlt.ne' (congrArg List.length heq)) h
    · rw [givenPath_of_label h, givenPath_of_label h', PathStyle.beforeExtension_inj]
      simp

end Workplace

/-- A label that is empty changes nothing, and different labels
make different paths. Otherwise the directory is the one of the path that was given, and
the label stands in its last name before the extension, which stays. Only separators
behind an extension prevent this, and a relative path has them only where it leads to the
root. -/
theorem label_stands_in_name (w : Workplace) (filePath : List CodeUnit)
    (label : Option (List CodeUnit)) :
    (sanitizeLabel label = [] → w.givenPath filePath label = w.resolved filePath) ∧
      (sanitizeLabel label ≠ [] →
        (w.platform.unitStyle.Inserted (w.resolved filePath) (underscore :: sanitizeLabel label)
            (w.givenPath filePath label) ↔ ¬ w.Trailing filePath) ∧
          (¬ w.Trailing filePath → w.platform.unitStyle.extname (w.resolved filePath) ≠ [] →
            w.platform.unitStyle.extname (w.givenPath filePath label) =
              w.platform.unitStyle.extname (w.resolved filePath))) ∧
      (∀ label', w.givenPath filePath label = w.givenPath filePath label' ↔
        sanitizeLabel label = sanitizeLabel label') ∧
      (w.platform.isAbsolute filePath = false → w.Trailing filePath →
        w.resolved filePath = (w.base filePath).1) := by
  refine ⟨Workplace.givenPath_of_empty, fun hlabel => ?_, fun label' => Workplace.givenPath_inj,
    fun hrelative htrailing => Workplace.resolved_of_endsInSep hrelative htrailing.1⟩
  have hinserted : w.platform.unitStyle.Inserted (w.resolved filePath)
      (underscore :: sanitizeLabel label) (w.givenPath filePath label) ↔ ¬ w.Trailing filePath := by
    rw [Workplace.givenPath_of_label hlabel]
    exact PathStyle.inserted_iff (Workplace.lettered_label label)
  exact ⟨hinserted, fun htrailing hext =>
    (hinserted.mpr htrailing).extname_eq hext (List.cons_ne_nil _ _)⟩

/-! ## Paths that are text -/

theorem isText_utf16 (text : String) : IsText (utf16 text) := Utf16.isText_encode text.toList

private theorem isText_words {p : CodeUnit → Bool} (hp : ∀ u, p u = true → isSurrogate u = false)
    {us : List CodeUnit} (h : IsText us) : ∀ v ∈ Words.words p us, IsText v := by
  refine IsText.split_induction (motive := fun us => ∀ v ∈ Words.words p us, IsText v) hp ?_ ?_ h
  · intro us h hletters
    cases us with
    | nil => simp
    | cons u us =>
        rw [Words.words_of_isWord ⟨List.cons_ne_nil u us, hletters⟩]
        exact List.forall_mem_singleton.mpr h
  · intro front u back hu hfront hback
    rw [Words.words_append_sep front hu, List.forall_mem_append]
    exact ⟨hfront, hback⟩

section Joined

variable {sep : CodeUnit} (hsep : isSurrogate sep = false) {ws : List (List CodeUnit)}
include hsep

private theorem isText_intercalate_append (hws : ∀ v ∈ ws, IsText v) (v : List CodeUnit) :
    IsText ([sep].intercalate (ws ++ [v])) ↔ IsText v := by
  induction ws with
  | nil => simp
  | cons u ws ih =>
      obtain ⟨hu, hws⟩ := List.forall_mem_cons.mp hws
      obtain ⟨x, xs, hx⟩ : ∃ x xs, ws ++ [v] = x :: xs := List.exists_cons_of_ne_nil (by simp)
      rw [List.cons_append, hx, List.intercalate_cons_cons, ← hx, List.append_assoc,
        List.singleton_append, Utf16.isText_append_cons hsep, ih hws]
      exact and_iff_right hu

private theorem isText_intercalate (hws : ∀ v ∈ ws, IsText v) : IsText ([sep].intercalate ws) := by
  obtain rfl | ⟨front, v, rfl⟩ := List.eq_nil_or_concat ws
  · exact Utf16.isText_nil
  · rw [List.concat_eq_append, List.forall_mem_append] at hws
    rw [List.concat_eq_append, isText_intercalate_append hsep hws.1]
    exact hws.2 v (List.mem_singleton.mpr rfl)

end Joined

private theorem isSurrogate_of_isSeparator {u : CodeUnit} (h : isSeparator u = true) :
    isSurrogate u = false := by
  rw [isSeparator, Bool.or_eq_true, beq_iff_eq] at h
  obtain h | rfl := h
  · simp only [isForbidden, Label.isSpace, Bool.or_eq_true, decide_eq_true_eq, List.mem_cons,
      List.not_mem_nil, or_false] at h
    rw [Utf16.isSurrogate_eq_false]
    omega
  · decide

/-- A label is text if the cut leaves no half of a character at its end. -/
theorem isText_sanitizeLabel {label : Option (List CodeUnit)} (h : ∀ us ∈ label, IsText us) :
    IsText (sanitizeLabel label) ↔
      ∀ u ∈ (sanitizeLabel label).getLast?, isHigh u = false := by
  cases label with
  | none => simp [sanitizeLabel, Utf16.isText_nil]
  | some label =>
      have hcleaned : IsText (cleaned label) := by
        rw [cleaned_eq]
        exact isText_intercalate (by decide)
          (isText_words (fun _ => isSurrogate_of_isSeparator) (h label rfl))
      rw [sanitizeLabel_some]
      exact Utf16.isText_take hcleaned maxLength

private theorem isSurrogate_of_isSep {p : Platform} {u : CodeUnit}
    (h : p.unitStyle.isSep u = true) : isSurrogate u = false := by
  have hcases := Platform.isSep_cases h
  rw [Utf16.isSurrogate_eq_false]
  omega

private theorem isText_names {p : Platform} {paths : List (List CodeUnit)}
    (hpaths : ∀ path ∈ paths, IsText path) :
    ∀ v ∈ p.unitStyle.resolve (paths.flatMap p.unitStyle.names), IsText v := by
  intro v hv
  obtain ⟨path, hpath, hname⟩ := List.mem_flatMap.mp (PathStyle.mem_of_mem_resolve hv)
  rw [PathStyle.names, List.mem_filter] at hname
  exact isText_words (fun _ => isSurrogate_of_isSep) (hpaths path hpath) v hname.1

private theorem isText_joinNormal {p : Platform} {root : List CodeUnit}
    {paths : List (List CodeUnit)} (hroot : IsText root) (hpaths : ∀ path ∈ paths, IsText path) :
    IsText (p.unitStyle.joinNormal root paths) := by
  rw [PathStyle.joinNormal, PathStyle.names_intercalate, Utf16.isText_append_right hroot]
  exact isText_intercalate (isSurrogate_of_isSep p.unitStyle.isSep_sep) (isText_names hpaths)

private theorem isText_replaceForbidden {us : List CodeUnit} (h : IsText us) :
    IsText (replaceForbidden us) := by
  have hplain : ∀ u, isForbidden u = true → isSurrogate u = false := fun u hu =>
    isSurrogate_of_isSeparator (by simp [isSeparator, hu])
  refine IsText.split_induction (motive := fun us => IsText (replaceForbidden us)) hplain ?_ ?_ h
  · intro us h hletters
    have hself : replaceForbidden us = us := by
      refine (List.map_congr_left fun u hu => ?_).trans (List.map_id us)
      rw [hletters u hu]
      rfl
    rwa [hself]
  · intro front u back hu hfront hback
    have hmap : replaceForbidden (front ++ u :: back) =
        replaceForbidden front ++ underscore :: replaceForbidden back := by
      simp [replaceForbidden, hu]
    rw [hmap, Utf16.isText_append_cons (by decide)]
    exact ⟨hfront, hback⟩

private theorem isText_stamp (iso : IsoTime) : IsText (stamp iso) := by
  refine Utf16.isText_of_plain fun u hu => ?_
  have hallowed := iso.allowed u (List.mem_filter.mp (mem_of_mem_cutFraction hu)).1
  simp only [List.mem_cons, List.not_mem_nil, or_false] at hallowed
  rw [Utf16.isSurrogate_eq_false]
  omega

private theorem isText_logFileName {port : List CodeUnit} (hport : IsText port)
    (label : Option (List CodeUnit)) (iso : IsoTime) :
    IsText (logFileName port label iso) ↔ IsText (sanitizeLabel label) := by
  have hunder : isSurrogate underscore = false := by decide
  have hfront : IsText (utf16 "commmon_" ++ replaceForbidden port) :=
    (isText_utf16 _).append (isText_replaceForbidden hport)
  have hback : IsText (stamp iso ++ utf16 ".log") := (isText_stamp iso).append (isText_utf16 _)
  by_cases hlabel : sanitizeLabel label = []
  · have hname : logFileName port label iso =
        (utf16 "commmon_" ++ replaceForbidden port) ++
          underscore :: (stamp iso ++ utf16 ".log") := by
      simp [logFileName, hlabel]
    rw [hname, Utf16.isText_append_cons hunder, hlabel]
    exact iff_of_true ⟨hfront, hback⟩ Utf16.isText_nil
  · have hname : logFileName port label iso =
        (utf16 "commmon_" ++ replaceForbidden port) ++
          underscore :: (sanitizeLabel label ++ underscore :: (stamp iso ++ utf16 ".log")) := by
      simp [logFileName, hlabel]
    rw [hname, Utf16.isText_append_cons hunder, Utf16.isText_append_cons hunder]
    exact ⟨fun h => h.2.1, fun h => ⟨hfront, h, hback⟩⟩

namespace Workplace

variable {w : Workplace}

private theorem isText_resolvedPath {port : List CodeUnit} (hport : IsText port)
    (label : Option (List CodeUnit)) (iso : IsoTime) :
    IsText (w.resolvedPath port label iso) ↔ IsText (sanitizeLabel label) := by
  have hletters := lettered_logFileName w.platform port label iso
  have hdirs : ∀ path ∈ [w.rest, utf16 "log"], IsText path :=
    List.forall_mem_cons.mpr ⟨w.rest_text, List.forall_mem_singleton.mpr (isText_utf16 _)⟩
  have hnames : [w.rest, utf16 "log", logFileName port label iso].flatMap
      w.platform.unitStyle.names = [w.rest, utf16 "log"].flatMap w.platform.unitStyle.names ++
        [logFileName port label iso] := by
    simp [hletters.names_eq]
  rw [Host.resolvedPath, PathStyle.joinNormal, PathStyle.names_intercalate, hnames,
    Utf16.isText_append_right w.root_text,
    PathStyle.resolve_append_singleton _ hletters.isName.ne_dots,
    isText_intercalate_append (isSurrogate_of_isSep w.platform.unitStyle.isSep_sep)
      (isText_names hdirs)]
  exact isText_logFileName hport label iso

private theorem isText_resolved {filePath : List CodeUnit} (h : IsText filePath) :
    IsText (w.resolved filePath) := by
  have hcwd : IsText (w.platform.unitStyle.joinNormal w.root [w.rest, filePath]) :=
    isText_joinNormal w.root_text
      (List.forall_mem_cons.mpr ⟨w.rest_text, List.forall_mem_singleton.mpr h⟩)
  unfold resolved base
  split_ifs
  · exact h
  · split
    · rename_i letter colon rest _
      split_ifs with hdrive
      · have hrest : IsText rest := by
          rw [← List.singleton_append, hdrive.2.2, Utf16.isText_append_cons (by decide)] at h
          exact h.2
        exact isText_joinNormal (w.drive_text letter).1 (List.forall_mem_cons.mpr
          ⟨(w.drive_text letter).2, List.forall_mem_singleton.mpr hrest⟩)
      · exact hcwd
    · exact hcwd

private theorem isText_givenPath {filePath : List CodeUnit} (h : IsText filePath)
    (htrailing : ¬ w.Trailing filePath) (label : Option (List CodeUnit)) :
    IsText (w.givenPath filePath label) ↔ IsText (sanitizeLabel label) := by
  have hresolved : IsText (w.resolved filePath) := isText_resolved h
  by_cases hlabel : sanitizeLabel label = []
  · rw [givenPath_of_empty hlabel, hlabel]
    exact iff_of_true hresolved Utf16.isText_nil
  · obtain ⟨stem, hstem, hparts⟩ := PathStyle.beforeExtension_parts htrailing
    have hhead : ∀ v ∈ (w.platform.unitStyle.extname (w.resolved filePath)).head?,
        isLow v = false := by
      intro v hv
      rw [PathStyle.head?_extname _ v hv]
      cases w.platform <;> decide
    have hpath : w.resolved filePath =
        (w.platform.unitStyle.dirPart (w.resolved filePath) ++ stem) ++
          w.platform.unitStyle.extname (w.resolved filePath) := by
      rw [List.append_assoc, ← hstem, PathStyle.dirPart_append_lastPart]
    have hregroup : w.platform.unitStyle.dirPart (w.resolved filePath) ++
        (stem ++ underscore :: sanitizeLabel label ++
          w.platform.unitStyle.extname (w.resolved filePath)) =
        (w.platform.unitStyle.dirPart (w.resolved filePath) ++ stem) ++ underscore ::
          (sanitizeLabel label ++ w.platform.unitStyle.extname (w.resolved filePath)) := by simp
    rw [hpath, Utf16.isText_append hhead] at hresolved
    rw [givenPath_of_label hlabel, hparts, hregroup, Utf16.isText_append_cons (by decide),
      Utf16.isText_append hhead]
    exact ⟨fun h => h.2.1, fun h => ⟨hresolved.1, h, hresolved.2⟩⟩

end Workplace

/-! ## The request -/

/-- What the schema of `start_log` has let through. The texts are code units. -/
structure StartLogInput where
  port : List CodeUnit
  duration : Option Number
  stopKeyword : Option (List CodeUnit)
  filePath : Option (List CodeUnit)
  label : Option (List CodeUnit)

namespace StartLogInput

/-- An input of which all strings are text. -/
def ofValue (input : Value) : StartLogInput where
  port := utf16 ((input.strArg "port").getD "")
  duration := (input.get "duration").bind Value.asNumber
  stopKeyword := (input.strArg "stopKeyword").map utf16
  filePath := (input.strArg "filePath").map utf16
  label := (input.strArg "label").map utf16

/-- The strings are text. -/
structure Textual (i : StartLogInput) : Prop where
  port : IsText i.port
  stopKeyword : ∀ us ∈ i.stopKeyword, IsText us
  filePath : ∀ us ∈ i.filePath, IsText us
  label : ∀ us ∈ i.label, IsText us

/-- What is passed on, if it is text. -/
def asked (port : String) (duration : Option Number) (stopKeyword : Option String) : Value :=
  .object ([("port", .string port)] ++ sentField "duration" .number duration ++
    sentField "stopKeyword" .string stopKeyword)

theorem textual_ofValue (input : Value) : (ofValue input).Textual := by
  have hmap : ∀ text : Option String, ∀ us ∈ text.map utf16, IsText us := by
    intro text us hus
    obtain ⟨t, -, rfl⟩ := Option.map_eq_some_iff.mp hus
    exact isText_utf16 t
  exact ⟨isText_utf16 _, hmap _, hmap _, hmap _⟩

end StartLogInput

namespace Workplace

variable (w : Workplace) (showNumber : ℚ → Option NumLit) (iso : IsoTime) (i : StartLogInput)

/-- The path for the arguments of a call. -/
def startLogPath : List CodeUnit :=
  match i.filePath with
  | some filePath => w.givenPath filePath i.label
  | none => w.resolvedPath i.port i.label iso

/-- The arguments, as `JSON.stringify` writes them. -/
def startLogArgs : List (String × List Char) :=
  [("port", Json.printUnits i.port)] ++
    (i.duration.map fun x =>
      ("duration", (stringifyNumber showNumber x.value).print)).toList ++
    (i.stopKeyword.map fun keyword => ("stopKeyword", Json.printUnits keyword)).toList ++
    [("filePath", Json.printUnits (w.startLogPath iso i))]

/-- The line that the tool writes, without its terminator. -/
def startLogLine : List UInt8 :=
  encode (Json.printTexts [("cmd", (Json.str "start_log").print),
    ("args", Json.printTexts (w.startLogArgs showNumber iso i))])

/-- The tool makes the directory, and sends its line. -/
def startLog (made : Except String Unit) : Except String (List UInt8) :=
  match made with
  | .error message => .error s!"로그 디렉토리 생성 실패: {message}"
  | .ok _ => .ok (w.startLogLine showNumber iso i)

variable {w} {showNumber} {iso} {i}

/-- Where all strings are text, the path is, unless the label is cut through a character. -/
theorem isText_startLogPath (h : i.Textual)
    (hpath : ∀ filePath ∈ i.filePath, ¬ w.Trailing filePath) :
    IsText (w.startLogPath iso i) ↔ ∀ u ∈ (sanitizeLabel i.label).getLast?, isHigh u = false := by
  rw [← isText_sanitizeLabel h.label]
  unfold startLogPath
  cases hfile : i.filePath with
  | some filePath => exact isText_givenPath (h.filePath filePath hfile) (hpath filePath hfile) _
  | none => exact isText_resolvedPath h.port _ iso

end Workplace

/-- A text in braces is parsed as it is. -/
theorem trim_braces (middle : List Char) :
    trim isWhitespace (stripReturn ('\x7b' :: (middle ++ ['\x7d']))) =
      '\x7b' :: (middle ++ ['\x7d']) := by
  have hends : '\x7b' :: (middle ++ ['\x7d']) = ('\x7b' :: middle) ++ ['\x7d'] := rfl
  have hstrip : stripReturn ('\x7b' :: (middle ++ ['\x7d'])) = '\x7b' :: (middle ++ ['\x7d']) := by
    apply if_neg
    rw [hends, List.getLast?_concat]
    decide
  rw [hstrip, trim, List.dropWhile_cons_of_neg (by decide), hends,
    List.rdropWhile_concat_neg _ _ _ (by decide)]

private theorem Logs.startLog_filePath_given {l : Logs} {portName filePath : String} (rx : Receiver)
    {args : Value} (env : LogEnv) (hfree : l.table.lookup portName = none)
    (hpath : args.strArg "filePath" = some filePath) :
    ∃ log, (l.startLog portName rx args env).1.table.lookup portName = some log ∧
      log.filePath = filePath := by
  simp only [startLog, hfree, Option.isSome_none, hpath, Option.getD_some, register]
  exact ⟨_, AList.lookup_insert _, rfl⟩

/-- The path arrives as it was sent. -/
theorem Tool.Reaches.filePath {path : String} {input : Value} {req : Request}
    (h : Tool.startLog.Reaches path input req) : req.args.strArg "filePath" = some path := by
  have hsent : (Tool.startLog.sent path input).lookup "filePath" = some (.string path) :=
    (lookup_eq_some_iff_mem (Tool.startLog.nodup_keys_sent path input)).mpr (by simp [Tool.sent])
  have harrives := h.args "filePath"
  rw [hsent] at harrives
  generalize hget : req.args.get "filePath" = v at harrives
  cases harrives with
  | some harrives =>
      cases harrives with
      | same => rw [Value.strArg, hget]; rfl

section

variable {showNumber : ℚ → Option NumLit} {readFloat : NumLit → Rat} {w : Workplace} {iso : IsoTime}
  {i : StartLogInput}

/-- What is not text cannot be read. -/
theorem printUnits_cases (us : List CodeUnit) :
    (∃ v, Json.printUnits us = Json.print v) ∨ Json.Unreadable (Json.printUnits us) := by
  by_cases h : IsText us
  · obtain ⟨cs, rfl⟩ := Utf16.exists_encode h
    refine Or.inl ⟨.str (String.ofList cs), ?_⟩
    rw [Json.print, ← Json.printUnits_encode, String.toList_ofList]
  · exact Or.inr (Json.unreadable_printUnits h)

/-- The strings that are sent are text. -/
def Workplace.Sendable (w : Workplace) (iso : IsoTime) (i : StartLogInput) : Prop :=
  IsText i.port ∧ (∀ us ∈ i.stopKeyword, IsText us) ∧ IsText (w.startLogPath iso i)

private theorem unreadable_startLogArgs (showNumber : ℚ → Option NumLit) (h : ¬ w.Sendable iso i) :
    Json.Unreadable (Json.printTexts (w.startLogArgs showNumber iso i)) := by
  have hsome : ∀ {α : Type} {x : Option α} {f : α → String × List Char},
      (∀ a, (∃ v, (f a).2 = Json.print v) ∨ Json.Unreadable (f a).2) →
        ∀ t ∈ (x.map f).toList, (∃ v, t.2 = Json.print v) ∨ Json.Unreadable t.2 := by
    intro α x f hf t ht
    cases x with
    | none => simp at ht
    | some a =>
        obtain rfl : t = f a := by simpa using ht
        exact hf a
  apply Json.unreadable_printTexts
  · simp only [Workplace.startLogArgs, List.forall_mem_append, List.forall_mem_singleton]
    exact ⟨⟨⟨printUnits_cases _, hsome fun x => Or.inl ⟨_, rfl⟩⟩,
      hsome fun keyword => printUnits_cases keyword⟩, printUnits_cases _⟩
  · by_contra hall
    push Not at hall
    refine h ⟨?_, fun us hus => ?_, ?_⟩
    · by_contra hport
      refine hall ("port", Json.printUnits i.port) ?_ (Json.unreadable_printUnits hport)
      simp [Workplace.startLogArgs]
    · by_contra hkeyword
      refine hall ("stopKeyword", Json.printUnits us) ?_ (Json.unreadable_printUnits hkeyword)
      simp [Workplace.startLogArgs, Option.mem_def.mp hus]
    · by_contra hpath
      refine hall ("filePath", Json.printUnits (w.startLogPath iso i)) ?_
        (Json.unreadable_printUnits hpath)
      simp [Workplace.startLogArgs]

/-- A line with what is not text is not read. -/
theorem parse_startLogText (showNumber : ℚ → Option NumLit) (h : ¬ w.Sendable iso i) :
    Json.parse (Json.printTexts [("cmd", (Json.str "start_log").print),
      ("args", Json.printTexts (w.startLogArgs showNumber iso i))]) = none := by
  have hargs := unreadable_startLogArgs showNumber h
  refine (Json.unreadable_printTexts ?_
    ⟨_, List.mem_cons_of_mem _ (List.mem_singleton.mpr rfl), hargs⟩).parse
  exact List.forall_mem_cons.mpr ⟨Or.inl ⟨_, rfl⟩, List.forall_mem_singleton.mpr (Or.inr hargs)⟩

private theorem daemonRequest_of_not_sendable (h : ¬ w.Sendable iso i) :
    daemonRequest readFloat (w.startLogLine showNumber iso i) = none := by
  have hparse := parse_startLogText showNumber h
  rw [Json.printTexts] at hparse
  rw [daemonRequest, Workplace.startLogLine, Json.printTexts, requestOfLine,
    textOf_eq_some.mpr rfl, Option.bind_some, trim_braces, hparse]
  rfl

theorem exists_utf16 {us : List CodeUnit} (h : IsText us) : ∃ text : String, utf16 text = us := by
  obtain ⟨cs, rfl⟩ := Utf16.exists_encode h
  exact ⟨String.ofList cs, congrArg Utf16.encode String.toList_ofList⟩

private theorem printUnits_utf16 (text : String) :
    Json.printUnits (utf16 text) = (Json.str text).print := Json.printUnits_encode text

/-- What is text is sent as the request with these arguments. -/
theorem startLogLine_eq {port path : String} {stopKeyword : Option String}
    (hport : utf16 port = i.port) (hkeyword : stopKeyword.map utf16 = i.stopKeyword)
    (hpath : utf16 path = w.startLogPath iso i) :
    w.startLogLine showNumber iso i =
      (ToolCall.forward "start_log" (.object ([("port", .string port)] ++
        sentField "duration" .number i.duration ++ sentField "stopKeyword" .string stopKeyword ++
          [("filePath", .string path)]))).request.toolLine showNumber := by
  have htexts : (stopKeyword.map utf16).map (fun keyword =>
      ("stopKeyword", Json.printUnits keyword)) =
        stopKeyword.map fun keyword => ("stopKeyword", (Json.str keyword).print) := by
    cases stopKeyword with
    | none => rfl
    | some keyword => exact congrArg (fun text => some ("stopKeyword", text)) (printUnits_utf16 _)
  have hargs : w.startLogArgs showNumber iso i =
      (stringifyFields showNumber ([("port", .string port)] ++
        sentField "duration" .number i.duration ++ sentField "stopKeyword" .string stopKeyword ++
          [("filePath", .string path)])).map fun f => (f.1, f.2.print) := by
    rw [Workplace.startLogArgs, ← hport, ← hkeyword, ← hpath, printUnits_utf16, printUnits_utf16,
      htexts]
    cases i.duration <;> cases stopKeyword <;> rfl
  rw [Workplace.startLogLine, hargs, Json.printTexts_print]
  rfl

/-- Such a request passes the schema. -/
theorem startLogLine_of_sendable (showNumber : ℚ → Option NumLit) (h : w.Sendable iso i) :
    ∃ (port path : String) (stopKeyword : Option String) (call : ToolCall),
      utf16 port = i.port ∧ stopKeyword.map utf16 = i.stopKeyword ∧
        utf16 path = w.startLogPath iso i ∧
        Tool.startLog.schema path (StartLogInput.asked port i.duration stopKeyword) = some call ∧
        w.startLogLine showNumber iso i = call.request.toolLine showNumber := by
  obtain ⟨hport, hkeyword, hpath⟩ := h
  obtain ⟨port, hport⟩ := exists_utf16 hport
  obtain ⟨path, hpath⟩ := exists_utf16 hpath
  obtain ⟨stopKeyword, hkeyword⟩ : ∃ stopKeyword : Option String,
      stopKeyword.map utf16 = i.stopKeyword := by
    cases hgiven : i.stopKeyword with
    | none => exact ⟨none, rfl⟩
    | some us =>
        obtain ⟨keyword, rfl⟩ := exists_utf16 (hkeyword us hgiven)
        exact ⟨some keyword, rfl⟩
  refine ⟨port, path, stopKeyword, _, hport, hkeyword, hpath, ?_,
    startLogLine_eq hport hkeyword hpath⟩
  cases i.duration <;> cases stopKeyword <;> rfl

/-- The line is one line, whatever the strings are. -/
theorem newline_not_mem_printUnits (us : List CodeUnit) : '\n' ∉ Json.printUnits us := by
  have hdigit : ∀ n < 16, n.digitChar ≠ '\n' := by decide
  have hpoint : ∀ p : Utf16.Point, '\n' ∉ Json.pointText p := by
    intro p hp
    cases p with
    | char c =>
        refine newline_not_mem_print (.str (String.singleton c)) ?_
        rw [Json.print, Json.printString, String.toList_singleton, List.flatMap_singleton]
        exact List.mem_cons_of_mem _ (List.mem_append_left _ hp)
    | lone u =>
        simp only [Json.pointText, Json.unitDigits, List.mem_cons, List.not_mem_nil, or_false] at hp
        obtain h | h | h | h | h | h := hp
        · exact absurd h (by decide)
        · exact absurd h (by decide)
        all_goals exact hdigit _ (Nat.mod_lt _ (by decide)) h.symm
  simp only [Json.printUnits, List.mem_cons, List.mem_append, List.mem_flatMap, List.not_mem_nil,
    or_false, not_or]
  refine ⟨by decide, ?_, by decide⟩
  rintro ⟨p, -, hp⟩
  exact hpoint p hp

private theorem newline_not_mem_textFields {fields : List (String × List Char)}
    (h : ∀ f ∈ fields, '\n' ∉ f.2) : '\n' ∉ Json.textFields fields := by
  have hkey : ∀ key : String, '\n' ∉ Json.printString key := fun key =>
    newline_not_mem_print (.str key)
  induction fields with
  | nil => exact List.not_mem_nil
  | cons f fields ih =>
      obtain ⟨hf, hfields⟩ := List.forall_mem_cons.mp h
      cases fields with
      | nil => simp [Json.textFields, hkey, hf]
      | cons g fields => simpa [Json.textFields, hkey, hf] using ih hfields

theorem newline_not_mem_startLogLine : newline ∉ w.startLogLine showNumber iso i := by
  have hargs : '\n' ∉ Json.textFields (w.startLogArgs showNumber iso i) := by
    refine newline_not_mem_textFields ?_
    simp only [Workplace.startLogArgs, List.forall_mem_append, List.forall_mem_singleton]
    refine ⟨⟨⟨newline_not_mem_printUnits _, ?_⟩, ?_⟩, newline_not_mem_printUnits _⟩
    · cases i.duration with
      | none => simp
      | some x => exact List.forall_mem_singleton.mpr (newline_not_mem_print _)
    · cases i.stopKeyword with
      | none => simp
      | some keyword => exact List.forall_mem_singleton.mpr (newline_not_mem_printUnits keyword)
  have htext : '\n' ∉ Json.printTexts [("cmd", (Json.str "start_log").print),
      ("args", Json.printTexts (w.startLogArgs showNumber iso i))] := by
    have hinner : '\n' ∉ Json.printTexts (w.startLogArgs showNumber iso i) := by
      simpa [Json.printTexts] using hargs
    have hfields : '\n' ∉ Json.textFields [("cmd", (Json.str "start_log").print),
        ("args", Json.printTexts (w.startLogArgs showNumber iso i))] :=
      newline_not_mem_textFields (List.forall_mem_cons.mpr
        ⟨newline_not_mem_print _, List.forall_mem_singleton.mpr hinner⟩)
    simpa [Json.printTexts] using hfields
  have hcount := Utf8Lossy.count_encode (c := '\n') (by decide) (Json.printTexts
    [("cmd", (Json.str "start_log").print),
      ("args", Json.printTexts (w.startLogArgs showNumber iso i))])
  rw [List.count_eq_zero.mpr htext] at hcount
  exact List.count_eq_zero.mp hcount

/-- What becomes of a call of `start_log`. The daemon takes it for a request if and only if
the directory could be made and the strings that are sent are text; and where all that was
given is text, they are, unless the label is cut through a character. Then it has the
arguments that were given, and the log that it starts is written to the path that was
resolved. -/
theorem start_log_read (hshow : ∀ n : ℕ, n ≤ 2 ^ 53 → showNumber n = some (.ofNat n))
    (made : Except String Unit) :
    ((∃ line req, w.startLog showNumber iso i made = .ok line ∧
        daemonRequest readFloat line = some req) ↔ made = .ok () ∧ w.Sendable iso i) ∧
      (i.Textual → (∀ filePath ∈ i.filePath, ¬ w.Trailing filePath) →
        (w.Sendable iso i ↔ ∀ u ∈ (sanitizeLabel i.label).getLast?, isHigh u = false)) ∧
      ∀ line req, w.startLog showNumber iso i made = .ok line →
        daemonRequest readFloat line = some req →
          ∃ (port path : String) (stopKeyword : Option String),
            utf16 port = i.port ∧ stopKeyword.map utf16 = i.stopKeyword ∧
              utf16 path = w.startLogPath iso i ∧
              Tool.startLog.Reaches path (StartLogInput.asked port i.duration stopKeyword) req ∧
              ∀ (l : Logs) (portName : String) (rx : Receiver) (env : Logs.LogEnv),
                l.table.lookup portName = none →
                  ∃ log, (l.startLog portName rx req.args env).1.table.lookup portName = some log ∧
                    log.filePath = path := by
  have hread : w.Sendable iso i → ∃ (port path : String) (stopKeyword : Option String)
      (call : ToolCall), utf16 port = i.port ∧ stopKeyword.map utf16 = i.stopKeyword ∧
        utf16 path = w.startLogPath iso i ∧
        Tool.startLog.schema path (StartLogInput.asked port i.duration stopKeyword) = some call ∧
        daemonRequest readFloat (w.startLogLine showNumber iso i) =
          some (call.request.asReceived showNumber readFloat) := by
    intro hsend
    obtain ⟨port, path, stopKeyword, call, hport, hkeyword, hpath, hcall, hline⟩ :=
      startLogLine_of_sendable showNumber hsend
    refine ⟨port, path, stopKeyword, call, hport, hkeyword, hpath, hcall, ?_⟩
    rw [hline]
    exact daemonRequest_toolLine showNumber readFloat call.request
  refine ⟨⟨?_, ?_⟩, fun htextual hpath => ?_, ?_⟩
  · rintro ⟨line, req, hsent, hreq⟩
    cases made with
    | error message => cases hsent
    | ok _ =>
        obtain rfl := Except.ok.inj hsent
        refine ⟨rfl, not_not.mp fun hnot => ?_⟩
        rw [daemonRequest_of_not_sendable hnot] at hreq
        cases hreq
  · rintro ⟨rfl, hsend⟩
    obtain ⟨port, path, stopKeyword, call, -, -, -, -, hreq⟩ := hread hsend
    exact ⟨_, _, rfl, hreq⟩
  · rw [← Workplace.isText_startLogPath htextual hpath]
    exact ⟨fun h => h.2.2, fun h => ⟨htextual.port, htextual.stopKeyword, h⟩⟩
  · intro line req hsent hreq
    cases made with
    | error message => cases hsent
    | ok _ =>
        obtain rfl := Except.ok.inj hsent
        have hsend : w.Sendable iso i := by
          by_contra hnot
          rw [daemonRequest_of_not_sendable hnot] at hreq
          cases hreq
        obtain ⟨port, path, stopKeyword, call, hport, hkeyword, hpath, hcall, hreq'⟩ := hread hsend
        obtain rfl := Option.some.inj (hreq'.symm.trans hreq)
        have hreaches : Tool.startLog.Reaches path
            (StartLogInput.asked port i.duration stopKeyword)
            (call.request.asReceived showNumber readFloat) := Tool.reaches hshow hcall
        exact ⟨port, path, stopKeyword, hport, hkeyword, hpath, hreaches,
          fun l portName rx env hfree =>
            Logs.startLog_filePath_given rx env hfree hreaches.filePath⟩

end

def linuxWorkplace : Workplace where
  toHost := linuxHost
  drive _ := (linuxHost.root, linuxHost.rest)
  drive_ends _ := linuxHost.root_ends
  root_text := isText_utf16 "/"
  rest_text := isText_utf16 "srv"
  drive_text _ := ⟨isText_utf16 "/", isText_utf16 "srv"⟩

/-- A label for a path that is given. -/
def labelledInput : Value :=
  .object [("port", .string "COM3"), ("filePath", .string "logs/run.txt"),
    ("label", .string "boot test")]

/-- The label's fortieth code unit is half of a character. -/
def cutInput : Value :=
  .object [("port", .string "COM3"),
    ("label", .string ("aaaaaaaaaaaaaaaaaaaaaaaaaaaaaaaaaaaaaaa😀"))]

private theorem startLogPath_labelled :
    linuxWorkplace.startLogPath isoMidnight (StartLogInput.ofValue labelledInput) =
      utf16 "/srv/logs/run_boot_test.txt" := by
  decide +kernel

/-- The theorem for both calls: the first is read, and the second is not. -/
theorem start_log_read_labels :
    (∃ line req, linuxWorkplace.startLog showWhole isoMidnight (.ofValue labelledInput) (.ok ()) =
        .ok line ∧ daemonRequest (fun _ => 0) line = some req ∧
        ∃ port path, utf16 path = utf16 "/srv/logs/run_boot_test.txt" ∧
          Tool.startLog.Reaches path (StartLogInput.asked port none none) req) ∧
      ¬ ∃ line req, linuxWorkplace.startLog showWhole isoMidnight (.ofValue cutInput) (.ok ()) =
        .ok line ∧ daemonRequest (fun _ => 0) line = some req := by
  constructor
  · have hlast : (linuxWorkplace.resolved (utf16 "logs/run.txt")).getLast? = some 0x74 := by
      decide +kernel
    have hpath : ∀ filePath ∈ (StartLogInput.ofValue labelledInput).filePath,
        ¬ linuxWorkplace.Trailing filePath := by
      intro filePath hfile htrailing
      obtain rfl : utf16 "logs/run.txt" = filePath := Option.some.inj hfile
      obtain ⟨c, hc, hsep⟩ := htrailing.1
      rw [hlast] at hc
      obtain rfl := Option.some.inj hc
      exact absurd hsep (by decide)
    obtain ⟨hread, hsendable, hreq⟩ := @start_log_read showWhole (fun _ => 0) linuxWorkplace
      isoMidnight (.ofValue labelledInput) showWhole_eq (.ok ())
    have hend : (sanitizeLabel (StartLogInput.ofValue labelledInput).label).getLast? =
        some 0x74 := by decide +kernel
    have hwhole : ∀ u ∈ (sanitizeLabel (StartLogInput.ofValue labelledInput).label).getLast?,
        isHigh u = false := by
      intro u hu
      rw [hend] at hu
      obtain rfl := Option.some.inj hu
      decide
    have htextual := StartLogInput.textual_ofValue labelledInput
    obtain ⟨line, req, hline, hsome⟩ := hread.mpr ⟨rfl, (hsendable htextual hpath).mpr hwhole⟩
    obtain ⟨port, path, stopKeyword, -, hkeyword, hutf16, hreaches, -⟩ := hreq line req hline hsome
    obtain rfl : stopKeyword = none := Option.map_eq_none_iff.mp hkeyword
    exact ⟨line, req, hline, hsome, port, path, hutf16.trans startLogPath_labelled, hreaches⟩
  · intro hread
    have hnone : ∀ filePath ∈ (StartLogInput.ofValue cutInput).filePath,
        ¬ linuxWorkplace.Trailing filePath := fun filePath hfile => by cases hfile
    obtain ⟨hiff, hsendable, -⟩ := @start_log_read showWhole (fun _ => 0) linuxWorkplace isoMidnight
      (.ofValue cutInput) showWhole_eq (.ok ())
    have hsend := (hiff.mp hread).2
    have htextual := StartLogInput.textual_ofValue cutInput
    have hhigh := (hsendable htextual hnone).mp hsend 0xD83D (by decide +kernel)
    exact absurd hhigh (by decide)

end Commmon

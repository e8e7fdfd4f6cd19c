/-
# Where logs are written by default

Without a file path in the request, the MCP server and the daemon each choose one.
The server puts the log into the directory `log` of its working directory, the daemon
puts it into the system's temporary directory, and both build the name of the file
from the port's.

The server replaces what does not belong into a file name. The daemon takes the port's
name as it is, so that a separator in it names a directory in between.
-/

import Commmon.Lib.Paths
import Commmon.LogLabels
import Commmon.LogTimers

set_option autoImplicit false

namespace Commmon

open Paths Label

inductive Platform
  | posix
  | windows
  deriving DecidableEq

namespace Platform

/-- `/`, and on Windows also `\`. -/
def isSep : Platform → ℕ → Bool
  | .posix, c => c == 0x2F
  | .windows, c => c == 0x2F || c == 0x5C

theorem isSep_cases {p : Platform} {c : ℕ} (h : p.isSep c = true) : c = 0x2F ∨ c = 0x5C := by
  cases p with
  | posix => exact Or.inl (by simpa [isSep] using h)
  | windows => simpa [isSep] using h

def unitStyle (p : Platform) : PathStyle CodeUnit where
  isSep u := p.isSep u.toNat
  sep := match p with
    | .posix => 0x2F
    | .windows => 0x5C
  dot := 0x2E
  isSep_sep := by cases p <;> rfl
  isSep_dot := by cases p <;> rfl

def charStyle (p : Platform) : PathStyle Char where
  isSep c := p.isSep c.toNat
  sep := match p with
    | .posix => '/'
    | .windows => '\\'
  dot := '.'
  isSep_sep := by cases p <;> rfl
  isSep_dot := by cases p <;> rfl

end Platform

/-- What `toISOString` returns: digits, and what stands between them. -/
structure IsoTime where
  text : List CodeUnit
  allowed : ∀ u ∈ text,
    0x30 ≤ u.toNat ∧ u.toNat ≤ 0x39 ∨ u.toNat ∈ [0x2B, 0x2D, 0x2E, 0x3A, 0x54, 0x5A]

/-- A time in the format `%Y%m%d_%H%M%S`. A year beyond the four digits has a sign. -/
structure LocalTime where
  text : String
  allowed : ∀ c ∈ text.toList, 0x30 ≤ c.toNat ∧ c.toNat ≤ 0x39 ∨ c.toNat ∈ [0x2B, 0x2D, 0x5F]

/-- `replace(/\..+$/, "")`. A dot at the very end stays. -/
def cutFraction (text : List CodeUnit) : List CodeUnit :=
  match text.dropWhile (· != 0x2E) with
  | _ :: _ :: _ => text.takeWhile (· != 0x2E)
  | _ => text

/-- The date and time without `-`, `:`, `T` and what follows the seconds. -/
def stamp (iso : IsoTime) : List CodeUnit :=
  cutFraction (iso.text.filter fun u => u.toNat ∉ [0x2D, 0x3A, 0x54])

/-- The code units of a text in UTF-16. -/
def utf16 (text : String) : List CodeUnit :=
  text.toList.flatMap fun c =>
    if c.toNat < 0x10000 then [UInt16.ofNat c.toNat]
    else
      [UInt16.ofNat (0xD800 + (c.toNat - 0x10000) / 0x400),
        UInt16.ofNat (0xDC00 + (c.toNat - 0x10000) % 0x400)]

/-- The name of a log file of the MCP server. -/
def logFileName (port : List CodeUnit) (label : Option (List CodeUnit)) (iso : IsoTime) :
    List CodeUnit :=
  let safeLabel := sanitizeLabel label
  let ts := stamp iso
  let safePort := replaceForbidden port
  let labelPart := if safeLabel.isEmpty then [] else safeLabel ++ [underscore]
  utf16 "commmon_" ++ safePort ++ [underscore] ++ labelPart ++ ts ++ utf16 ".log"

/-- The system that the servers run on. The working directory is absolute, and `root` is
its part in front, which ends in a separator. So does the temporary directory of a
Windows system, which is no path that is taken verbatim. -/
structure Host where
  platform : Platform
  root : List CodeUnit
  rest : List CodeUnit
  temp : List Char
  root_ends : ∃ u ∈ root.getLast?, platform.isSep u.toNat = true
  temp_ends : platform = .windows → temp.getLast? = some '\\'
  temp_plain : platform = .windows → ¬ ['\\', '\\', '?', '\\'] <+: temp

namespace Host

/-- `path.join(process.cwd(), "log")`. -/
def logDirectory (h : Host) : List CodeUnit :=
  h.platform.unitStyle.joinNormal h.root [h.rest, utf16 "log"]

/-- The path that the MCP server's tool sends to the daemon. -/
def resolvedPath (h : Host) (port : List CodeUnit) (label : Option (List CodeUnit))
    (iso : IsoTime) : List CodeUnit :=
  h.platform.unitStyle.joinNormal h.root [h.rest, utf16 "log", logFileName port label iso]

/-- The daemon's clock and temporary directory. -/
def logEnv (h : Host) (now : LocalTime) (env : Logs.LogEnv) : Logs.LogEnv :=
  { env with
    now := now.text
    tempJoin := fun name => String.ofList (h.platform.charStyle.join h.temp name.toList) }

/-- Both servers put the log of a port, for which no path is given, right into their
directory. -/
structure KeepsLogs (h : Host) (port : String) (label : Option (List CodeUnit)) (iso : IsoTime)
    (logs : Logs) : Prop where
  mcp : h.platform.unitStyle.DirectChild (h.resolvedPath (utf16 port) label iso) h.logDirectory
  daemon : ∃ log, logs.table.lookup port = some log ∧
    h.platform.charStyle.DirectChild log.filePath.toList h.temp

end Host

private theorem isForbidden_of_isSep {p : Platform} {u : CodeUnit} (h : p.isSep u.toNat = true) :
    isForbidden u = true := by
  obtain h | h := Platform.isSep_cases h <;> simp [isForbidden, h]

theorem isSep_of_allowed {p : Platform} {u : CodeUnit} (h : isForbidden u = false) :
    p.unitStyle.isSep u = false := by
  cases hsep : p.isSep u.toNat with
  | false => exact hsep
  | true => simp [isForbidden_of_isSep hsep] at h

theorem not_isForbidden_sanitizeLabel (label : Option (List CodeUnit)) :
    ∀ u ∈ sanitizeLabel label, isForbidden u = false := by
  intro u hu
  cases label with
  | none => exact absurd hu (by simp [sanitizeLabel])
  | some label =>
      rw [sanitizeLabel_some] at hu
      cases hforbidden : isForbidden u with
      | false => rfl
      | true =>
          have hunder := eq_underscore_of_mem_cleaned (List.mem_of_mem_take hu)
            (by simp [isSeparator, hforbidden])
          rw [hunder] at hforbidden
          exact absurd hforbidden (by decide)

theorem mem_of_mem_cutFraction {text : List CodeUnit} {u : CodeUnit}
    (hu : u ∈ cutFraction text) : u ∈ text := by
  unfold cutFraction at hu
  split at hu
  · exact List.takeWhile_subset _ hu
  · exact hu

private theorem not_isForbidden_stamp (iso : IsoTime) : ∀ u ∈ stamp iso, isForbidden u = false := by
  intro u hu
  obtain ⟨hmem, hkept⟩ := List.mem_filter.mp (mem_of_mem_cutFraction hu)
  have hallowed := iso.allowed u hmem
  simp only [List.mem_cons, List.not_mem_nil, or_false, decide_eq_true_eq, not_or] at hallowed hkept
  simp only [isForbidden, List.mem_cons, List.not_mem_nil, or_false, decide_eq_false_iff_not]
  omega

/-- Whatever the port and the label are, nothing in the name separates. -/
theorem lettered_logFileName (p : Platform) (port : List CodeUnit)
    (label : Option (List CodeUnit)) (iso : IsoTime) :
    p.unitStyle.Lettered (logFileName port label iso) := by
  have hallowed : ∀ {text : List CodeUnit}, (∀ u ∈ text, isForbidden u = false) →
      ∀ u ∈ text, p.unitStyle.isSep u = false := fun h u hu => isSep_of_allowed (h u hu)
  have hfront : ∀ u ∈ utf16 "commmon_", isForbidden u = false := by
    simpa using (by decide : (utf16 "commmon_").all fun u => !isForbidden u)
  have hback : ∀ u ∈ utf16 ".log", isForbidden u = false := by
    simpa using (by decide : (utf16 ".log").all fun u => !isForbidden u)
  have hunder : ∀ u ∈ [underscore], isForbidden u = false := by
    simpa using (by decide : isForbidden underscore = false)
  have hlabel : ∀ u ∈ (if (sanitizeLabel label).isEmpty then []
      else sanitizeLabel label ++ [underscore]), isForbidden u = false := by
    intro u hu
    split_ifs at hu
    · exact absurd hu (by simp)
    · exact (List.mem_append.mp hu).elim (not_isForbidden_sanitizeLabel label u) (hunder u)
  have hletter : p.unitStyle.Lettered (utf16 "commmon_") := by
    refine ⟨hallowed hfront, 0x63, by decide, ?_⟩
    cases p <;> decide
  exact ((((hletter.append (hallowed not_isForbidden_replaceForbidden)).append
    (hallowed hunder)).append (hallowed hlabel)).append
      (hallowed (not_isForbidden_stamp iso))).append (hallowed hback)

/-- The MCP server keeps its logs in its directory. -/
theorem resolvedPath_directChild (h : Host) (port : List CodeUnit)
    (label : Option (List CodeUnit)) (iso : IsoTime) :
    h.platform.unitStyle.DirectChild (h.resolvedPath port label iso) h.logDirectory :=
  PathStyle.directChild_joinNormal h.root_ends
    (lettered_logFileName h.platform port label iso).isName [h.rest, utf16 "log"]

private theorem Logs.startLog_filePath {l : Logs} {portName : String} (rx : Receiver)
    {args : Value} (env : LogEnv) (hfree : l.table.lookup portName = none)
    (hpath : args.strArg "filePath" = none) :
    ∃ log, (l.startLog portName rx args env).1.table.lookup portName = some log ∧
      log.filePath = env.tempJoin s!"commmon_{portName}_{env.now}.log" := by
  simp only [startLog, hfree, Option.isSome_none, hpath, Option.getD_none, register]
  exact ⟨_, AList.lookup_insert _, rfl⟩

private theorem not_isSep_localTime (p : Platform) (now : LocalTime) :
    ∀ c ∈ now.text.toList, p.charStyle.isSep c = false := by
  intro c hc
  cases hsep : p.isSep c.toNat with
  | false => exact hsep
  | true =>
      have hallowed := now.allowed c hc
      simp only [List.mem_cons, List.not_mem_nil, or_false] at hallowed
      have hcases := Platform.isSep_cases hsep
      omega

/-- When the daemon keeps its logs in its directory. -/
theorem tempJoin_directChild_iff (h : Host) (port : String) (now : LocalTime)
    (env : Logs.LogEnv) :
    h.platform.charStyle.DirectChild
        ((h.logEnv now env).tempJoin s!"commmon_{port}_{now.text}.log").toList h.temp ↔
      ∀ c ∈ port.toList, h.platform.isSep c.toNat = false := by
  have hname : (s!"commmon_{port}_{now.text}.log").toList =
      "commmon_".toList ++ port.toList ++ ("_".toList ++ now.text.toList ++ ".log".toList) := by
    simp [toString]
  have hfront : h.platform.charStyle.Lettered "commmon_".toList := by
    refine ⟨?_, 'c', by simp, ?_⟩ <;> cases h.platform <;> simp [Platform.charStyle, Platform.isSep]
  have hunder : h.platform.charStyle.Lettered "_".toList := by
    refine ⟨?_, '_', by simp, ?_⟩ <;> cases h.platform <;> simp [Platform.charStyle, Platform.isSep]
  have hsuffix : ∀ c ∈ ".log".toList, h.platform.charStyle.isSep c = false := by
    cases h.platform <;> simp [Platform.charStyle, Platform.isSep]
  have hback : h.platform.charStyle.Lettered ("_".toList ++ now.text.toList ++ ".log".toList) :=
    (hunder.append (not_isSep_localTime h.platform now)).append hsuffix
  have hpath : ((h.logEnv now env).tempJoin s!"commmon_{port}_{now.text}.log").toList =
      h.platform.charStyle.join h.temp (s!"commmon_{port}_{now.text}.log").toList :=
    String.toList_ofList
  rw [hpath, hname]
  exact PathStyle.directChild_join_iff hfront hback

private theorem startLog_directChild_iff (h : Host) {l : Logs} {port : String} (rx : Receiver)
    {args : Value} (env : Logs.LogEnv) (now : LocalTime) (hfree : l.table.lookup port = none)
    (hpath : args.strArg "filePath" = none) :
    (∃ log, (l.startLog port rx args (h.logEnv now env)).1.table.lookup port = some log ∧
        h.platform.charStyle.DirectChild log.filePath.toList h.temp) ↔
      ∀ c ∈ port.toList, h.platform.isSep c.toNat = false := by
  obtain ⟨log, hlog, hfile⟩ := Logs.startLog_filePath rx (h.logEnv now env) hfree hpath
  rw [← tempJoin_directChild_iff h port now env]
  constructor
  · rintro ⟨log', hlog', hchild⟩
    obtain rfl : log = log' := Option.some.inj (hlog.symm.trans hlog')
    exact hfile ▸ hchild
  · intro hchild
    exact ⟨log, hlog, hfile ▸ hchild⟩

/-- When both servers keep their logs in their directories. The MCP server always
does. The daemon does so unless the port's name has a separator. -/
theorem keepsLogs_iff (h : Host) {l : Logs} {port : String} (rx : Receiver) {args : Value}
    (env : Logs.LogEnv) (label : Option (List CodeUnit)) (iso : IsoTime) (now : LocalTime)
    (hfree : l.table.lookup port = none) (hpath : args.strArg "filePath" = none) :
    h.KeepsLogs port label iso (l.startLog port rx args (h.logEnv now env)).1 ↔
      ∀ c ∈ port.toList, h.platform.isSep c.toNat = false := by
  rw [← startLog_directChild_iff h rx env now hfree hpath]
  constructor
  · exact fun hkeeps => hkeeps.daemon
  · exact fun hdaemon => ⟨resolvedPath_directChild h (utf16 port) label iso, hdaemon⟩

def linuxHost : Host where
  platform := .posix
  root := utf16 "/"
  rest := utf16 "srv"
  temp := "/tmp".toList
  root_ends := ⟨0x2F, by decide, by decide⟩
  temp_ends := by simp
  temp_plain := by simp

def midnight : LocalTime where
  text := "20260101_000000"
  allowed := by simp

def isoMidnight : IsoTime where
  text := utf16 "2026-01-01T00:00:00.000Z"
  allowed := by simp [utf16]

/-- A device that is opened from its own directory. -/
theorem plainName_keepsLogs :
    (linuxHost.KeepsLogs "ttyUSB0" none isoMidnight
        (Logs.new.startLog "ttyUSB0" ⟨0, 0⟩ (logArgs "ttyUSB0" [])
          (linuxHost.logEnv midnight logEnv)).1 ↔
      ∀ c ∈ "ttyUSB0".toList, linuxHost.platform.isSep c.toNat = false) ∧
    ∀ c ∈ "ttyUSB0".toList, linuxHost.platform.isSep c.toNat = false := by
  refine ⟨keepsLogs_iff linuxHost ⟨0, 0⟩ logEnv none isoMidnight midnight ?_ (by decide), ?_⟩
  · rfl
  · simp [linuxHost, Platform.isSep]

/-- A device that is opened by its full path is in no direct child. -/
theorem keepsLogs_not_always :
    ¬ ∀ (h : Host) (m : SerialManager) (l : Logs) (port : String) (rx : Receiver) (args : Value)
        (env : Logs.LogEnv) (label : Option (List CodeUnit)) (iso : IsoTime) (now : LocalTime),
      m.subscribe port = some rx → l.table.lookup port = none →
        args.strArg "filePath" = none →
        h.KeepsLogs port label iso (l.startLog port rx args (h.logEnv now env)).1 := by
  intro h
  let m := (SerialManager.new.openPort (logArgs "/dev/ttyUSB0" []) (.ok ())).1
  have hkeeps := h linuxHost m Logs.new "/dev/ttyUSB0" ⟨0, 0⟩ (logArgs "/dev/ttyUSB0" []) logEnv
    none isoMidnight midnight (by decide) rfl (by decide)
  have hplain := (startLog_directChild_iff linuxHost _ _ _ rfl (by decide)).mp hkeeps.daemon
  exact absurd (hplain '/' (by simp)) (by decide)

end Commmon

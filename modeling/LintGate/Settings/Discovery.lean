import LintGate.Document.OfJson
import LintGate.Document.Toml
import LintGate.Document.Yaml
import LintGate.Fault
import LintGate.FileTree
import LintGate.Json.Reader
import LintGate.Settings.Decode

/-!
# Finding and completing settings

The root of a working tree is the nearest directory above the start that holds a settings file or a
repository. `Settings.find` reads the settings of the root and completes them; a settings file that
cannot be understood is a fault, so that no run goes on with other settings than were meant.
-/

namespace LintGate

/-- Where to look for the root, as an absolute path. -/
def absoluteStart (startDir : Option Path) (cwd : Path) : Path :=
  match startDir with
  | none => cwd
  | some d => if d.isAbsolute then d else cwd.join d

/-- The settings files of a root, the first of which counts. -/
def settingsFiles : List Path :=
  [".smart-lint.toml", ".smart-lint.yaml", ".smart-lint.yml"]

/-- Files shared with other programs, with a section for these settings. -/
def sharedFiles : List Path :=
  ["hook-config.json", ".claude/hook-config.json"]

def sharedSection : String := "smart-lint"

namespace FileTree

/-- Whether a directory is marked as a root. -/
def isRoot (t : FileTree) (dir : Path) : Bool :=
  settingsFiles.any (fun f => t.exists? (dir.join f)) || t.exists? (dir.join ".git")

/-- The nearest marked directory at or above `start`, or `start` itself. Directories are taken from
the text of the path, and the empty path is none. -/
def findRoot (t : FileTree) (start : Path) : Path :=
  let above := start :: ((start.ancestors.drop 1).takeWhile (!·.isEmpty))
  (above.find? t.isRoot).getD start

end FileTree

namespace SettingsFile

/-- A settings file that is not for other programs too. -/
def ofText (file : Path) (text : String) : Option SettingsFile :=
  let document := if file.endsWith ".toml" then Toml.document? text else Yaml.document? text
  document.bind SettingsFile.ofDocument

/-- The section in a shared file, if there is one. -/
def ofShared (text : String) : Option (Option SettingsFile) := do
  let value ← Json.parseSound? text
  match value.field? sharedSection with
  | none => some none
  | some given => (SettingsFile.ofDocument given.document).map some

end SettingsFile

/-- The fault of a file that cannot be understood. -/
def unreadableSettings (file : Path) : Fault :=
  .settings file (.unreadable "not a settings file")

namespace FileTree

/-- Looks for settings in some files of their own. -/
def loadOwn (t : FileTree) (root : Path) :
    List Path → Except Fault (Option (Path × SettingsFile))
  | [] => .ok none
  | name :: more =>
    let file := root.join name
    if t.isFile file then
      match (t.readText? file).bind (SettingsFile.ofText name) with
      | some given => .ok (some (file, given))
      | none => .error (unreadableSettings file)
    else loadOwn t root more

/-- Looks for settings in some shared files. -/
def loadShared (t : FileTree) (root : Path) :
    List Path → Except Fault (Option (Path × SettingsFile))
  | [] => .ok none
  | name :: more =>
    let file := root.join name
    if t.isFile file then
      match (t.readText? file).bind SettingsFile.ofShared with
      | some (some given) => .ok (some (file, given))
      | some none => loadShared t root more
      | none => .error (unreadableSettings file)
    else loadShared t root more

/-- The settings file of a root, if there is one. -/
def loadSettings (t : FileTree) (root : Path) : Except Fault (Option (Path × SettingsFile)) :=
  match t.loadOwn root settingsFiles with
  | .ok none => t.loadShared root sharedFiles
  | other => other

end FileTree

/-- A check with its languages known and its time limit filled in. -/
def CheckSection.validate (c : CheckSection) (defaultSeconds : Option Nat) :
    Except SettingsFault CustomCheck :=
  if c.command.isEmpty then .error (.emptyCommand c.name)
  else do
    let languages ← c.languages.mapM fun name =>
      match Language.ofId? name with
      | some l => Except.ok l
      | none => .error (.unknownLanguage c.name name)
    .ok {
      name := c.name
      command := c.command
      languages
      passFiles := c.passFiles.getD true
      timeoutSeconds :=
        (c.timeoutSeconds <|> defaultSeconds).getD Settings.defaultCheckSeconds }

namespace Settings

/-- Completes what a settings file says. -/
def complete (ov : Overrides) (root : Path) (found : Option (Path × SettingsFile)) :
    Except Fault Settings :=
  let given := (found.map (·.2)).getD {}
  let file := (found.map (·.1)).getD (root.join ".smart-lint.toml")
  let defaults : Settings := { root }
  match given.checks.mapM (·.validate given.timeoutSeconds) with
  | .error cause => .error (.settings file cause)
  | .ok checks => .ok {
      root
      file := found.map (·.1)
      output := ((ov.output <|> given.output).map OutputMode.ofText).getD .human
      debug := ov.debug
      parallel := given.parallel.getD false
      timeoutSeconds := given.timeoutSeconds
      lock := !ov.noLock
      lockTimeoutSeconds := given.lockTimeoutSeconds.getD defaults.lockTimeoutSeconds
      detectDepth := given.detectDepth.getD defaults.detectDepth
      ignoreFile := given.ignoreFile.getD defaults.ignoreFile
      disableMarker := given.disableMarker.getD defaults.disableMarker
      markerLines := given.markerLines.getD defaults.markerLines
      contextFiles := given.contextFiles.getD defaults.contextFiles
      languages := given.languages
      thresholds := given.thresholds.getD {}
      checks }

/-- The settings for a start directory. -/
def find (t : FileTree) (ov : Overrides) (cwd : Path) : Except Fault Settings := do
  let root := t.findRoot (absoluteStart ov.startDir cwd)
  complete ov root (← t.loadSettings root)

end Settings

end LintGate

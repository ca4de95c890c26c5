import LintGate.Path
import LintGate.SystemError

/-!
# Faults

A fault ends a run before there is a verdict. What goes wrong with single tools or files is no
fault: it is reported as a finding or passed over.
-/

namespace LintGate

/-- What is wrong with the settings. -/
inductive SettingsFault where
  /-- The file cannot be read, or not as settings. -/
  | unreadable (reason : String)
  | emptyCommand (check : String)
  | unknownLanguage (check : String) (language : String)
deriving DecidableEq, Repr

namespace SettingsFault

def message : SettingsFault → String
  | unreadable reason => reason
  | emptyCommand check => s!"check '{check}' has an empty command"
  | unknownLanguage check language => s!"check '{check}' names unknown language '{language}'"

end SettingsFault

inductive Fault where
  | rootUnreadable (root : Path) (cause : SystemError)
  | settings (file : Path) (cause : SettingsFault)
  | lockTimeout (root : Path) (waitedSeconds : Nat)
  | lock (file : Path) (cause : SystemError)
  | hookPayload (reason : String)
  | system (cause : SystemError)
  /-- A sum does not fit into its machine word. The program breaks off where it stands. -/
  | overflow
deriving DecidableEq, Repr

namespace Fault

def message : Fault → String
  | rootUnreadable root cause =>
    s!"cannot read working tree root '{Text.lossy root}': {cause.message}"
  | settings file cause => s!"invalid configuration in '{Text.lossy file}': {cause.message}"
  | lockTimeout root waited =>
    s!"another smart-lint run holds the lock for '{Text.lossy root}' (waited {waited}s)"
  | lock file cause => s!"cannot acquire lock file '{Text.lossy file}': {cause.message}"
  | hookPayload reason => s!"invalid hook payload: {reason}"
  | system cause => cause.message
  | overflow => "attempt to add with overflow"

end Fault

end LintGate

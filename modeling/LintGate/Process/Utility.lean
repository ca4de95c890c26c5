import LintGate.Process.Utility.Files
import LintGate.Process.Utility.Test
import LintGate.Process.Utility.Text

/-!
# Utilities

The programs that come with the machine. `Utility.run?` runs one of those that need nothing but
their arguments, their input and the file tree; the others are the affair of the shell.
-/

namespace LintGate.Utility

/-- Evaluates the condition in the arguments of `test`. -/
def test (k : Task) (args : List String) : Effect :=
  match Condition.holds? k.tree args with
  | some true => k.answer [] 0
  | some false => k.answer [] 1
  | none => k.fail "unexpected operator" 2

/-- Evaluates a condition in brackets. -/
def bracket (k : Task) : Effect :=
  if k.args.getLast? = some "]" then test k k.args.dropLast else k.fail "missing ]" 2

def environment (k : Task) : Effect :=
  k.answer (unlines (k.environment.map fun (name, value) => Text.rawBytes (name ++ "=" ++ value))) 0

/-- The utilities by name. -/
def all : List (String × (Task → Effect)) :=
  [("true", fun k => k.answer [] 0), ("false", fun k => k.answer [] 1),
    ("echo", fun k => k.answer (echo false k.args) 0),
    ("printf", fun k => k.answer (printf k.args) 0), ("test", fun k => test k k.args),
    ("[", bracket), ("cat", cat), ("head", fun k => printParts k firstPart),
    ("tail", fun k => printParts k lastPart), ("tr", tr), ("sort", sort), ("uniq", uniq),
    ("grep", grep), ("wc", wc), ("cut", cut), ("seq", seq), ("touch", touch), ("rm", rm),
    ("mkdir", mkdir), ("cp", cp), ("mv", mv), ("ln", ln), ("chmod", chmod), ("ls", ls),
    ("basename", basename), ("dirname", dirname), ("printenv", environment),
    ("pwd", fun k => k.answer (Text.rawBytes (FileTree.absolutePath k.tree.here ++ "\n")) 0)]

def run? (k : Task) : Option Effect :=
  (all.lookup k.name).map fun effect => effect k

/-- Programs that the shell runs itself because they start or stop processes. -/
def processPrograms : List String :=
  ["sh", "dash", "bash", "env", "sleep"]

/-- The names of all programs that come with the machine. -/
def programs : List String :=
  all.map (·.1) ++ processPrograms

end LintGate.Utility

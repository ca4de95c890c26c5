import LintGate.FileTree
import LintGate.Finding

/-!
# Size limits

A size limit is given in units of 1024 bytes. `Check.fileSize` reports all files above it in one
finding and passes over files that do not exist. Sizes fill a machine word at most, and so does the
number of bytes that a limit allows.
-/

namespace LintGate.Check

/-- The name under which files above the limit are reported. -/
def fileSizeTool : String := "max-file-size"

/-- The greatest number of bytes that a machine word counts. -/
def maxBytes : Nat := Nat.pow 2 64 - 1

/-- How many bytes a limit allows. A limit that no machine word can count in bytes allows all that
one can count. -/
def allowedBytes (limitKb : Nat) : Nat :=
  min (limitKb * 1024) maxBytes

/-- The line for a file that has too many bytes; sizes are rounded up. -/
def sizeLine? (limitKb : Nat) (file : Path) (size : Nat) : Option String :=
  if allowedBytes limitKb < size then
    some s!"{Text.lossy file}: {(size + 1023) / 1024} KB (limit {limitKb} KB)"
  else none

/-- The finding about the lines for some files, if there is any. -/
def sizeFinding? (profile : String) (lines : List String) : Option Finding :=
  if lines.isEmpty then none
  else some ⟨fileSizeTool, profile, .check, .lintViolation, "\n".intercalate lines⟩

def fileSize (sizeOf : Path → Option Nat) (profile : String) (files : List Path) (limitKb : Nat) :
    Option Finding :=
  sizeFinding? profile (files.filterMap fun f => (sizeOf f).bind (sizeLine? limitKb f))

/-- The size of a file of a working tree. -/
def sizeIn (t : FileTree) (root : Path) (file : Path) : Option Nat :=
  (t.stat? (root.join file)).map Node.size

/-- About how many tokens some files hold: four bytes each. -/
def contextTokens (t : FileTree) (root : Path) (files : List Path) : Nat :=
  let sizes := files.filterMap fun f => ((t.stat? (root.join f)).filter Node.isFile).map Node.size
  sizes.foldl (· + ·) 0 / 4

end LintGate.Check

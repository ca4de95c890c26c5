import LintGate.Process.Machine
import LintGate.Process.Utility

/-!
# Standard files

The files that are there before any other: programs, devices, and a place for temporary files.
-/

namespace LintGate.StandardFiles

/-- Entries in the order of their names. -/
def dirOf (entries : List (String × Node)) : Node :=
  .dir (entries.foldl (fun all e => Node.putEntry e.1 (some e.2) all) [])

/-- The directory of the programs that come with the machine. -/
def programDir : Node :=
  dirOf (Utility.programs.map fun name => (name, .program name))

def root : Node :=
  dirOf [("bin", .link "usr/bin"),
    ("dev", dirOf [("null", .device .null), ("zero", .device .zero)]),
    ("etc", .empty), ("root", .empty), ("tmp", .empty),
    ("usr", dirOf [("bin", programDir), ("lib", .empty), ("local", dirOf [("bin", .empty)]),
      ("sbin", .empty)])]

end LintGate.StandardFiles

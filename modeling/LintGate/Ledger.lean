import LintGate.Finding

/-!
# Ledger of findings

A ledger collects the findings of the stages in whatever order the stages end. `sorted` puts them
into the order of languages, then of stages, then of emission within one recording, so that the
report does not depend on which stage ended first.
-/

namespace LintGate

namespace Ledger

/-- The place of a finding in the report. -/
structure Place where
  /-- The place of the language in detection order. -/
  language : Nat
  role : Role
  /-- How many findings the same stage had recorded before, in one recording. -/
  sequence : Nat
deriving DecidableEq, Repr

/-- Lexicographic order by language, stage and sequence. -/
def Place.atMost (a b : Place) : Bool :=
  if a.language ≠ b.language then a.language < b.language
  else if a.role.rank ≠ b.role.rank then a.role.rank < b.role.rank
  else a.sequence ≤ b.sequence

end Ledger

/-- Findings with their places, in the order in which they were recorded. -/
structure Ledger where
  entries : List (Ledger.Place × Finding) := []

namespace Ledger

def empty : Ledger := {}

/-- Gives each finding its place in the sequence, counting from `start`. -/
def placed (language : Nat) (role : Role) (start : Nat) : List Finding → List (Place × Finding)
  | [] => []
  | f :: rest => (⟨language, role, start⟩, f) :: placed language role (start + 1) rest

/-- Records the findings of one stage of one language, in emission order. -/
def record (l : Ledger) (language : Nat) (role : Role) (findings : List Finding) : Ledger :=
  ⟨l.entries ++ placed language role 0 findings⟩

def size (l : Ledger) : Nat :=
  l.entries.length

/-- The findings in report order. Findings at the same place stay in recording order. -/
def sorted (l : Ledger) : List Finding :=
  (l.entries.mergeSort fun a b => a.1.atMost b.1).map (·.2)

end Ledger

end LintGate

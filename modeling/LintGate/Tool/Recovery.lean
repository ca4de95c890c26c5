import LintGate.Text.Blank

/-!
# Recovery from unreadable configuration

A tool that cannot read the configuration of a project says so only in what it prints. A
`RecoveryRule` holds the wordings that are known and the arguments under which the tool does
without that configuration. `Wording.occursIn` looks for a wording anywhere in a text, whatever
the case of its letters.
-/

namespace LintGate

/-- Entries keyed by the smallest major version to which they apply. -/
structure ByVersion where
  minMajor : Nat
  args : List String
deriving DecidableEq, Repr

namespace ByVersion

/-- The entry with the greatest threshold not above `major`; of equal thresholds the last. -/
def best? (major : Nat) (table : List ByVersion) : Option ByVersion :=
  table.foldl
    (fun best entry =>
      if entry.minMajor ≤ major && (best.all fun b => b.minMajor ≤ entry.minMajor) then some entry
      else best)
    none

/-- The arguments for an installed major version, with `base` for want of a fitting entry. -/
def choose (base : List String) (table : List ByVersion) (major : Option Nat) : List String :=
  match major.bind fun m => best? m table with
  | some entry => entry.args
  | none => base

@[simp] theorem choose_none (base : List String) (table : List ByVersion) :
    choose base table none = base := rfl

@[simp] theorem choose_nil (base : List String) (major : Option Nat) :
    choose base [] major = base := by
  cases major <;> rfl

end ByVersion

/-- A piece of a wording. -/
inductive Wording.Part where
  /-- These letters, in either case. -/
  | text (letters : String)
  /-- One of these. -/
  | oneOf (choices : List String)
  /-- Anything up to the end of the line, or less. -/
  | anything
  /-- Any number of blank characters. -/
  | blanks
deriving DecidableEq, Repr

/-- A wording is a sequence of pieces. -/
abbrev Wording := List Wording.Part

namespace Wording

/-- Whether `c` is the small letter `letter` in either case. The long s and the kelvin sign are
capital forms of `s` and `k`. -/
def sameLetter (letter c : Char) : Bool :=
  c.toLower == letter || (letter == 's' && c == '\u017F') || (letter == 'k' && c == '\u212A')

/-- What remains of a text that begins with the given letters. -/
def afterLetters? : List Char → List Char → Option (List Char)
  | [], rest => some rest
  | _ :: _, [] => none
  | letter :: more, c :: rest => if sameLetter letter c then afterLetters? more rest else none

/-- The ends of a text whose skipped beginning has only members that `skip` allows. -/
def endsAfter (skip : Char → Bool) : List Char → List (List Char)
  | [] => [[]]
  | c :: rest => (c :: rest) :: if skip c then endsAfter skip rest else []

/-- What may remain of a text that begins with a piece. -/
def Part.after : Part → List Char → List (List Char)
  | .text letters, cs => (afterLetters? letters.toList cs).toList
  | .oneOf choices, cs => choices.filterMap fun choice => afterLetters? choice.toList cs
  | .anything, cs => endsAfter (· ≠ '\n') cs
  | .blanks, cs => endsAfter Text.isBlank cs

/-- Whether a text begins with a wording. -/
def opens : Wording → List Char → Bool
  | [], _ => true
  | part :: more, cs => (part.after cs).any (opens more)

/-- Whether a wording stands anywhere in a text. -/
def occursIn (w : Wording) : List Char → Bool
  | [] => w.opens []
  | c :: rest => w.opens (c :: rest) || w.occursIn rest

end Wording

structure RecoveryRule where
  name : String
  /-- How the tool says that it could not read its configuration; small letters only. -/
  wordings : List Wording
  /-- The arguments that make the tool ignore the configuration. -/
  overrideArgs : List String
  versioned : List ByVersion := []
deriving DecidableEq, Repr

namespace RecoveryRule

/-- Whether an output says that configuration could not be read. -/
def recognises (rule : RecoveryRule) (output : String) : Bool :=
  rule.wordings.any fun w => w.occursIn output.toList

/-- The override arguments for an installed major version. -/
def argsFor (rule : RecoveryRule) (major : Option Nat) : List String :=
  ByVersion.choose rule.overrideArgs rule.versioned major

def golangciLint : RecoveryRule where
  name := "golangci-lint"
  wordings := [
    [.text "can't load config"],
    [.text "failed to load config"],
    [.text "unsupported version of the configuration"]]
  overrideArgs := ["--no-config"]

def ruff : RecoveryRule where
  name := "ruff"
  wordings := [
    [.text "failed to parse ", .anything, .text ".toml"],
    [.text "ruff failed", .blanks, .text "\n", .blanks, .text "cause: ", .anything,
      .oneOf ["config", "settings", "toml"]],
    [.text "unknown field ", .anything, .text " expected one of"]]
  overrideArgs := ["--isolated"]

def eslint : RecoveryRule where
  name := "eslint"
  wordings := [
    [.text "no eslint configuration found"],
    [.text "eslint couldn't find ", .oneOf ["a", "an eslint.config.(js|mjs|cjs)"], .text " ",
      .oneOf ["configuration ", ""], .text "file"],
    [.text "error: cannot read config file"],
    [.text "failed to load config"]]
  overrideArgs := ["--no-eslintrc"]
  versioned := [⟨9, ["--no-config-lookup"]⟩]

def all : List RecoveryRule :=
  [golangciLint, ruff, eslint]

def ofName? (name : String) : Option RecoveryRule :=
  all.find? (·.name == name)

end RecoveryRule

end LintGate

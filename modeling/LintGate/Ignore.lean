import LintGate.Glob.Reader
import LintGate.Path
import LintGate.Text.Pieces
import LintGate.Text.Blank

/-!
# Ignore rules

A rule excludes the paths that its glob matches, or takes an exclusion back. `IgnoreRules.verdict`
is the last rule that speaks about a path; `IgnoreRules.excludes` asks about the file first and
then about one directory above it after another, and the nearest that has a verdict decides.
-/

namespace LintGate

structure IgnoreRule where
  glob : Glob
  /-- The rule takes exclusions back. -/
  negated : Bool := false
  directoriesOnly : Bool := false
deriving Repr

namespace IgnoreRule

/-- A line without the marks at its ends. -/
structure Marks where
  negated : Bool
  /-- The line begins at the root of the tree. -/
  anchored : Bool
  directoriesOnly : Bool
  body : List Char
deriving Repr

/-- Takes off the slash that limits a rule to directories, and a backslash before it. -/
def takeTrailingSlash (negated anchored : Bool) (cs : List Char) : Marks :=
  match cs.reverse with
  | '/' :: '\\' :: rest => ⟨negated, anchored, true, rest.reverse⟩
  | '/' :: rest => ⟨negated, anchored, true, rest.reverse⟩
  | _ => ⟨negated, anchored, false, cs⟩

def takeLeadingSlash (negated : Bool) (cs : List Char) : Marks :=
  match cs with
  | '/' :: rest => takeTrailingSlash negated true rest
  | _ => takeTrailingSlash negated false cs

def takeMarks (line : List Char) : Marks :=
  match line with
  | '\\' :: '!' :: rest => takeTrailingSlash false false ('!' :: rest)
  | '\\' :: '#' :: rest => takeTrailingSlash false false ('#' :: rest)
  | '!' :: rest => takeLeadingSlash true rest
  | _ => takeLeadingSlash false line

/-- The glob of a rule in full: a rule without a slash applies in every directory, and one that
ends in `/**` only to what is below. -/
def fullGlob (m : Marks) : List Char :=
  let anywhere := !m.anchored && !m.body.contains '/' && m.body ≠ ['*', '*']
  let body := if anywhere then '*' :: '*' :: '/' :: m.body else m.body
  if ['*', '*', '/'].isPrefixOf body.reverse then body ++ ['/', '*'] else body

/-- Reads a line. Comments, blank lines and lines with a malformed glob hold no rule. -/
def ofLine? (line : String) : Option IgnoreRule :=
  let cs := line.toList
  if cs.head? = some '#' then none
  else
    let cs := if [' ', '\\'].isPrefixOf cs.reverse then cs else Text.trimEndChars cs
    if cs.isEmpty then none
    else
      let marks := takeMarks cs
      (Glob.parse? (fullGlob marks)).map fun glob =>
        ⟨glob, marks.negated, marks.directoriesOnly⟩

def appliesTo (r : IgnoreRule) (isDirectory : Bool) (path : Text.Bytes) : Bool :=
  (isDirectory || !r.directoriesOnly) && r.glob.accepts path

end IgnoreRule

abbrev IgnoreRules := List IgnoreRule

namespace IgnoreRules

def ofLines (lines : List String) : IgnoreRules :=
  lines.filterMap IgnoreRule.ofLine?

/-- The rules of a text, one a line. -/
def ofText (text : String) : IgnoreRules :=
  ofLines (Text.lines text)

/-- Whether a path itself is excluded, or taken back, by the last rule that applies to it. -/
def verdict (rules : IgnoreRules) (isDirectory : Bool) (path : Text.Bytes) : Option Bool :=
  (rules.reverse.find? fun r => r.appliesTo isDirectory path).map fun r => !r.negated

/-- The bytes of the path with these names. -/
def pathBytes (names : List String) : Text.Bytes :=
  Text.rawBytesOf (Text.joined ['/'] (names.map String.toList))

/-- The verdict on the nearest of some directories, the first of which is the nearest. -/
def nearestVerdict (rules : IgnoreRules) : List (List String) → Option Bool
  | [] => none
  | names :: above =>
    match rules.verdict true (pathBytes names) with
    | some v => some v
    | none => nearestVerdict rules above

/-- The lists of names of the directories above a path, the nearest first. The last is the root. -/
def parents (names : List String) : List (List String) :=
  (List.range names.length).reverse.map fun n => names.take n

/-- Whether the file with these names below the root is excluded. -/
def excludesNames (rules : IgnoreRules) (names : List String) : Bool :=
  if names.isEmpty then false
  else match rules.verdict false (pathBytes names) with
    | some v => v
    | none => (rules.nearestVerdict (parents names)).getD false

/-- Whether a file is excluded. Only the names in its path count. -/
def excludes (rules : IgnoreRules) (path : Path) : Bool :=
  rules.excludesNames path.names

@[simp] theorem excludes_nil (path : Path) : excludes [] path = false := by
  have none_found (ds : List (List String)) : nearestVerdict [] ds = none := by
    induction ds with
    | nil => rfl
    | cons _ _ ih => simp [nearestVerdict, verdict, ih]
  simp [excludes, excludesNames, verdict, none_found]

example : (ofLines ["b/"]).excludesNames ["a", "b", "x"] = true := by decide

example : (ofLines ["b/"]).excludesNames ["a", "b"] = false := by decide

example : (ofLines ["*x", "!ax"]).excludesNames ["a", "ax"] = false := by decide

end IgnoreRules

end LintGate

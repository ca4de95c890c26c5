import LintGate.FileTree

/-!
# Patterns of the shell

A pattern is matched against whole texts. Quoted characters stand for themselves.
-/

namespace LintGate.Shell

/-- A character of an expanded word, and whether it stood in quotes. -/
structure Glyph where
  char : Char
  quoted : Bool
deriving DecidableEq, Repr

inductive PatternPiece where
  | char (c : Char)
  | one
  | many
  | set (negated : Bool) (ranges : List (Char × Char))
deriving Repr

abbrev Pattern := List PatternPiece

/-- The members of a set up to its bracket. -/
def readSetMembers : Nat → List (Char × Char) → List Glyph →
    Option (List (Char × Char) × List Glyph)
  | 0, _, _ => none
  | _, _, [] => none
  | fuel + 1, done, g :: rest =>
    if g.char = ']' && !g.quoted && !done.isEmpty then some (done, rest)
    else match rest with
      | ⟨'-', false⟩ :: h :: more =>
        if h.char = ']' && !h.quoted then readSetMembers fuel ((g.char, g.char) :: done) rest
        else readSetMembers fuel ((g.char, h.char) :: done) more
      | _ => readSetMembers fuel ((g.char, g.char) :: done) rest

/-- A set behind its opening bracket. -/
def readPatternSet (rest : List Glyph) : Option (PatternPiece × List Glyph) :=
  let (negated, members) := match rest with
    | ⟨'!', false⟩ :: more => (true, more)
    | ⟨'^', false⟩ :: more => (true, more)
    | _ => (false, rest)
  (readSetMembers (members.length + 1) [] members).map fun (ranges, rest) =>
    (.set negated ranges, rest)

def patternOf : Nat → List Glyph → Pattern
  | 0, _ => []
  | _, [] => []
  | fuel + 1, g :: rest =>
    if g.quoted then .char g.char :: patternOf fuel rest
    else match g.char with
      | '*' => .many :: patternOf fuel rest
      | '?' => .one :: patternOf fuel rest
      | '[' =>
        match readPatternSet rest with
        | some (piece, rest) => piece :: patternOf fuel rest
        | none => .char '[' :: patternOf fuel rest
      | c => .char c :: patternOf fuel rest

def Pattern.ofGlyphs (gs : List Glyph) : Pattern :=
  patternOf (gs.length + 1) gs

namespace Pattern

/-- The ends of a list, the whole list first. -/
def tails : List Char → List (List Char)
  | [] => [[]]
  | c :: rest => (c :: rest) :: tails rest

def accepts : Pattern → List Char → Bool
  | [], cs => cs.isEmpty
  | .many :: more, cs => (tails cs).any fun rest => accepts more rest
  | _ :: _, [] => false
  | .char a :: more, c :: rest => a = c && accepts more rest
  | .one :: more, _ :: rest => accepts more rest
  | .set negated ranges :: more, c :: rest =>
    (ranges.any fun r => r.1 ≤ c && c ≤ r.2) != negated && accepts more rest

/-- A text without the shortest or longest beginning that a pattern accepts. -/
def dropStart (p : Pattern) (longest : Bool) (cs : List Char) : List Char :=
  let cuts := List.range (cs.length + 1)
  let cuts := if longest then cuts.reverse else cuts
  match cuts.find? fun n => accepts p (cs.take n) with
  | some n => cs.drop n
  | none => cs

/-- A text without the shortest or longest end that a pattern accepts. -/
def dropEnd (p : Pattern) (longest : Bool) (cs : List Char) : List Char :=
  let cuts := List.range (cs.length + 1)
  let cuts := if longest then cuts else cuts.reverse
  match cuts.find? fun n => accepts p (cs.drop n) with
  | some n => cs.take n
  | none => cs

end Pattern

/-- Whether a text asks for the names of files. -/
def hasWildcard (gs : List Glyph) : Bool :=
  gs.any fun g => !g.quoted && (g.char = '*' || g.char = '?' || g.char = '[')

def glyphText (gs : List Glyph) : String :=
  String.ofList (gs.map (·.char))

/-- Goes on with one more name of a path whose names are patterns. -/
def matchingNames (t : FileTree) (before : Path) (name : List Glyph) : List Path :=
  if hasWildcard name then
    match t.stat (if before.isEmpty then "." else before) with
    | .ok (.dir entries true) =>
      let pattern := Pattern.ofGlyphs name
      let hidden := (name.head?.map (·.char)) = some '.'
      let names := (entries.map (·.1)).filter fun n =>
        pattern.accepts n.toList && (hidden || !n.startsWith ".")
      names.map (before ++ ·)
    | _ => []
  else [before ++ glyphText name]

/-- Cuts at slashes. -/
def glyphPieces (gs : List Glyph) : List (List Glyph) :=
  gs.foldr (fun g acc => match acc with
    | piece :: more => if g.char = '/' then [] :: piece :: more else (g :: piece) :: more
    | [] => [[g]]) [[]]

/-- The paths that a word with wildcards stands for: the word itself if there are none. -/
def expandPaths (t : FileTree) (word : List Glyph) : List String :=
  if hasWildcard word then
    match glyphPieces word with
    | [] => [glyphText word]
    | first :: more =>
      let found := more.foldl (fun paths name =>
        paths.flatMap fun p => matchingNames t (p ++ "/") name) (matchingNames t "" first)
      let present := found.filter t.exists?
      if present.isEmpty then [glyphText word] else present
  else [glyphText word]

end LintGate.Shell

/-!
# Basic regular expressions

The patterns with which lines are searched: characters, dots, sets of characters, stars and
anchors. Everything else stands for itself.
-/

namespace LintGate.Utility

inductive RegexAtom where
  | char (c : Char)
  | any
  | set (negated : Bool) (ranges : List (Char × Char))
deriving Repr

structure RegexPiece where
  atom : RegexAtom
  starred : Bool
deriving Repr

structure BasicRegex where
  atStart : Bool
  atEnd : Bool
  pieces : List RegexPiece
deriving Repr

namespace BasicRegex

def RegexAtom.accepts (fold : Char → Char) : RegexAtom → Char → Bool
  | .char a, c => fold a = fold c
  | .any, _ => true
  | .set negated ranges, c => (ranges.any fun r => r.1 ≤ c && c ≤ r.2) != negated

/-- The members of a set up to its bracket. -/
def readSet : Nat → List (Char × Char) → List Char → Option (List (Char × Char) × List Char)
  | 0, _, _ => none
  | _, _, [] => none
  | fuel + 1, done, c :: rest =>
    if c = ']' && !done.isEmpty then some (done, rest)
    else match rest with
      | '-' :: d :: more =>
        if d = ']' then readSet fuel ((c, c) :: done) rest
        else readSet fuel ((c, d) :: done) more
      | _ => readSet fuel ((c, c) :: done) rest

def readAtom (cs : List Char) : Option (RegexAtom × List Char) :=
  match cs with
  | [] => none
  | '.' :: rest => some (.any, rest)
  | '\\' :: c :: rest => some (.char c, rest)
  | '[' :: '^' :: rest =>
    match readSet (rest.length + 1) [] rest with
    | some (ranges, rest) => some (.set true ranges, rest)
    | none => some (.char '[', '^' :: rest)
  | '[' :: rest =>
    match readSet (rest.length + 1) [] rest with
    | some (ranges, rest) => some (.set false ranges, rest)
    | none => some (.char '[', rest)
  | c :: rest => some (.char c, rest)

def readPieces : Nat → List Char → List RegexPiece
  | 0, _ => []
  | fuel + 1, cs =>
    match readAtom cs with
    | none => []
    | some (atom, '*' :: rest) => ⟨atom, true⟩ :: readPieces fuel rest
    | some (atom, rest) => ⟨atom, false⟩ :: readPieces fuel rest

def ofText (s : String) : BasicRegex :=
  let (atStart, cs) := match s.toList with
    | '^' :: rest => (true, rest)
    | cs => (false, cs)
  let (atEnd, cs) := if cs.getLast? = some '$' then (true, cs.dropLast) else (false, cs)
  ⟨atStart, atEnd, readPieces (cs.length + 1) cs⟩

/-- The rests of a text after each number of accepted characters. -/
def restsAfter (accepts : Char → Bool) : List Char → List (List Char)
  | [] => [[]]
  | c :: rest => (c :: rest) :: if accepts c then restsAfter accepts rest else []

/-- Whether a text begins with what some pieces accept. -/
def accepts (fold : Char → Char) (atEnd : Bool) : List RegexPiece → List Char → Bool
  | [], cs => !atEnd || cs.isEmpty
  | ⟨atom, true⟩ :: more, cs =>
    (restsAfter (RegexAtom.accepts fold atom) cs).any fun rest => accepts fold atEnd more rest
  | ⟨_, false⟩ :: _, [] => false
  | ⟨atom, false⟩ :: more, c :: rest =>
    RegexAtom.accepts fold atom c && accepts fold atEnd more rest

/-- Whether a line holds a match. -/
def occursIn (r : BasicRegex) (fold : Char → Char) : List Char → Bool
  | [] => accepts fold r.atEnd r.pieces []
  | c :: rest =>
    accepts fold r.atEnd r.pieces (c :: rest) || (!r.atStart && occursIn r fold rest)

end BasicRegex

end LintGate.Utility

import LintGate.Glob

/-!
# Reading globs

`Glob.parse?` reads a glob from text. Braces that do not pair up, a backslash at the end and a
class with an inverted range make no glob. A bracket that no other closes stands for itself, and
so do all brackets after it.
-/

namespace LintGate.Glob

/-- A group of branches that has not been closed. -/
structure Group where
  /-- The tokens in front of the group, the last one first. -/
  before : List Token
  /-- The branches that are complete, the last one first. -/
  branches : List (List Token)
deriving Repr

structure Reader where
  /-- The tokens of the current branch, the last one first. -/
  tokens : List Token := []
  /-- The open groups, the innermost first. -/
  groups : List Group := []
  /-- Brackets stand for themselves. -/
  plainBrackets : Bool := false
deriving Repr

namespace Reader

def push (r : Reader) (t : Token) : Reader :=
  { r with tokens := t :: r.tokens }

def openGroup (r : Reader) : Reader :=
  { r with tokens := [], groups := ⟨r.tokens, []⟩ :: r.groups }

def closeGroup? (r : Reader) : Option Reader :=
  match r.groups with
  | [] => none
  | g :: outer =>
    let branches := (r.tokens.reverse :: g.branches).reverse
    some { r with tokens := .oneOf branches :: g.before, groups := outer }

/-- Ends a branch of a group. Outside of groups a comma stands for itself. -/
def comma (r : Reader) : Reader :=
  match r.groups with
  | [] => r.push (.char ',')
  | g :: outer =>
    { r with
      tokens := []
      groups := { g with branches := r.tokens.reverse :: g.branches } :: outer }

/-- Puts a `**` that stands between slashes in place of the slash before it. -/
def pushDirs (r : Reader) (toEnd : Bool) : Reader :=
  match r.tokens with
  | .leadingDirs :: _ => r
  | .allBelow :: _ => r
  | _ :: rest => { r with tokens := (if toEnd then .allBelow else .innerDirs) :: rest }
  | [] => r

/-- Reads what follows the first star of a run; `before` is the character in front of it. The
result is the character that was read last and the rest. -/
def star (r : Reader) (before : Option Char) (cs : List Char) :
    Reader × Option Char × List Char :=
  match cs with
  | '*' :: rest =>
    let plain := ((r.push .run).push .run, some '*', rest)
    if r.tokens.isEmpty then
      match rest with
      | [] => (r.push .leadingDirs, some '*', [])
      | '/' :: rest => (r.push .leadingDirs, some '/', rest)
      | _ => plain
    else if before = some '/' ||
        (!r.groups.isEmpty && (before = some ',' || before = some '{')) then
      match rest with
      | [] => (r.pushDirs true, some '*', [])
      | '/' :: rest => (r.pushDirs false, some '/', rest)
      | c :: _ =>
        if !r.groups.isEmpty && (c = ',' || c = '}') then (r.pushDirs true, some '*', rest)
        else plain
    else plain
  | _ => (r.push .run, some '*', cs)

end Reader

/-- How reading a class ended. -/
inductive ClassEnd where
  | closed (ranges : List (Char × Char)) (rest : List Char)
  | unclosed
  | inverted

/-- Reads the members of a class. `ranges` holds those read so far, the last one first; `inRange`
says that a dash was read after the last of them. -/
def readClass (first inRange : Bool) (ranges : List (Char × Char)) : List Char → ClassEnd
  | [] => .unclosed
  | c :: rest =>
    if c = ']' && !first then
      .closed (if inRange then ('-', '-') :: ranges else ranges).reverse rest
    else if c = ']' then readClass false inRange ((c, c) :: ranges) rest
    else if c = '-' && !first && !inRange then readClass false true ranges rest
    else match inRange, ranges with
      | true, (low, _) :: before =>
        if c < low then .inverted else readClass false false ((low, c) :: before) rest
      | _, _ => readClass false false ((c, c) :: ranges) rest

/-- Reads a glob; `before` is the character that was read last. -/
def read : Nat → Reader → Option Char → List Char → Option Glob
  | _, r, _, [] => if r.groups.isEmpty then some r.tokens.reverse else none
  | 0, _, _, _ => none
  | fuel + 1, r, before, c :: rest =>
    match c with
    | '?' => read fuel (r.push .anyByte) (some c) rest
    | '*' =>
      let (r, last, rest) := r.star before rest
      read fuel r last rest
    | '[' =>
      if r.plainBrackets then read fuel (r.push (.char c)) (some c) rest
      else
        let (negated, body) := match rest with
          | '!' :: body => (true, body)
          | '^' :: body => (true, body)
          | _ => (false, rest)
        match readClass true false [] body with
        | .closed ranges rest => read fuel (r.push (.oneByte negated ranges)) (some ']') rest
        | .unclosed => read fuel { r.push (.char c) with plainBrackets := true } (some c) rest
        | .inverted => none
    | '{' => read fuel r.openGroup (some c) rest
    | '}' => r.closeGroup?.bind fun r => read fuel r (some c) rest
    | ',' => read fuel r.comma (some c) rest
    | '\\' =>
      match rest with
      | [] => none
      | escaped :: rest => read fuel (r.push (.char escaped)) (some escaped) rest
    | _ => read fuel (r.push (.char c)) (some c) rest

def parse? (text : List Char) : Option Glob :=
  read text.length {} none text

end LintGate.Glob

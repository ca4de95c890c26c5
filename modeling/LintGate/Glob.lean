import LintGate.Text.Utf8

/-!
# Globs

A glob is a pattern for whole paths. A path is matched byte by byte, and only `**` and classes
reach across slashes. Matching keeps the set of all ends of the path that may be left after the
tokens so far, so its cost does not grow with the number of ways to match.
-/

namespace LintGate

open Text (Bytes)

inductive Glob.Token where
  | char (c : Char)
  /-- One byte other than a slash. -/
  | anyByte
  /-- Any number of bytes other than a slash. -/
  | run
  /-- Any directories at the beginning of a path, or none. -/
  | leadingDirs
  /-- A slash and everything behind it. -/
  | allBelow
  /-- A slash, or two with directories between them. -/
  | innerDirs
  /-- One byte of a class, or one outside of it. -/
  | oneByte (negated : Bool) (ranges : List (Char × Char))
  /-- One of some branches. -/
  | oneOf (branches : List (List Glob.Token))
deriving Repr

abbrev Glob := List Glob.Token

namespace Glob

def slash : UInt8 := 0x2F

/-- The bytes of a class. A member of several bytes stands for each of them; a range reaches from
the last byte of its first end to the first byte of its second. -/
def rangeBytes (low high : Char) : List (UInt8 × UInt8) :=
  let single := (String.utf8EncodeChar low).map fun b => (b, b)
  if low = high then single
  else match (String.utf8EncodeChar low).getLast?, String.utf8EncodeChar high with
    | some last, first :: more =>
      single.dropLast ++ (last, first) :: more.map fun b => (b, b)
    | _, _ => []

def inRanges (ranges : List (Char × Char)) (b : UInt8) : Bool :=
  ranges.any fun r => (rangeBytes r.1 r.2).any fun range => range.1 ≤ b && b ≤ range.2

/-- A list and its ends up to the first byte that `skip` refuses. -/
def endsAfter (skip : UInt8 → Bool) : Bytes → List Bytes
  | [] => [[]]
  | b :: rest => (b :: rest) :: if skip b then endsAfter skip rest else []

/-- What follows each slash of a list. -/
def afterSlashes : Bytes → List Bytes
  | [] => []
  | b :: rest => if b = slash then rest :: afterSlashes rest else afterSlashes rest

/-- Of several ends of one path that are equally long, the first. -/
def distinct (ends : List Bytes) : List Bytes :=
  (ends.foldl
    (fun (acc : List Nat × List Bytes) e =>
      if acc.1.contains e.length then acc else (e.length :: acc.1, e :: acc.2))
    ([], [])).2.reverse

mutual

/-- What may be left of a path that begins with a token. -/
def Token.after : Token → Bytes → List Bytes
  | .char c, path =>
    let bytes := String.utf8EncodeChar c
    if bytes.isPrefixOf path then [path.drop bytes.length] else []
  | .anyByte, b :: rest => if b = slash then [] else [rest]
  | .anyByte, [] => []
  | .run, path => endsAfter (· ≠ slash) path
  | .leadingDirs, path => path :: afterSlashes path
  | .allBelow, b :: rest => if b = slash then endsAfter (fun _ => true) rest else []
  | .allBelow, [] => []
  | .innerDirs, b :: rest => if b = slash then rest :: afterSlashes rest else []
  | .innerDirs, [] => []
  | .oneByte negated ranges, b :: rest => if inRanges ranges b ≠ negated then [rest] else []
  | .oneByte _ _, [] => []
  | .oneOf branches, path =>
    if allEmpty branches then [path] else afterAny branches path

/-- What may be left after one of the branches that are not empty. -/
def afterAny : List (List Token) → Bytes → List Bytes
  | [], _ => []
  | branch :: more, path =>
    (if allBare branch then [] else afterAll branch [path]) ++ afterAny more path

/-- What may be left of some paths that begin with tokens. -/
def afterAll : List Token → List Bytes → List Bytes
  | [], ends => ends
  | t :: rest, ends => afterAll rest (distinct (ends.flatMap fun e => t.after e))

/-- Branches of which none says anything. -/
def allEmpty : List (List Token) → Bool
  | [] => true
  | branch :: more => allBare branch && allEmpty more

/-- Tokens that say nothing: alternations whose branches are all empty. -/
def allBare : List Token → Bool
  | [] => true
  | .oneOf branches :: rest => allEmpty branches && allBare rest
  | _ :: _ => false

end

/-- Whether a glob matches a whole path. A glob that is only `**` matches everything. -/
def accepts (g : Glob) (path : Bytes) : Bool :=
  match g with
  | [.leadingDirs] => true
  | tokens => (afterAll tokens [path]).any List.isEmpty

end Glob

end LintGate

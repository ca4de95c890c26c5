import LintGate.Process.Utility.BasicRegex
import LintGate.Process.Utility.Format
import LintGate.Process.Utility.Task
import LintGate.Text.Ascii

/-!
# Utilities that read text

They read their operands, or their input if there are none, and print a part or a rearrangement of
what they read.
-/

namespace LintGate.Utility

open Text (Bytes)

/-- The number behind an option, and the arguments without the option. -/
def numberOption (letter : String) : List String → Option String × List String
  | [] => (none, [])
  | arg :: rest =>
    let flag := "-" ++ letter
    if arg = flag then (rest.head?, rest.drop 1)
    else if arg.startsWith flag && !arg.startsWith "--" then
      (some (arg.toList.drop 2 |> String.ofList), rest)
    else
      let (found, others) := numberOption letter rest
      (found, arg :: others)

/-- An old option that is a number itself. -/
def bareNumber : List String → Option String × List String
  | arg :: rest =>
    match arg.toList with
    | '-' :: ds => if !ds.isEmpty && ds.all Char.isDigit then (some (String.ofList ds), rest)
        else (none, arg :: rest)
    | _ => (none, arg :: rest)
  | [] => (none, [])

/-- How much of a text `head` and `tail` print. -/
inductive Extent where
  | lines (text : String)
  | bytes (text : String)

def extentOf (args : List String) : Extent × List String :=
  match numberOption "c" args with
  | (some n, others) => (.bytes n, others)
  | (none, _) =>
    match numberOption "n" args with
    | (some n, others) => (.lines n, others)
    | (none, _) =>
      match bareNumber args with
      | (some n, others) => (.lines n, others)
      | (none, others) => (.lines "10", others)

def countOf (s : String) : Nat :=
  Nat.ofDigitChars 10 (s.toList.filter Char.isDigit) 0

def firstPart (extent : Extent) (bs : Bytes) : Bytes :=
  match extent with
  | .bytes n => bs.take (countOf n)
  | .lines n =>
    let kept := (linesOf bs).take (countOf n)
    if (linesOf bs).length ≤ countOf n then bs else unlines kept

/-- The last part of a text, or the part from a position on if the count has a plus sign. -/
def lastPart (extent : Extent) (bs : Bytes) : Bytes :=
  match extent with
  | .bytes n =>
    if n.startsWith "+" then bs.drop (countOf n - 1) else bs.drop (bs.length - countOf n)
  | .lines n =>
    let all := linesOf bs
    let dropped := if n.startsWith "+" then countOf n - 1 else all.length - countOf n
    bs.drop ((all.take dropped).foldl (fun size line => size + (line.length + 1)) 0)

/-- Prints a part of each operand. -/
def printParts (k : Task) (part : Extent → Bytes → Bytes) : Effect :=
  let (extent, operands) := extentOf k.args
  let limit := match extent with
    | .bytes n => countOf n
    | .lines _ => 0
  let (found, errors) := k.readAll limit operands
  { tree := k.tree, output := found.flatMap fun f => part extent f.2
    errors, status := if errors.isEmpty then 0 else 1 }

def cat (k : Task) : Effect :=
  let (found, errors) := k.readAll 0 k.operands
  { tree := k.tree, output := found.flatMap (·.2), errors
    status := if errors.isEmpty then 0 else 1 }

/-! ## Characters -/

/-- The bytes between two bounds. -/
def byteRange (a b : UInt8) : Bytes :=
  (List.range (b.toNat + 1 - a.toNat)).map fun i => UInt8.ofNat (a.toNat + i)

/-- The bytes that a set of `tr` names. -/
def byteSet : Nat → List Char → Bytes
  | 0, _ => []
  | _, [] => []
  | fuel + 1, cs =>
    if "[:upper:]".toList.isPrefixOf cs then byteRange 65 90 ++ byteSet fuel (cs.drop 9)
    else if "[:lower:]".toList.isPrefixOf cs then byteRange 97 122 ++ byteSet fuel (cs.drop 9)
    else if "[:digit:]".toList.isPrefixOf cs then byteRange 48 57 ++ byteSet fuel (cs.drop 9)
    else if "[:alpha:]".toList.isPrefixOf cs then
      byteRange 65 90 ++ byteRange 97 122 ++ byteSet fuel (cs.drop 9)
    else if "[:space:]".toList.isPrefixOf cs then
      [9, 10, 11, 12, 13, 32] ++ byteSet fuel (cs.drop 9)
    else
      let (first, rest) := match cs with
        | '\\' :: rest => readEscape false rest
        | cs => Text.firstRaw cs
      match first, rest with
      | [a], '-' :: c :: more => byteRange a (UInt8.ofNat c.toNat) ++ byteSet fuel more
      | _, _ => first ++ byteSet fuel rest

/-- The byte at the place of another one in a second set, whose last member stands for all that
are missing. -/
def translate (sources targets : Bytes) (b : UInt8) : UInt8 :=
  match sources.idxOf? b with
  | none => b
  | some i => (targets[i]? <|> targets.getLast?).getD b

/-- Drops repetitions of members of a set. -/
def squeeze (set : Bytes) : Bytes → Bytes
  | [] => []
  | [b] => [b]
  | a :: b :: rest => if a = b && set.contains a then squeeze set (b :: rest)
      else a :: squeeze set (b :: rest)

def tr (k : Task) : Effect :=
  let sets := k.operands.map fun s => byteSet (s.length + 1) s.toList
  let first := sets.headD []
  let first :=
    if k.has 'c' || k.has 'C' then (byteRange 0 255).filter (!first.contains ·) else first
  let second := (sets.drop 1).headD []
  let replaced :=
    if k.has 'd' then k.input.filter (!first.contains ·)
    else if second.isEmpty then k.input else k.input.map (translate first second)
  k.answer (if k.has 's' then squeeze (if second.isEmpty then first else second) replaced
    else replaced) 0

/-! ## Lines -/

/-- The number at the beginning of a line. -/
def lineNumber (line : Bytes) : Int :=
  numberOf (Text.decodeLossy line).trimAsciiStart.toString

def sort (k : Task) : Effect :=
  let (found, errors) := k.readAll 0 k.operands
  let lines := found.flatMap fun f => linesOf f.2
  let before := fun (a b : Bytes) =>
    if k.has 'n' && lineNumber a ≠ lineNumber b then lineNumber a < lineNumber b
    else bytesBefore a b
  let sorted := lines.mergeSort fun a b => if k.has 'r' then !before a b else !before b a
  { tree := k.tree, output := unlines (if k.has 'u' then sorted.eraseDups else sorted)
    errors, status := if errors.isEmpty then 0 else 2 }

/-- Groups of equal neighbours with their sizes. -/
def runs : List Bytes → List (Bytes × Nat)
  | [] => []
  | line :: rest =>
    match runs rest with
    | [] => [(line, 1)]
    | (next, n) :: more => if line = next then (line, n + 1) :: more
        else (line, 1) :: (next, n) :: more

def uniq (k : Task) : Effect :=
  let (found, errors) := k.readAll 0 k.operands
  let groups := runs (found.flatMap fun f => linesOf f.2)
  let groups := if k.has 'd' then groups.filter (1 < ·.2) else groups
  let shown := groups.map fun g =>
    if k.has 'c' then ({ width := 7 } : Conversion).number 10 false g.2 ++ [32] ++ g.1 else g.1
  { tree := k.tree, output := unlines shown, errors, status := if errors.isEmpty then 0 else 1 }

def grep (k : Task) : Effect :=
  let pattern := k.operands.headD ""
  let files := k.operands.drop 1
  let (found, errors) := k.readAll 0 files
  let fold : Char → Char := if k.has 'i' then Char.toLower else id
  let matchesLine := fun (line : Bytes) =>
    let cs := (Text.ofRawBytes line).toList
    let hit :=
      if k.has 'F' then Text.occursIn (pattern.toList.map fold) (cs.map fold)
      else (BasicRegex.ofText pattern).occursIn fold cs
    hit != k.has 'v'
  let label := fun (name : String) =>
    if 1 < files.length then Text.rawBytes (name ++ ":") else []
  let hits := found.map fun f => (f.1, (linesOf f.2).filter matchesLine)
  let anyHit := hits.any fun h => !h.2.isEmpty
  let output :=
    if k.has 'q' then []
    else if k.has 'l' then
      unlines ((hits.filter fun h => !h.2.isEmpty).map fun h => Text.rawBytes h.1)
    else if k.has 'c' then
      unlines (hits.map fun h => label h.1 ++ Text.encode (toString h.2.length))
    else unlines (hits.flatMap fun h => h.2.map fun line => label h.1 ++ line)
  { tree := k.tree, output, errors
    status := if !errors.isEmpty then 2 else if anyHit then 0 else 1 }

/-- Whether a byte separates words. -/
def isSpaceByte (b : UInt8) : Bool :=
  b = 32 || (9 ≤ b && b ≤ 13)

def wordCount (bs : Bytes) : Nat :=
  ((bs.zip (32 :: bs)).filter fun p => !isSpaceByte p.1 && isSpaceByte p.2).length

def wc (k : Task) : Effect :=
  let (found, errors) := k.readAll 0 k.operands
  let all := !(k.has 'l' || k.has 'w' || k.has 'c')
  let counts := fun (bs : Bytes) =>
    (if all || k.has 'l' then [bs.count 10] else [])
      ++ (if all || k.has 'w' then [wordCount bs] else [])
      ++ (if all || k.has 'c' then [bs.length] else [])
  let width := fun (bs : Bytes) =>
    if (counts bs).length = 1 then 1
    else if k.operands.isEmpty then 7 else (toString bs.length).length
  let line := fun (f : String × Bytes) =>
    let shown := (counts f.2).map fun (n : Nat) =>
      ({ width := width f.2 } : Conversion).number 10 false (n : Int)
    Text.joined [32] (shown ++ if k.operands.isEmpty then [] else [Text.rawBytes f.1])
  { tree := k.tree, output := unlines (found.map line), errors
    status := if errors.isEmpty then 0 else 1 }

/-- The positions that a list of fields names: single ones, and from one to another. -/
def inFields (fields : String) (n : Nat) : Bool :=
  (fields.splitOn ",").any fun part =>
    match part.splitOn "-" with
    | [only] => countOf only = n
    | [a, b] => countOf a ≤ n && (b.isEmpty || n ≤ countOf b)
    | _ => false

def cut (k : Task) : Effect :=
  let (delimiter, args) := numberOption "d" k.args
  let (fields, args) := numberOption "f" args
  let (chars, args) := numberOption "c" args
  let (found, errors) := k.readAll 0 args
  let keep := fun (wanted : String) (n : Nat) => inFields wanted (n + 1)
  let shorten := fun (line : Bytes) =>
    match fields, chars with
    | some wanted, _ =>
      let separator := ((delimiter.map Text.rawBytes).bind List.head?).getD 9
      if line.contains separator then
        let pieces := (Text.pieces separator line).zipIdx.filter fun p => keep wanted p.2
        Text.joined [separator] (pieces.map (·.1))
      else line
    | none, some wanted => (line.zipIdx.filter fun p => keep wanted p.2).map (·.1)
    | none, none => line
  { tree := k.tree, output := unlines ((found.flatMap fun f => linesOf f.2).map shorten)
    errors, status := if errors.isEmpty then 0 else 1 }

/-- Whole numbers from a first to a last one. -/
def seq (k : Task) : Effect :=
  let (first, last) := match k.args with
    | [last] => (1, numberOf last)
    | [first, last] => (numberOf first, numberOf last)
    | _ => (1, 0)
  let count := (last - first + 1).toNat
  k.answer (unlines ((List.range count).map fun (i : Nat) =>
    ({} : Conversion).number 10 false (first + (i : Int)))) 0

end LintGate.Utility

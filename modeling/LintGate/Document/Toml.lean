import LintGate.Document.Toml.Scalar
import LintGate.Text.Pieces

/-!
# Documents from TOML

A table can be opened by a header, implied by a header below it, or made by the dots of a key, and
this decides what may be added to it later: no header opens a table twice, and keys reach only into
tables that keys made or headers implied. The fields of a record are in the order of their names.
-/

namespace LintGate.Toml

/-- How a table came about. -/
inductive Origin where
  | header
  | implied
  | dotted
deriving DecidableEq, Repr

inductive Item where
  /-- A value to which nothing can be added. -/
  | value (d : Document)
  | table (origin : Origin) (entries : List (String × Item))
  /-- An array of tables, the current one first. -/
  | tables (current : List (String × Item)) (earlier : List (List (String × Item)))
deriving Repr

abbrev Entries := List (String × Item)

def find? (key : String) (entries : Entries) : Option Item :=
  entries.lookup key

/-- Puts an item into entries ordered by key. -/
def put (key : String) (item : Item) : Entries → Entries
  | [] => [(key, item)]
  | (k, old) :: rest =>
    if k = key then (key, item) :: rest
    else if key < k then (key, item) :: (k, old) :: rest
    else (k, old) :: put key item rest

/-- Opens the table of a header; `many` says that it is one of several. -/
def openTable (many : Bool) : List String → Entries → Option Entries
  | [], _ => none
  | [key], entries =>
    match find? key entries, many with
    | none, false => some (put key (.table .header []) entries)
    | none, true => some (put key (.tables [] []) entries)
    | some (.table .implied inner), false => some (put key (.table .header inner) entries)
    | some (.tables current earlier), true =>
      some (put key (.tables [] (current :: earlier)) entries)
    | _, _ => none
  | key :: more, entries =>
    match find? key entries with
    | none => (openTable many more []).map fun inner => put key (.table .implied inner) entries
    | some (.table origin inner) =>
      (openTable many more inner).map fun inner => put key (.table origin inner) entries
    | some (.tables current earlier) =>
      (openTable many more current).map fun current => put key (.tables current earlier) entries
    | some (.value _) => none

/-- Gives a key its value, through the tables that the dots of the key stand for. -/
def assign (d : Document) : List String → Entries → Option Entries
  | [], _ => none
  | [key], entries =>
    if (find? key entries).isSome then none else some (put key (.value d) entries)
  | key :: more, entries =>
    match find? key entries with
    | none => (assign d more []).map fun inner => put key (.table .dotted inner) entries
    | some (.table origin inner) =>
      if origin = .header then none
      else (assign d more inner).map fun inner => put key (.table origin inner) entries
    | some _ => none

/-- Changes the table that a header has opened. -/
def within (change : Entries → Option Entries) : List String → Entries → Option Entries
  | [], entries => change entries
  | key :: more, entries =>
    match find? key entries with
    | some (.table origin inner) =>
      (within change more inner).map fun inner => put key (.table origin inner) entries
    | some (.tables current earlier) =>
      (within change more current).map fun current => put key (.tables current earlier) entries
    | _ => none

mutual

def Item.document : Item → Document
  | .value d => d
  | .table _ entries => .record (documentFields entries)
  | .tables current earlier =>
    .sequence ((Document.record (documentFields current) :: documentTables earlier).reverse)

def documentFields : List (String × Item) → List (Option String × Document)
  | [] => []
  | (key, item) :: rest => (some key, item.document) :: documentFields rest

def documentTables : List (List (String × Item)) → List Document
  | [] => []
  | entries :: rest => .record (documentFields entries) :: documentTables rest

end

/-! ## Keys and values -/

def isBareKeyChar (c : Char) : Bool :=
  c.isAlphanum || c = '_' || c = '-'

/-- One part of a key. Strings of several lines are no keys. -/
def readSimpleKey (cs : List Char) : Option (String × List Char) :=
  match cs with
  | '"' :: rest => readBasic (cs.length + 1) [] rest
  | '\'' :: rest => readLiteral rest
  | _ =>
    let word := cs.takeWhile isBareKeyChar
    if word.isEmpty then none else some (String.ofList word, cs.dropWhile isBareKeyChar)

/-- The parts of a key between its dots, with blanks around each. -/
def readKey : Nat → List Char → Option (List String × List Char)
  | 0, _ => none
  | fuel + 1, cs => do
    let (key, rest) ← readSimpleKey (skipSpaces cs)
    match skipSpaces rest with
    | '.' :: rest => do
      let (more, rest) ← readKey fuel rest
      some (key :: more, rest)
    | rest => some ([key], rest)

/-- The rest of a line behind a comment. -/
def afterComment? (cs : List Char) : Option (List Char) :=
  match cs with
  | '#' :: rest =>
    let body := rest.takeWhile (· ≠ '\n')
    let body := if body.getLast? = some '\r' && (rest.dropWhile (· ≠ '\n')).head? = some '\n' then
      body.dropLast else body
    if body.any isControl then none else some (rest.dropWhile (· ≠ '\n'))
  | _ => some cs

/-- Skips blanks, comments and line ends between the parts of a value. -/
def skipFiller : Nat → List Char → Option (List Char)
  | 0, _ => none
  | fuel + 1, cs => do
    let rest ← afterComment? (skipSpaces cs)
    match afterNewline? rest with
    | some rest => skipFiller fuel rest
    | none => some rest

mutual

def readValue : Nat → List Char → Option (Document × List Char)
  | 0, _ => none
  | fuel + 1, cs =>
    match cs with
    | '"' :: _ => (readString cs).map fun r => (.text r.1, r.2)
    | '\'' :: _ => (readString cs).map fun r => (.text r.1, r.2)
    | '[' :: rest => (readItems fuel rest).map fun r => (.sequence r.1, r.2)
    | '{' :: rest =>
      (readInline fuel [] rest).map fun r => ((Item.table .header r.1).document, r.2)
    | _ => readBare cs

/-- The items of an array up to its closing bracket. -/
def readItems : Nat → List Char → Option (List Document × List Char)
  | 0, _ => none
  | fuel + 1, cs => do
    match ← skipFiller (cs.length + 1) cs with
    | ']' :: rest => some ([], rest)
    | rest => do
      let (item, rest) ← readValue fuel rest
      match ← skipFiller (rest.length + 1) rest with
      | ',' :: rest => do
        let (items, rest) ← readItems fuel rest
        some (item :: items, rest)
      | ']' :: rest => some ([item], rest)
      | _ => none

/-- The fields of a table in braces up to its closing brace. -/
def readInline : Nat → Entries → List Char → Option (Entries × List Char)
  | 0, _, _ => none
  | fuel + 1, entries, cs => do
    match ← skipFiller (cs.length + 1) cs with
    | '}' :: rest => some (entries, rest)
    | rest => do
      let (key, rest) ← readKey (rest.length + 1) rest
      match rest with
      | '=' :: rest => do
        let (d, rest) ← readValue fuel (skipSpaces rest)
        let entries ← assign d key entries
        match ← skipFiller (rest.length + 1) rest with
        | ',' :: rest => readInline fuel entries rest
        | '}' :: rest => some (entries, rest)
        | _ => none
      | _ => none

end

/-! ## Lines -/

structure Reader where
  entries : Entries := []
  /-- The header under which the next keys stand. -/
  header : List String := []

/-- Skips what may stand behind an expression on its line. -/
def endLine? (cs : List Char) : Option (List Char) := do
  match ← afterComment? (skipSpaces cs) with
  | [] => some []
  | rest => afterNewline? rest

/-- Reads the expression at the beginning of a text, if there is one before the line ends. -/
def readExpression (r : Reader) (cs : List Char) : Option (Reader × List Char) :=
  let fuel := cs.length + 1
  match skipSpaces cs with
  | [] => some (r, [])
  | '#' :: rest => some (r, '#' :: rest)
  | '\n' :: rest => some (r, '\n' :: rest)
  | '\r' :: rest => some (r, '\r' :: rest)
  | '[' :: '[' :: rest => do
    let (key, rest) ← readKey fuel rest
    match rest with
    | ']' :: ']' :: rest => do
      let entries ← openTable true key r.entries
      some (⟨entries, key⟩, rest)
    | _ => none
  | '[' :: rest => do
    let (key, rest) ← readKey fuel rest
    match rest with
    | ']' :: rest => do
      let entries ← openTable false key r.entries
      some (⟨entries, key⟩, rest)
    | _ => none
  | rest => do
    let (key, rest) ← readKey fuel rest
    match rest with
    | '=' :: rest => do
      let (d, rest) ← readValue fuel (skipSpaces rest)
      let entries ← within (assign d key) r.header r.entries
      some ({ r with entries }, rest)
    | _ => none

/-- Reads the lines of a text. -/
def readLines : Nat → Reader → List Char → Option Reader
  | _, r, [] => some r
  | 0, _, _ => none
  | fuel + 1, r, cs => do
    let (r, rest) ← readExpression r cs
    readLines fuel r (← endLine? rest)

/-- The document that a text is, as a record. A mark of the byte order in front is passed over. -/
def document? (s : String) : Option Document := do
  let cs := match s.toList with
    | '\uFEFF' :: rest => rest
    | cs => cs
  let r ← readLines (cs.length + 1) {} cs
  some (.record (documentFields r.entries))

end LintGate.Toml

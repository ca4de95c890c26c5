import LintGate.Digest.Sha1
import LintGate.FileTree
import LintGate.Text.Pieces

/-!
# Indexes

An index records files. What has been staged has one record; a path that could not be merged has a
record for each of its sides instead. `Index.bytes` writes an index as a file, in which the records
stand between a header and a digest, and `Index.parse?` reads such a file.
-/

namespace LintGate.Git

open Text (Bytes)

inductive EntryKind where
  | plain
  | program
  | link
deriving DecidableEq, Repr

namespace EntryKind

/-- How a kind is written: what a file is, and who may do what with it. -/
def mode : EntryKind → Nat
  | plain => 0o100644
  | program => 0o100755
  | link => 0o120000

def ofMode? (mode : Nat) : Option EntryKind :=
  [plain, program, link].find? (·.mode = mode)

end EntryKind

/-- What is recorded of a file: its kind and the digest of its contents. -/
structure Entry where
  kind : EntryKind
  digest : Bytes
deriving DecidableEq, Repr

/-- Contents are known by the digest of themselves with their length in front. -/
def digestOf (contents : Bytes) : Bytes :=
  Sha1.digest (Text.encode s!"blob {contents.length}" ++ 0 :: contents)

/-- The entry of a node. Directories have none. -/
def Entry.ofNode? : Node → Option Entry
  | .file contents mode =>
    some ⟨if mode &&& 0o100 = 0 then .plain else .program, digestOf contents⟩
  | .link target => some ⟨.link, digestOf (Text.rawBytes target)⟩
  | _ => none

/-- A file below the working directory. -/
structure Record where
  place : Location
  entry : Entry
  /-- Zero for what has been staged, else a side of a path that could not be merged. -/
  stage : Nat := 0
deriving DecidableEq, Repr

namespace Record

def path (r : Record) : Bytes :=
  Text.rawBytes ("/".intercalate r.place)

/-- How many bytes stand before the path of a record. -/
def headLength : Nat := 62

/-- The length of a written record: one to eight zeros end its path. -/
def paddedLength (before path : Nat) : Nat :=
  (before + path + 8) / 8 * 8

/-- A record as it is written. Times, owner and size of the file are not kept. -/
def bytes (r : Record) : Bytes :=
  let zeros := paddedLength headLength r.path.length - (headLength + r.path.length)
  List.replicate 24 0 ++ Sha256.numberBytes 4 r.entry.kind.mode ++ List.replicate 12 0
    ++ r.entry.digest ++ Sha256.numberBytes 2 (r.stage * 0x1000 + min r.path.length 0xFFF)
    ++ r.path ++ List.replicate zeros 0

/-- The number that some bytes stand for, the most significant first. -/
def number (bytes : Bytes) : Nat :=
  bytes.foldl (fun n b => n * 256 + b.toNat) 0

/-- The bytes from a place on, so many of them. -/
def slice (start length : Nat) (bytes : Bytes) : Bytes :=
  (bytes.drop start).take length

/-- Reads a record. What is no file, such as a repository in the repository, has none. -/
def read? (bytes : Bytes) : Option (Option Record × Bytes) :=
  let flags := number (slice 60 2 bytes)
  -- Two more bytes of flags stand before the path if a flag says so.
  let before := if flags.testBit 14 then headLength + 2 else headLength
  let path := (bytes.drop before).takeWhile (· ≠ 0)
  let length := paddedLength before path.length
  if bytes.length < length then none
  else
    let place := (Text.pieces '/' (Text.ofRawBytes path).toList).map String.ofList
    let record := (EntryKind.ofMode? (number (slice 24 4 bytes))).map fun kind =>
      ({ place, entry := ⟨kind, slice 40 Sha1.digestLength bytes⟩, stage := flags / 0x1000 % 4 } :
        Record)
    some (record, bytes.drop length)

/-- Reads so many records. -/
def readAll? : Nat → Bytes → Option (List Record × Bytes)
  | 0, bytes => some ([], bytes)
  | n + 1, bytes => do
    let (first, rest) ← read? bytes
    let (others, rest) ← readAll? n rest
    some (first.toList ++ others, rest)

end Record

structure Index where
  records : List Record := []
deriving DecidableEq, Repr

namespace Index

def places (i : Index) : List Location :=
  i.records.map (·.place)

/-- What has been staged at a place. -/
def entryOf? (i : Index) (place : Location) : Option Entry :=
  (i.records.find? fun r => r.place = place && r.stage = 0).map (·.entry)

/-- Whether a path could not be merged. -/
def isConflicted (i : Index) (place : Location) : Bool :=
  i.records.any fun r => r.place = place && r.stage ≠ 0

def erase (i : Index) (place : Location) : Index :=
  ⟨i.records.filter fun r => r.place ≠ place⟩

/-- Inserts a record among others that are ordered by their paths. -/
def insert (r : Record) : List Record → List Record
  | [] => [r]
  | other :: rest => if r.path < other.path then r :: other :: rest else other :: insert r rest

/-- Records what is at a place now; a path that could not be merged is settled by this. -/
def put (i : Index) (place : Location) (e : Entry) : Index :=
  ⟨insert { place, entry := e } (i.erase place).records⟩

/-! ## Index files -/

def signature : Bytes := Text.encode "DIRC"

/-- An index as a file. -/
def bytes (i : Index) : Bytes :=
  let content := signature ++ Sha256.numberBytes 4 2 ++ Sha256.numberBytes 4 i.records.length
    ++ i.records.flatMap Record.bytes
  content ++ Sha1.digest content

/-- Whether nothing but extensions is left. One may be passed over when its name begins with a
capital letter. -/
def onlyExtensions : Nat → Bytes → Bool
  | _, [] => true
  | 0, _ => false
  | fuel + 1, first :: more =>
    let length := 8 + Record.number (Record.slice 4 4 (first :: more))
    0x41 ≤ first && first ≤ 0x5A && length ≤ more.length + 1
      && onlyExtensions fuel ((first :: more).drop length)

/-- Reads an index file of version 2 or 3. -/
def parse? (bytes : Bytes) : Option Index :=
  let content := bytes.take (bytes.length - Sha1.digestLength)
  let version := Record.number (Record.slice 4 4 content)
  if content.take 4 = signature && (version = 2 || version = 3)
      && Sha1.digest content = bytes.drop content.length then do
    let (records, rest) ← Record.readAll? (Record.number (Record.slice 8 4 content))
      (content.drop 12)
    if onlyExtensions rest.length rest then some ⟨records⟩ else none
  else none

example :
    let entry (contents : String) : Entry := ⟨.plain, digestOf (Text.encode contents)⟩
    let index : Index := ⟨[⟨["a.py"], entry "x = 1\n", 2⟩, ⟨["a.py"], entry "x = 2\n", 3⟩,
      ⟨["b", "c.py"], entry "", 0⟩]⟩
    parse? index.bytes = some index := by
  decide +kernel

end Index

end LintGate.Git

import LintGate.FileTree.Walk
import LintGate.Proofs.FileTree.Descent
import LintGate.Proofs.Path.Locations

/-!
# What a walk lists

A walk lists, in order, every file that lies within its depth below real directories all of which
can be listed and none of which is skipped by its name. Links count as files when they denote one.
-/

namespace LintGate

namespace Node

/-- What a walk finds at one entry of a directory. -/
def filesAt (linksToFile : Location → Bool) (levels : Option Nat) (l : Location) (name : String) :
    Node → List Location
  | .dir entries listable =>
    if skippedDirs.contains name || !listable then []
    else match levels with
      | none => filesAmong linksToFile none l entries
      | some 0 => []
      | some (n + 1) => filesAmong linksToFile (some n) l entries
  | .link _ => if linksToFile l then [l] else []
  | .file _ _ => [l]
  | .program _ => [l]
  | .device _ => []

variable {linksToFile : Location → Bool}

theorem filesAmong_cons (levels : Option Nat) (here : Location) (name : String) (node : Node)
    (rest : List (String × Node)) :
    filesAmong linksToFile levels here ((name, node) :: rest) =
      node.filesAt linksToFile levels (here ++ [name]) name ++
        filesAmong linksToFile levels here rest := by
  cases node with
  | dir =>
      rcases levels with _ | _ | deeper
      · simp [filesAmong, filesAt]
      · simp [filesAmong, filesAt]
      · simp [filesAmong, filesAt]
  | file | link | program | device => simp [filesAmong, filesAt]

theorem filesAmong_eq_flatMap (levels : Option Nat) (here : Location)
    (entries : List (String × Node)) :
    filesAmong linksToFile levels here entries =
      entries.flatMap fun entry =>
        entry.2.filesAt linksToFile levels (here ++ [entry.1]) entry.1 := by
  induction entries with
  | nil => rw [filesAmong, List.flatMap_nil]
  | cons entry entries ih => rw [filesAmong_cons, List.flatMap_cons, ih]

/-- The node is a file, or a link that counts as one. -/
def CountsAsFile (linksToFile : Location → Bool) (l : Location) : Node → Prop
  | .file _ _ | .program _ => True
  | .link _ => linksToFile l = true
  | .dir .. | .device _ => False

/-- From a directory a walk goes on with one level less, as long as there is one. -/
theorem exists_deeper_iff {levels : Option Nat} {holds : Option Nat → Prop} :
    (∃ deeper : Option Nat, levels = deeper.map (· + 1) ∧ holds deeper) ↔
      match levels with
      | none => holds none
      | some 0 => False
      | some (n + 1) => holds (some n) := by
  constructor
  · rintro ⟨deeper, rfl, there⟩
    cases deeper with
    | none => exact there
    | some n => exact there
  · intro there
    rcases levels with _ | _ | n
    · exact ⟨none, rfl, there⟩
    · cases there
    · exact ⟨some n, rfl, there⟩

/-- At an entry a walk finds the entry itself or, in a directory that it enters, what is below. -/
theorem mem_filesAt_iff {levels : Option Nat} {l place : Location} {name : String} {node : Node} :
    l ∈ node.filesAt linksToFile levels place name ↔
      (l = place ∧ node.CountsAsFile linksToFile place) ∨
        (name ∉ skippedDirs ∧ ∃ deeper : Option Nat, levels = deeper.map (· + 1) ∧
          l ∈ node.filesBelow linksToFile deeper place) := by
  cases node with
  | dir entries listable =>
      cases listable with
      | false => simp [filesAt, filesBelow, CountsAsFile]
      | true =>
          by_cases skipped : name ∈ skippedDirs
          · simp [filesAt, CountsAsFile, skipped]
          · rw [exists_deeper_iff]
            rcases levels with _ | _ | levels
            · simp [filesAt, filesBelow, CountsAsFile, skipped]
            · simp [filesAt, CountsAsFile]
            · simp [filesAt, filesBelow, CountsAsFile, skipped]
  | link => simp [filesAt, filesBelow, CountsAsFile, and_comm]
  | file | program | device => simp [filesAt, filesBelow, CountsAsFile]

/-- A walk of a node that lies at `here` comes to a file with these names below it. -/
structure Reaches (linksToFile : Location → Bool) (levels : Option Nat) (here : Location)
    (node : Node) (names : Location) : Prop where
  some_name : names ≠ []
  isFile : ∃ leaf, node.get? names = some leaf ∧ leaf.CountsAsFile linksToFile (here ++ names)
  listed : ∀ front, front <+: names.dropLast → ∃ entries, node.get? front = some (.dir entries true)
  entered : ∀ dir ∈ names.dropLast, dir ∉ skippedDirs
  within : ∀ n ∈ levels, names.length ≤ n + 1

/-- A walk comes to an entry of a directory when it counts as a file, and it goes on from there when
it is a directory to enter. -/
theorem reaches_cons_iff {levels : Option Nat} {here below : Location} {name : String}
    {child : Node}
    {entries : List (String × Node)} (found : child? name entries = some child) :
    (Node.dir entries true).Reaches linksToFile levels here (name :: below) ↔
      (below = [] ∧ child.CountsAsFile linksToFile (here ++ [name])) ∨
        (name ∉ skippedDirs ∧ ∃ deeper : Option Nat, levels = deeper.map (· + 1) ∧
          child.Reaches linksToFile deeper (here ++ [name]) below) := by
  have inside (names : Location) :
      (Node.dir entries true).get? (name :: names) = child.get? names := by
    rw [Node.get?, found, Option.bind_some]
  constructor
  · rintro ⟨-, ⟨leaf, entry, counts⟩, listed, entered, within⟩
    rw [inside] at entry
    cases below with
    | nil =>
        rw [get?_nil] at entry
        cases entry
        exact .inl ⟨rfl, counts⟩
    | cons next below =>
        rw [List.dropLast_cons_cons, List.forall_mem_cons] at entered
        have whole : here ++ name :: next :: below = here ++ [name] ++ next :: below := by simp
        rw [whole] at counts
        have listedBelow : ∀ front, front <+: (next :: below).dropLast →
            ∃ more, child.get? front = some (.dir more true) := by
          intro front begins
          rw [← inside]
          exact listed (name :: front) ((List.prefix_cons_inj _).mpr begins)
        refine .inr ⟨entered.1, ?_⟩
        rcases levels with _ | _ | levels
        · exact ⟨none, rfl, List.cons_ne_nil _ _, ⟨leaf, entry, counts⟩, listedBelow, entered.2,
            by simp⟩
        · have shallow := within 0 rfl
          simp at shallow
        · refine ⟨some levels, rfl, List.cons_ne_nil _ _, ⟨leaf, entry, counts⟩, listedBelow,
            entered.2, ?_⟩
          have longer := within (levels + 1) rfl
          simpa using longer
  · rintro (⟨rfl, counts⟩ |
      ⟨goesOn, deeper, rfl, some_name, ⟨leaf, entry, counts⟩, listed, entered, within⟩)
    · refine ⟨List.cons_ne_nil _ _, ⟨child, by rw [inside, get?_nil], counts⟩, ?_, by simp, by simp⟩
      intro front begins
      rw [List.prefix_nil.mp begins]
      exact ⟨entries, rfl⟩
    · refine ⟨List.cons_ne_nil _ _, ⟨leaf, by rw [inside, entry], by simpa using counts⟩,
        ?_, ?_, ?_⟩
      · rw [List.dropLast_cons_of_ne_nil some_name]
        intro front begins
        rcases List.prefix_cons_iff.mp begins with rfl | ⟨rest, rfl, further⟩
        · exact ⟨entries, rfl⟩
        · rw [inside]
          exact listed rest further
      · rw [List.dropLast_cons_of_ne_nil some_name, List.forall_mem_cons]
        exact ⟨goesOn, entered⟩
      · cases deeper with
        | none => simp
        | some n => simpa using within n rfl

/-- A walk of a well-formed node lists the files to which it comes. -/
theorem mem_filesBelow_iff {node : Node} (wellFormed : node.WellFormed) {levels : Option Nat}
    {here l : Location} : l ∈ node.filesBelow linksToFile levels here ↔
      ∃ names, l = here ++ names ∧ node.Reaches linksToFile levels here names := by
  induction wellFormed generalizing levels here l with
  | @dir entries listable sorted names below ih =>
      cases listable
      case false =>
        constructor
        · intro member
          cases member
        · rintro ⟨names, -, -, -, listed, -, -⟩
          obtain ⟨more, same⟩ := listed [] List.nil_prefix
          cases same
      rw [filesBelow, filesAmong_eq_flatMap, List.mem_flatMap]
      constructor
      · rintro ⟨⟨name, child⟩, member, found⟩
        have entry := child?_of_mem sorted member
        rcases mem_filesAt_iff.mp found with ⟨rfl, counts⟩ | ⟨goesOn, deeper, same, further⟩
        · exact ⟨[name], rfl, (reaches_cons_iff entry).mpr (.inl ⟨rfl, counts⟩)⟩
        · obtain ⟨rest, rfl, reaches⟩ := (ih _ member).mp further
          refine ⟨name :: rest, by simp, ?_⟩
          exact (reaches_cons_iff entry).mpr (.inr ⟨goesOn, deeper, same, reaches⟩)
      · rintro ⟨names, rfl, reaches⟩
        obtain ⟨name, rest, rfl⟩ := List.exists_cons_of_ne_nil reaches.some_name
        obtain ⟨leaf, entry, -⟩ := reaches.isFile
        rw [Node.get?, Option.bind_eq_some_iff] at entry
        obtain ⟨child, inside, -⟩ := entry
        have member := mem_of_child? inside
        refine ⟨(name, child), member, mem_filesAt_iff.mpr ?_⟩
        rcases (reaches_cons_iff inside).mp reaches with
          ⟨rfl, counts⟩ | ⟨goesOn, deeper, same, further⟩
        · exact .inl ⟨rfl, counts⟩
        · exact .inr ⟨goesOn, deeper, same, (ih _ member).mpr ⟨rest, by simp, further⟩⟩
  | file | link | program | device =>
      constructor
      · intro member
        cases member
      · rintro ⟨names, -, -, -, listed, -, -⟩
        obtain ⟨more, same⟩ := listed [] List.nil_prefix
        cases same

/-- The names by which a walk comes to a file are those of entries. -/
theorem Reaches.isName {node : Node} {levels : Option Nat} {here names : Location}
    (reaches : node.Reaches linksToFile levels here names) (wellFormed : node.WellFormed) :
    ∀ name ∈ names, Path.IsName name := by
  obtain ⟨leaf, entry, -⟩ := reaches.isFile
  exact fun name member => (wellFormed.isEntryName entry name member).toIsName

/-- The depth only bounds the number of names. -/
theorem Reaches.some_iff {node : Node} {n : Nat} {here names : Location} :
    node.Reaches linksToFile (some n) here names ↔
      node.Reaches linksToFile none here names ∧ names.length ≤ n + 1 := by
  constructor
  · rintro ⟨some_name, isFile, listed, entered, within⟩
    exact ⟨⟨some_name, isFile, listed, entered, by simp⟩, within n rfl⟩
  · rintro ⟨⟨some_name, isFile, listed, entered, -⟩, short⟩
    exact ⟨some_name, isFile, listed, entered, by simpa using short⟩

/-! ## The order of a walk -/

/-- The entries of a directory are in order, so a walk that takes one after another is. -/
theorem pairwise_filesBelow {node : Node} (wellFormed : node.WellFormed) (levels : Option Nat)
    (here : Location) :
    (node.filesBelow linksToFile levels here).Pairwise (Location.before · ·) := by
  induction wellFormed generalizing levels here with
  | @dir entries listable sorted names below ih =>
      cases listable
      case false => exact .nil
      -- What is found at an entry lies at or below it, and the names of the entries are in order.
      have at_entry {entry : String × Node} (member : entry ∈ entries) {l : Location}
          (found : l ∈ entry.2.filesAt linksToFile levels (here ++ [entry.1]) entry.1) :
          ∃ rest, l = here ++ entry.1 :: rest := by
        rcases mem_filesAt_iff.mp found with ⟨rfl, -⟩ | ⟨-, deeper, -, further⟩
        · exact ⟨[], rfl⟩
        · obtain ⟨rest, rfl, -⟩ := (mem_filesBelow_iff (below _ member)).mp further
          exact ⟨rest, by simp⟩
      rw [filesBelow, filesAmong_eq_flatMap, List.pairwise_flatMap]
      constructor
      · rintro ⟨name, child⟩ member
        cases child with
        | dir more listable =>
            have further := fun deeper => ih _ member deeper (here ++ [name])
            simp only [filesAt]
            split
            · exact .nil
            case isFalse entered =>
              obtain ⟨-, rfl⟩ : name ∉ skippedDirs ∧ listable = true := by simpa using entered
              simp only [filesBelow] at further
              rcases levels with _ | _ | levels
              · exact further none
              · exact .nil
              · exact further (some levels)
        | link =>
            simp only [filesAt]
            split
            · exact List.pairwise_singleton _ _
            · exact .nil
        | file | program => exact List.pairwise_singleton _ _
        | device => exact .nil
      · apply (List.pairwise_map.mp sorted).imp_of_mem
        intro first second member member' earlier x inFirst y inSecond
        obtain ⟨xs, rfl⟩ := at_entry member inFirst
        obtain ⟨ys, rfl⟩ := at_entry member' inSecond
        rw [Location.before_append_left]
        exact Location.before_of_rawBefore earlier xs ys
  | file | link | program | device => exact .nil

/-- A walk down to a depth finds those files of an unbounded walk that lie within it. -/
theorem filesBelow_some {node : Node} (wellFormed : node.WellFormed) (n : Nat) :
    node.filesBelow linksToFile (some n) [] =
      (node.filesBelow linksToFile none []).filter fun l => l.length ≤ n + 1 := by
  have inOrder (levels : Option Nat) :
      (node.filesBelow linksToFile levels []).Pairwise (Location.before · ·) :=
    pairwise_filesBelow wellFormed levels []
  have members (l : Location) : l ∈ node.filesBelow linksToFile (some n) [] ↔
      l ∈ (node.filesBelow linksToFile none []).filter fun l => l.length ≤ n + 1 := by
    simp [mem_filesBelow_iff wellFormed, Reaches.some_iff]
  exact List.Pairwise.eq_of_mem_iff (inOrder (some n)) ((inOrder none).filter _) members

theorem isName_of_mem_filesBelow {node : Node} (wellFormed : node.WellFormed) {levels : Option Nat}
    {here l : Location} (member : l ∈ node.filesBelow linksToFile levels here)
    (isName : ∀ name ∈ here, Path.IsName name) : ∀ name ∈ l, Path.IsName name := by
  obtain ⟨names, rfl, reaches⟩ := (mem_filesBelow_iff wellFormed).mp member
  rw [List.forall_mem_append]
  exact ⟨isName, reaches.isName wellFormed⟩

end Node

namespace FileTree

variable {t : FileTree} {root : Path} {dir : Location} {entries : List (String × Node)}

theorem list_eq (rootDir : t.resolve root = .ok (.present dir (.dir entries))) :
    t.list root = .ok entries := by
  rw [list, stat, rootDir]

/-- What is found in order is listed as it was found. -/
theorem walk_eq_of_sorted {levels : Option Nat} {found : List Location}
    (rootDir : t.resolve root = .ok (.present dir (.dir entries)))
    (small : ∀ d ∈ levels, d < maxDepth)
    (below : (Node.dir entries).filesBelow (t.hasFile root) levels [] = found)
    (sorted : found.Pairwise (Location.before · ·)) :
    t.walk root levels = .ok (found.map Location.relativePath) := by
  have fits : levels.any (maxDepth ≤ ·) = false := by
    rw [Option.any_eq_false_iff_get]
    intro isSome
    rw [decide_eq_false_iff_not, Nat.not_le]
    exact small _ (Option.get_mem isSome)
  simp only [walk, list_eq rootDir, fits, Bool.false_eq_true, if_false, below,
    Location.sorted_eq_self sorted]

/-- A directory of a well-formed tree is found in order, and a walk lists what it finds. -/
theorem walk_eq {depth : Option Nat} (wellFormed : t.root.WellFormed)
    (rootDir : t.resolve root = .ok (.present dir (.dir entries)))
    (small : ∀ d ∈ depth, d < maxDepth) :
    t.walk root depth = .ok
      (((Node.dir entries).filesBelow (t.hasFile root) depth []).map Location.relativePath) :=
  walk_eq_of_sorted rootDir small rfl
    (Node.pairwise_filesBelow (wellFormed_of_resolve wellFormed rootDir) depth [])

/-- One step more than the greatest depth does not fit into a word. -/
theorem walk_maxDepth (rootDir : t.resolve root = .ok (.present dir (.dir entries))) :
    t.walk root (some maxDepth) = .error .overflow := by
  simp [walk, list_eq rootDir]

/-- A walk that ends lists a directory, down to a depth that is not too great. -/
theorem exists_dir_of_walk {depth : Option Nat} {files : List Path}
    (walked : t.walk root depth = .ok files) :
    (∀ d ∈ depth, d < maxDepth) ∧
      ∃ dir entries, t.resolve root = .ok (.present dir (.dir entries)) := by
  rw [walk] at walked
  split at walked
  case h_1 => cases walked
  case h_2 entries listed =>
    split at walked
    case isTrue => cases walked
    case isFalse fits =>
      refine ⟨fun d member => ?_, ?_⟩
      · rw [Option.mem_def] at member
        simpa [member] using fits
      · rw [list, stat] at listed
        cases there : t.resolve root with
        | error => simp [there] at listed
        | ok place =>
            cases place with
            | absent => simp [there] at listed
            | present l node =>
                cases node with
                | dir inner listable =>
                    cases listable with
                    | true => exact ⟨l, inner, rfl⟩
                    | false => simp [there] at listed
                | file | link | program | device => simp [there] at listed

/-- What a walk lists is strictly increasing. -/
theorem pairwise_walk {depth : Option Nat} {files : List Path} (wellFormed : t.root.WellFormed)
    (walked : t.walk root depth = .ok files) : files.Pairwise (Path.before · ·) := by
  obtain ⟨small, dir, entries, rootDir⟩ := exists_dir_of_walk walked
  have rootForm := wellFormed_of_resolve wellFormed rootDir
  rw [walk_eq wellFormed rootDir small] at walked
  cases walked
  rw [List.pairwise_map]
  apply (Node.pairwise_filesBelow rootForm depth []).imp_of_mem
  intro a b inA inB earlier
  have isName {l : Location}
      (member : l ∈ (Node.dir entries).filesBelow (t.hasFile root) depth []) :=
    Node.isName_of_mem_filesBelow rootForm member (by simp)
  rwa [Path.relativePath_before (isName inA) (isName inB)]

/-- A root that cannot be listed cannot be walked, whatever the depth. -/
theorem exists_dir_or_fault (t : FileTree) (root : Path) :
    (∃ dir entries, t.resolve root = .ok (.present dir (.dir entries))) ∨
      ∃ fault, ∀ depth, t.walk root depth = .error fault := by
  cases listed : t.list root with
  | error e => exact .inr ⟨.rootUnreadable root e, fun depth => by rw [walk, listed]⟩
  | ok entries =>
      have walked : ∃ files, t.walk root none = .ok files := ⟨_, by rw [walk, listed]; rfl⟩
      obtain ⟨files, walked⟩ := walked
      exact .inl (exists_dir_of_walk walked).2

/-- A walk lists files by their names from the directory to which the root leads. -/
theorem exists_names_of_mem_walk {levels : Option Nat} {files : List Path} {file : Path}
    (walked : t.walk root levels = .ok files) (member : file ∈ files) :
    ∃ dir node names, t.resolve root = .ok (.present dir node) ∧
      file = Location.relativePath names := by
  obtain ⟨-, dir, entries, rootDir⟩ := exists_dir_of_walk walked
  rw [walk, list_eq rootDir] at walked
  dsimp only at walked
  split at walked
  case isTrue => cases walked
  case isFalse =>
    cases walked
    obtain ⟨names, -, rfl⟩ := List.mem_map.mp member
    exact ⟨dir, _, names, rootDir, rfl⟩

/-! ## Files below a root -/

/-- What is named below a real directory is looked up by its name in that directory. -/
theorem OpensAt.hasFile_iff {left : Nat} {dirs : Location} {name : String}
    (opens : t.OpensAt root left dir) (wellFormed : t.root.WellFormed)
    (real : t.root.HasDir (dir ++ dirs)) (isName : Path.IsName name) :
    t.hasFile root (dirs ++ [name]) = true ↔ ∃ l node,
      follow t.root true left (dir ++ dirs) [name] = .ok (.present l node) ∧
        node.isFile = true := by
  obtain ⟨more, listable, real⟩ := real
  have isEntry : ∀ other ∈ dirs, IsEntryName other :=
    fun other member => wellFormed.isEntryName real other (List.mem_append_right _ member)
  have areNames : ∀ other ∈ dirs ++ [name], Path.IsName other := by
    rw [List.forall_mem_append, List.forall_mem_singleton]
    exact ⟨fun other member => (isEntry other member).toIsName, isName⟩
  have nonempty : dirs ++ [name] ≠ [] := by simp
  have relative := Path.isAbsolute_relativePath nonempty areNames
  have named : (Location.relativePath (dirs ++ [name])).fileName? = some name :=
    Path.fileName?_relativePath areNames (by simp)
  have enters : Enters t.root left dir dirs left (dir ++ dirs) :=
    enters_of_location left isEntry real
  have lookup : t.resolve (root.join (Location.relativePath (dirs ++ [name]))) =
      follow t.root true left (dir ++ dirs) [name] := by
    rw [resolve, opens relative named, Path.steps_relativePath nonempty areNames,
      enters.follow_append (List.cons_ne_nil _ _)]
  rw [hasFile, isFile_iff, lookup]

/-- A file that is found by its name in a directory is an entry that counts as one. -/
theorem exists_countsAsFile {links : Nat} {name : String} {l place : Location} {node : Node}
    {linksToFile : Location → Bool} (isName : Path.IsName name) (isFile : node.isFile = true)
    (found : follow t.root true links dir [name] = .ok (.present l node))
    (denotes : linksToFile place = true) :
    ∃ leaf, t.root.get? (dir ++ [name]) = some leaf ∧ leaf.CountsAsFile linksToFile place := by
  rcases Nat.lt_or_ge maxNameBytes (Text.rawBytes name).length with long | short
  · rw [follow_long isName.notHere isName.notUp long] at found
    cases found
  rw [follow_name isName.notHere isName.notUp short] at found
  cases entry : t.root.get? (dir ++ [name]) with
  | none =>
      rw [entry] at found
      cases found
  | some leaf =>
      refine ⟨leaf, rfl, ?_⟩
      rw [entry] at found
      cases leaf with
      | file | program => trivial
      | link => exact denotes
      | dir =>
          dsimp only at found
          rw [follow_nil, entry] at found
          cases found
          cases isFile
      | device =>
          cases found
          cases isFile

/-- In a real directory a file is an entry that counts as one. -/
theorem OpensAt.hasFile_iff_countsAsFile {left : Nat} {dirs : Location} {name : String}
    (opens : t.OpensAt root left dir) (wellFormed : t.root.WellFormed)
    (real : t.root.HasDir (dir ++ dirs)) (isName : Path.IsName name) :
    t.hasFile root (dirs ++ [name]) = true ↔
      ∃ leaf, t.root.get? (dir ++ dirs ++ [name]) = some leaf ∧
        leaf.CountsAsFile (t.hasFile root) (dirs ++ [name]) := by
  have lookup := opens.hasFile_iff wellFormed real isName
  constructor
  · intro denotes
    obtain ⟨l, node, found, isFile⟩ := lookup.mp denotes
    exact exists_countsAsFile isName isFile found denotes
  · rintro ⟨leaf, entry, counts⟩
    have short : (Text.rawBytes name).length ≤ maxNameBytes :=
      (wellFormed.isEntryName entry name (by simp)).short
    have found := @follow_name t.root true name isName.notHere isName.notUp short left
      (dir ++ dirs) []
    rw [entry] at found
    cases leaf with
    | file | program => exact lookup.mpr ⟨_, _, found, rfl⟩
    | link => exact counts
    | dir | device => cases counts

/-- What lies below the directory to which a path leads is an entry of the tree. -/
theorem get?_append_of_resolve {l : Location} {node : Node} (nonempty : l ≠ [])
    (rootDir : t.resolve root = .ok (.present dir (.dir entries))) :
    t.root.get? (dir ++ l) = some node ↔ (Node.dir entries).get? l = some node := by
  have contents := getD_get?_of_resolve rootDir
  rw [Node.get?_append]
  cases real : t.root.get? dir with
  | some other =>
      rw [real] at contents
      cases contents
      rw [Option.bind_some]
  | none =>
      -- A path can lead to a directory in which there never was anything, and so to an empty one.
      rw [real] at contents
      cases contents
      obtain ⟨name, rest, rfl⟩ := List.exists_cons_of_ne_nil nonempty
      simp [Node.get?, Node.child?]

/-- Directories below the one to which a path leads are directories of the tree. -/
theorem listed_iff_of_resolve (rootDir : t.resolve root = .ok (.present dir (.dir entries)))
    (real : t.root.HasDir dir) (front : Location) :
    (∃ more, t.root.get? (dir ++ front) = some (.dir more true)) ↔
      ∃ more, (Node.dir entries).get? front = some (.dir more true) := by
  obtain ⟨top, listable, found⟩ := real
  have contents := getD_get?_of_resolve rootDir
  rw [found, Option.getD_some] at contents
  rw [Node.get?_append, found, contents, Option.bind_some]

/-- A regular file to which a path leads below a directory, through real directories, is there by
the names on the way. -/
theorem OpensAt.exists_hasFile {p : Path} {name : String} {left : Nat}
    (opens : t.OpensAt root left dir) (wellFormed : t.root.WellFormed)
    (relative : p.isAbsolute = false) (named : p.fileName? = some name) (real : t.RealAbove dir p)
    (below : dir <+: dir.descend p.components) (regular : t.isFile (root.join p) = true) :
    ∃ dirs, dir ++ dirs = dir.descend p.components.dropLast ∧
      (∀ front, front <+: dirs → ∃ more, t.root.get? (dir ++ front) = some (.dir more true)) ∧
      t.hasFile root (dirs ++ [name]) = true := by
  obtain ⟨l, node, isFile, found⟩ := opens.exists_follow_name_of_isFile relative named real regular
  obtain ⟨above, shape⟩ := Path.fileName?_eq_some_iff.mp named
  have dirs_eq : p.components.dropLast = above := by rw [shape, List.dropLast_concat]
  rw [dirs_eq] at found ⊢
  rw [RealAbove, dirs_eq] at real
  have isName : Path.IsName name := Path.isName_of_fileName? named
  rw [shape, Location.descend_concat, Location.toward] at below
  obtain ⟨under, same⟩ := below
  -- The entry is below the directory, since no directory counts as a file.
  rcases List.eq_nil_or_concat under with rfl | ⟨dirs, final, rfl⟩
  case inl =>
    obtain ⟨leaf, entry, counts⟩ : ∃ leaf,
        t.root.get? (dir.descend above ++ [name]) = some leaf ∧
          leaf.CountsAsFile (fun _ => true) [] :=
      exists_countsAsFile isName isFile found rfl
    obtain ⟨top, topDir⟩ : ∃ top, t.root.get? dir = some (.dir top) := real [] List.nil_prefix
    rw [List.append_nil] at same
    rw [← same, topDir] at entry
    cases entry
    cases counts
  rw [List.concat_eq_append, ← List.append_assoc] at same
  obtain ⟨dirs_below, ends⟩ := List.append_inj' same rfl
  cases ends
  have listed : ∀ front, front <+: dirs →
      ∃ more, t.root.get? (dir ++ front) = some (.dir more true) := by
    intro front begins
    have within : dir ++ front <+: dir.descend above := by
      rw [← dirs_below]
      exact (List.prefix_append_right_inj _).mpr begins
    obtain ⟨cs, earlier, same⟩ := Location.exists_descend_eq (List.prefix_append _ _) within
    rw [← same]
    exact real cs earlier
  obtain ⟨more, nearest⟩ := listed dirs (List.prefix_refl _)
  rw [← dirs_below] at found
  exact ⟨dirs, dirs_below, listed,
    (opens.hasFile_iff wellFormed ⟨_, _, nearest⟩ isName).mpr ⟨l, node, found, isFile⟩⟩

/-- A regular file below the root is listed by a walk that goes as deep as its path, when its
directories are real and none of them is skipped. -/
theorem exists_mem_walk_of_isFile {p : Path} {name : String} {depth : Nat}
    (wellFormed : t.root.WellFormed) (relative : p.isAbsolute = false)
    (named : p.fileName? = some name) (realBelow : t.RealBelow root p) (small : depth < maxDepth)
    (within : p.components.length ≤ depth + 1)
    (entered : ∀ above ∈ p.names.dropLast, above ∉ skippedDirs)
    (regular : t.isFile (root.join p) = true) :
    ∃ files, t.walk root (some depth) = .ok files ∧ ∃ q ∈ files, q.fileName? = some name := by
  obtain ⟨dir, entries, rootDir, realAbove, below⟩ := realBelow
  obtain ⟨left, opens⟩ := exists_opensAt rootDir
  obtain ⟨dirs, dirs_below, listed, denotes⟩ :=
    opens.exists_hasFile wellFormed relative named realAbove below regular
  have isName : Path.IsName name := Path.isName_of_fileName? named
  obtain ⟨more, nearest⟩ := listed dirs (List.prefix_refl _)
  have isDir : t.root.HasDir (dir ++ dirs) := ⟨more, true, nearest⟩
  have real : t.root.HasDir dir := isDir.of_prefix (List.prefix_append _ _)
  obtain ⟨leaf, entry, counts⟩ :=
    (opens.hasFile_iff_countsAsFile wellFormed isDir isName).mp denotes
  rw [List.append_assoc] at entry
  have inside : (Node.dir entries).get? (dirs ++ [name]) = some leaf :=
    (get?_append_of_resolve (by simp) rootDir).mp entry
  have reaches : (Node.dir entries).Reaches (t.hasFile root) (some depth) [] (dirs ++ [name]) := by
    refine ⟨by simp, ⟨leaf, inside, counts⟩, ?_, ?_, ?_⟩
    · rw [List.dropLast_concat]
      exact fun front begins => (listed_iff_of_resolve rootDir real front).mp (listed front begins)
    · intro other member
      rw [List.dropLast_concat] at member
      apply entered
      rw [Path.names_eq_of_fileName? named, List.dropLast_concat, List.mem_filterMap]
      exact ⟨.name other, Location.name_mem_of_descend_eq dirs_below.symm other member, rfl⟩
    · have length := Location.length_descend_le dir p.components.dropLast
      rw [← dirs_below, List.length_append, List.length_dropLast] at length
      simp only [Option.mem_some_iff, forall_eq', List.length_append, List.length_singleton]
      omega
  have rootForm := wellFormed_of_resolve wellFormed rootDir
  have atMost : ∀ d ∈ some depth, d < maxDepth := by simpa using small
  refine ⟨_, walk_eq wellFormed rootDir atMost, Location.relativePath (dirs ++ [name]), ?_, ?_⟩
  · exact List.mem_map_of_mem ((Node.mem_filesBelow_iff rootForm).mpr ⟨_, rfl, reaches⟩)
  · exact Path.fileName?_relativePath (reaches.isName rootForm) (by simp)

end FileTree

end LintGate

import LintGate.Language
import LintGate.Proofs.Path.Names
import LintGate.Tool.Resolver

/-!
# Programs of tools

A tool is found by the plain names of its programs, which no language claims as names of its files.
-/

namespace LintGate

namespace Tool

/-- The binary of a tool and the program that launches it, if there is one. -/
def programNames (tool : Tool) : List String :=
  tool.binary :: (tool.launcher.map (·.program)).toList

/-- The names of the programs of some tools of the catalog. -/
def programsOf (names : List String) : List String :=
  (names.filterMap ofName?).flatMap programNames

theorem mem_programsOf {names : List String} {program : String} :
    program ∈ programsOf names ↔
      ∃ name ∈ names, ∃ tool, ofName? name = some tool ∧ program ∈ tool.programNames := by
  simp only [programsOf, List.mem_flatMap, List.mem_filterMap]
  constructor
  · intro inside
    obtain ⟨tool, ⟨name, member, known⟩, ofTool⟩ := inside
    exact ⟨name, member, tool, known, ofTool⟩
  · intro inside
    obtain ⟨name, member, tool, known, ofTool⟩ := inside
    exact ⟨tool, ⟨name, member, known⟩, ofTool⟩

theorem mem_programsOf_append {names others : List String} {program : String} :
    program ∈ programsOf (names ++ others) ↔
      program ∈ programsOf names ∨ program ∈ programsOf others := by
  rw [programsOf, List.filterMap_append, List.flatMap_append, List.mem_append, programsOf,
    programsOf]

/-- Programs of tools are plain names that no language claims. -/
theorem programNames_unclaimed {name program : String} {tool : Tool}
    (known : ofName? name = some tool) (member : program ∈ tool.programNames) :
    Path.components program = [.name program] ∧
      ∀ l : Language, l.profile.claims (Text.lossy program) = false := by
  have checked : ∀ tool ∈ catalog, ∀ program ∈ tool.programNames,
      Path.components program = [.name program] ∧
        ∀ l ∈ Language.all, l.profile.claims (Text.lossy program) = false := by decide +kernel
  obtain ⟨plain, unclaimed⟩ := checked tool (List.mem_of_find?_eq_some known) program member
  exact ⟨plain, fun l => unclaimed l l.mem_all⟩

end Tool

namespace FileTree

theorem fileName?_of_mem_programPlaces {searchPath binary : String} {root p : Path}
    (plain : Path.components binary = [.name binary])
    (member : p ∈ programPlaces searchPath root binary) : p.fileName? = some binary := by
  have named : Path.fileName? binary = some binary := by
    rw [Path.fileName?, plain]
    rfl
  simp only [programPlaces, plain, List.length_singleton, Nat.le_refl, if_true] at member
  split at member
  · cases member
  · obtain ⟨dir, -, rfl⟩ := List.mem_map.mp member
    exact Path.fileName?_join named

/-- Without a search path no program is found by a plain name. -/
theorem findProgram?_of_no_path {t : FileTree} {root : Path} {binary : String}
    (plain : Path.components binary = [.name binary]) : t.findProgram? "" root binary = none := by
  have none_there : programPlaces "" root binary = [] := by
    simp [programPlaces, plain]
  rw [findProgram?, none_there, List.find?_nil]

end FileTree

namespace Resolver

/-- There may be a tool of the catalog with this binary and this program to run. -/
def Finds (r : Resolver) (tool : Tool) (binary program : Path) : Prop :=
  (∃ name, Tool.ofName? name = some tool) ∧ ∃ t, r.programs? t tool = some (binary, program)

theorem not_finds_of_no_path {r : Resolver} {tool : Tool} {binary program : Path}
    (no_path : r.searchPath = "") : ¬ r.Finds tool binary program := by
  rintro ⟨⟨name, known⟩, t, found⟩
  obtain ⟨plain, -⟩ := Tool.programNames_unclaimed known List.mem_cons_self
  rw [programs?, no_path, FileTree.findProgram?_of_no_path plain] at found
  cases found

end Resolver

end LintGate

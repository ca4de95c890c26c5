import LintGate.Check.Custom
import Mathlib.Data.List.Basic

/-!
# Files above a size limit

The bytes that a limit allows are cut off at the greatest number that a machine word counts. No size
of a file exceeds that number, so the comparison comes out as in exact arithmetic. The line for a
file states its size in the unit of the limit, rounded up, which is always above the limit.
-/

namespace LintGate

/-- Looking at one thing after another answers what is seen of each and changes nothing. -/
theorem Job.perform_each_seen {σ α β : Type} (host : Host σ) (view : α → FileTree → β)
    (xs : List α) (s : σ) :
    (each (fun x => seen (view x)) xs).perform host s =
      (xs.map fun x => view x (host.tree s), s) := by
  induction xs with
  | nil => rfl
  | cons x xs ih =>
      rw [each, seen, andThen, perform_look, andThen, perform_andThen, ih]
      rfl

namespace Check

variable {sizeOf : Path → Option UInt64} {limitKb size : UInt64} {file : Path}

theorem allowedBytes_lt_iff : allowedBytes limitKb.toNat < size.toNat ↔
    limitKb.toNat * 1024 < size.toNat := by
  have fits : size.toNat ≤ maxBytes := Nat.le_pred_of_lt size.toNat_lt
  rw [allowedBytes]
  omega

/-- Whether a file has more bytes than a limit allows, without regard to any word size. -/
def exceeds (sizeOf : Path → Option UInt64) (limitKb : UInt64) (file : Path) : Bool :=
  (sizeOf file).any fun size => limitKb.toNat * 1024 < size.toNat

/-- A size in units of 1024 bytes, rounded up. -/
def kilobytes (size : UInt64) : Nat :=
  (size.toNat + 1023) / 1024

theorem lt_kilobytes (above : limitKb.toNat * 1024 < size.toNat) :
    limitKb.toNat < kilobytes size := by
  rw [kilobytes, Nat.lt_div_iff_mul_lt (by decide)]
  omega

theorem kilobytes_spec (size : UInt64) :
    size.toNat ≤ kilobytes size * 1024 ∧ kilobytes size * 1024 < size.toNat + 1024 := by
  rw [kilobytes]
  omega

/-- A file above the limit, with its size. -/
def largeFile? (sizeOf : Path → Option UInt64) (limitKb : UInt64) (file : Path) :
    Option (Path × Nat) :=
  ((sizeOf file).filter fun size => limitKb.toNat * 1024 < size.toNat).map (file, kilobytes ·)

/-- The line for a file above the limit. What is no text in its path is replaced. -/
def lineFor (limitKb : UInt64) (entry : Path × Nat) : String :=
  s!"{Text.lossy entry.1}: {entry.2} KB (limit {limitKb} KB)"

theorem largeFile?_eq_some_iff {entry : Path × Nat} :
    largeFile? sizeOf limitKb file = some entry ↔
      ∃ size, sizeOf file = some size ∧ limitKb.toNat * 1024 < size.toNat ∧
        entry = (file, kilobytes size) := by
  simp only [largeFile?, Option.map_eq_some_iff, Option.filter_eq_some_iff, decide_eq_true_eq,
    and_assoc, eq_comm (a := entry)]

theorem exceeds_iff : exceeds sizeOf limitKb file = true ↔
    ∃ size, sizeOf file = some size ∧ limitKb.toNat * 1024 < size.toNat := by
  simp only [exceeds, Option.any_eq_true, decide_eq_true_eq]

theorem largeFile?_of_exceeds (found : sizeOf file = some size)
    (above : limitKb.toNat * 1024 < size.toNat) :
    largeFile? sizeOf limitKb file = some (file, kilobytes size) :=
  largeFile?_eq_some_iff.mpr ⟨size, found, above, rfl⟩

theorem largeFile?_eq_none_iff :
    largeFile? sizeOf limitKb file = none ↔ exceeds sizeOf limitKb file = false := by
  rw [← Option.not_isSome_iff_eq_none, Option.isSome_iff_exists, ← Bool.not_eq_true, exceeds_iff]
  simp only [largeFile?_eq_some_iff]
  constructor
  · rintro small ⟨size, found, above⟩
    exact small ⟨_, size, found, above, rfl⟩
  · rintro small ⟨_, size, found, above, -⟩
    exact small ⟨size, found, above⟩

theorem sizeLine?_eq (file : Path) :
    ((sizeOf file).map UInt64.toNat).bind (sizeLine? limitKb.toNat file) =
      (largeFile? sizeOf limitKb file).map (lineFor limitKb) := by
  cases found : sizeOf file with
  | none =>
      rw [largeFile?, found]
      rfl
  | some size =>
      rw [Option.map_some, Option.bind_some, sizeLine?]
      by_cases above : limitKb.toNat * 1024 < size.toNat
      · rw [if_pos (allowedBytes_lt_iff.mpr above), largeFile?_of_exceeds found above]
        rfl
      · have small : exceeds sizeOf limitKb file = false := by simp [exceeds, found, above]
        rw [if_neg (mt allowedBytes_lt_iff.mp above), largeFile?_eq_none_iff.mpr small]
        rfl

theorem map_fst_largeFiles (files : List Path) :
    (files.filterMap (largeFile? sizeOf limitKb)).map Prod.fst =
      files.filter (exceeds sizeOf limitKb) := by
  induction files with
  | nil => rfl
  | cons file files ih =>
      by_cases large : exceeds sizeOf limitKb file = true
      · obtain ⟨size, found, above⟩ := exceeds_iff.mp large
        rw [List.filterMap_cons_some (largeFile?_of_exceeds found above), List.map_cons, ih,
          List.filter_cons_of_pos large]
      · have small := largeFile?_eq_none_iff.mpr (Bool.eq_false_iff.mpr large)
        rw [List.filterMap_cons_none small, ih, List.filter_cons_of_neg large]

theorem fileSize_eq (profile : String) (files : List Path) :
    fileSize (fun file => (sizeOf file).map UInt64.toNat) profile files limitKb.toNat =
      sizeFinding? profile
        ((files.filterMap (largeFile? sizeOf limitKb)).map (lineFor limitKb)) := by
  rw [fileSize, List.map_filterMap]
  simp only [sizeLine?_eq]

theorem fileSize_eq_none_iff {profile : String} {files : List Path} :
    fileSize (fun file => (sizeOf file).map UInt64.toNat) profile files limitKb.toNat = none ↔
      ∀ file ∈ files, ∀ size, sizeOf file = some size → size.toNat ≤ limitKb.toNat * 1024 := by
  have none_large : fileSize (fun file => (sizeOf file).map UInt64.toNat) profile files
      limitKb.toNat = none ↔ ∀ file ∈ files, exceeds sizeOf limitKb file = false := by
    simp only [fileSize_eq, sizeFinding?, List.isEmpty_iff, ite_eq_left_iff, reduceCtorEq,
      imp_false, not_not, List.map_eq_nil_iff, List.filterMap_eq_nil_iff, largeFile?_eq_none_iff]
  rw [none_large]
  apply forall₂_congr
  intro file _
  rw [← Bool.not_eq_true, exceeds_iff]
  constructor
  · intro small size found
    exact Nat.not_lt.mp fun above => small ⟨size, found, above⟩
  · rintro small ⟨size, found, above⟩
    exact Nat.not_lt.mpr (small size found) above

/-- The checks of a language depend on the sizes that are seen, and nothing is changed by
looking. -/
theorem performSizeCheck_perform {σ : Type} {host : Job.Host σ} {s : σ} {settings : Settings}
    {l : Language} {files : List Path} {sizes : Path → Option Nat} {limit : Nat}
    (limited : settings.thresholds.maxFileSizeKb = some limit)
    (seen : ∀ file ∈ files, sizeIn (host.tree s) settings.root file = sizes file) :
    (settings.performSizeCheck l files).perform host s =
      (fileSize sizes l.id files limit, s) := by
  have lines : files.map (fun file =>
      (sizeIn (host.tree s) settings.root file).bind (sizeLine? limit file)) =
      files.map fun file => (sizes file).bind (sizeLine? limit file) := by
    apply List.map_congr_left
    intro file member
    rw [seen file member]
  rw [Settings.performSizeCheck, limited, Job.perform_andThen, Job.perform_each_seen, lines,
    List.filterMap_map]
  rfl

/-- The size check lists, in order and in one finding, just the files above the limit, each with a
size that is above the limit as it is written, and finds nothing when there is no such file. The
checks of a language report the same about the sizes that are seen. -/
theorem fileSize_lists_files_above_limit (sizeOf : Path → Option UInt64) (profile : String)
    (files : List Path) (limitKb : UInt64) :
    (∃ listed : List (Path × Nat),
      listed.map Prod.fst = files.filter (exceeds sizeOf limitKb) ∧
      (∀ entry ∈ listed, limitKb.toNat < entry.2 ∧ ∃ size, sizeOf entry.1 = some size ∧
        size.toNat ≤ entry.2 * 1024 ∧ entry.2 * 1024 < size.toNat + 1024) ∧
      fileSize (fun file => (sizeOf file).map UInt64.toNat) profile files limitKb.toNat =
        if listed = [] then none
        else some ⟨fileSizeTool, profile, .check, .lintViolation,
          "\n".intercalate (listed.map (lineFor limitKb))⟩) ∧
    (fileSize (fun file => (sizeOf file).map UInt64.toNat) profile files limitKb.toNat = none ↔
      ∀ file ∈ files, ∀ size, sizeOf file = some size → size.toNat ≤ limitKb.toNat * 1024) ∧
    ∀ (σ : Type) (host : Job.Host σ) (s : σ) (settings : Settings) (l : Language),
      settings.thresholds.maxFileSizeKb = some limitKb.toNat →
      (∀ file ∈ files, sizeIn (host.tree s) settings.root file =
        (sizeOf file).map UInt64.toNat) →
      (settings.performSizeCheck l files).perform host s =
        (fileSize (fun file => (sizeOf file).map UInt64.toNat) l.id files limitKb.toNat, s) := by
  have report : fileSize (fun file => (sizeOf file).map UInt64.toNat) profile files limitKb.toNat =
      _ := fileSize_eq profile files
  refine ⟨⟨files.filterMap (largeFile? sizeOf limitKb), map_fst_largeFiles files, ?_, ?_⟩,
    fileSize_eq_none_iff, ?_⟩
  · intro entry member
    obtain ⟨file, -, large⟩ := List.mem_filterMap.mp member
    obtain ⟨size, found, above, rfl⟩ := largeFile?_eq_some_iff.mp large
    exact ⟨lt_kilobytes above, size, found, kilobytes_spec size⟩
  · rw [report, sizeFinding?]
    simp only [List.isEmpty_iff, List.map_eq_nil_iff]
  · intro σ host s settings l limited seen
    exact performSizeCheck_perform limited seen

def byteTree : FileTree where
  root := .dir [("w", .dir [("a.py", .file [0x78] 0o644)])]

/-- Nothing is allowed, so one byte is too much. -/
def emptyFilesOnly : Settings where
  root := "/w"
  thresholds := { maxFileSizeKb := some 0 }

def byteHost : Job.Host Unit where
  tree := fun _ => byteTree
  run := fun s _ => (.exited (some 0) "", s)

/-- A file that is there and one that is missing; then the greatest size against a limit that no
machine word can count in bytes. -/
theorem fileSize_lists_files_above_limit_of_byte :
    emptyFilesOnly.thresholds.maxFileSizeKb = some (0 : UInt64).toNat ∧
      (∀ file ∈ ["a.py", "b.py"], sizeIn (byteHost.tree ()) emptyFilesOnly.root file =
        (if file = "a.py" then some 1 else none : Option UInt64).map UInt64.toNat) ∧
      (emptyFilesOnly.performSizeCheck .python ["a.py", "b.py"]).perform byteHost () =
        (some ⟨fileSizeTool, "python", .check, .lintViolation, "a.py: 1 KB (limit 0 KB)"⟩, ()) ∧
      fileSize (fun _ => (some (18446744073709551615 : UInt64)).map UInt64.toNat) "python" ["a.py"]
        (18014398509481984 : UInt64).toNat = none := by
  have limited : emptyFilesOnly.thresholds.maxFileSizeKb = some (0 : UInt64).toNat := rfl
  have seen : ∀ file ∈ ["a.py", "b.py"], sizeIn (byteHost.tree ()) emptyFilesOnly.root file =
      (if file = "a.py" then some 1 else none : Option UInt64).map UInt64.toNat := by
    decide +kernel
  have report := (fileSize_lists_files_above_limit
    (fun file => if file = "a.py" then some 1 else none) "python" ["a.py", "b.py"] 0).2.2
  have silent := (fileSize_lists_files_above_limit (fun _ => some 18446744073709551615) "python"
    ["a.py"] 18014398509481984).2.1
  refine ⟨limited, seen, ?_, ?_⟩
  · rw [report Unit byteHost () emptyFilesOnly .python limited seen]
    decide +kernel
  · apply silent.mpr
    intro file _ size found
    cases found
    decide

end Check

end LintGate

import LintGate.Settings.Discovery
import Mathlib.Data.List.Forall2

/-!
# Checks of the settings

Settings are complete only when each check that a settings file lists has a command and names known
languages. Then all checks are kept, in their order.
-/

namespace LintGate

theorem mapM_eq_ok_iff {ε α β : Type} {f : α → Except ε β} {xs : List α} {ys : List β} :
    xs.mapM f = .ok ys ↔ List.Forall₂ (fun x y => f x = .ok y) xs ys := by
  induction xs generalizing ys with
  | nil => cases ys <;> simp [pure, Except.pure]
  | cons x xs ih =>
      rw [List.mapM_cons, List.forall₂_cons_left_iff]
      cases first : f x with
      | error e => simp [bind, Except.bind]
      | ok y =>
          cases others : xs.mapM f with
          | error e => simp [bind, Except.bind, ← ih, others]
          | ok rest =>
              simp only [bind, Except.bind, pure, Except.pure, ← ih, others, Except.ok.injEq]
              constructor
              · rintro rfl
                exact ⟨y, rest, rfl, rfl, rfl⟩
              · rintro ⟨_, _, rfl, rfl, rfl⟩
                rfl

theorem exists_mapM_eq_ok_iff {ε α β : Type} {f : α → Except ε β} {xs : List α} :
    (∃ ys, xs.mapM f = .ok ys) ↔ ∀ x ∈ xs, ∃ y, f x = .ok y := by
  simp only [mapM_eq_ok_iff]
  induction xs with
  | nil => simp
  | cons x xs ih =>
      rw [List.forall_mem_cons, ← ih]
      constructor
      · rintro ⟨_, both⟩
        cases both with
        | cons first rest => exact ⟨⟨_, first⟩, _, rest⟩
      · rintro ⟨⟨_, first⟩, _, rest⟩
        exact ⟨_, .cons first rest⟩

namespace CheckSection

structure Valid (c : CheckSection) : Prop where
  command : c.command ≠ []
  languages : ∀ name ∈ c.languages, ∃ l, Language.ofId? name = some l

/-- What is kept of a check: its command, for the languages that it names. -/
structure KeptAs (c : CheckSection) (defaultSeconds : Option Nat) (kept : CustomCheck) : Prop where
  name : kept.name = c.name
  command : kept.command = c.command
  languages : c.languages.map Language.ofId? = kept.languages.map some
  passFiles : kept.passFiles = c.passFiles.getD true
  timeoutSeconds : kept.timeoutSeconds =
    (c.timeoutSeconds <|> defaultSeconds).getD Settings.defaultCheckSeconds

variable {c : CheckSection} {defaultSeconds : Option Nat} {kept : CustomCheck}

def language (c : CheckSection) (name : String) : Except SettingsFault Language :=
  match Language.ofId? name with
  | some l => .ok l
  | none => .error (.unknownLanguage c.name name)

theorem language_eq_ok_iff {name : String} {l : Language} :
    c.language name = .ok l ↔ Language.ofId? name = some l := by
  rw [language]
  cases Language.ofId? name <;> simp

theorem languages_eq_ok_iff {languages : List Language} :
    c.languages.mapM c.language = .ok languages ↔
      c.languages.map Language.ofId? = languages.map some := by
  rw [mapM_eq_ok_iff, ← List.forall₂_eq_eq_eq, List.forall₂_map_left_iff,
    List.forall₂_map_right_iff]
  simp only [language_eq_ok_iff]

theorem validate_eq (c : CheckSection) (defaultSeconds : Option Nat) :
    c.validate defaultSeconds =
      if c.command = [] then .error (.emptyCommand c.name)
      else (c.languages.mapM c.language).map fun languages => {
        name := c.name
        command := c.command
        languages
        passFiles := c.passFiles.getD true
        timeoutSeconds :=
          (c.timeoutSeconds <|> defaultSeconds).getD Settings.defaultCheckSeconds } := by
  have bind_ok {α β : Type} (x : Except SettingsFault α) (g : α → β) :
      (x >>= fun a => Except.ok (g a)) = x.map g := by
    cases x <;> rfl
  unfold validate language
  -- How names are understood plays no part.
  generalize Language.ofId? = known
  by_cases empty : c.command = []
  · simp [empty]
  · rw [if_neg empty, if_neg (by simpa using empty)]
    exact bind_ok _ _

theorem validate_eq_ok_iff :
    c.validate defaultSeconds = .ok kept ↔ c.command ≠ [] ∧ c.KeptAs defaultSeconds kept := by
  rw [validate_eq]
  constructor
  · intro valid
    split at valid
    case isTrue => cases valid
    case isFalse some_command =>
      cases found : c.languages.mapM c.language with
      | error e =>
          rw [found] at valid
          cases valid
      | ok languages =>
          rw [found] at valid
          cases valid
          exact ⟨some_command, rfl, rfl, languages_eq_ok_iff.mp found, rfl, rfl⟩
  · rintro ⟨some_command, keeps⟩
    rw [if_neg some_command, languages_eq_ok_iff.mpr keeps.languages, Except.map, ← keeps.name,
      ← keeps.command, ← keeps.passFiles, ← keeps.timeoutSeconds]

theorem exists_validate_iff (defaultSeconds : Option Nat) :
    (∃ kept, c.validate defaultSeconds = .ok kept) ↔ c.Valid := by
  constructor
  · rintro ⟨kept, valid⟩
    obtain ⟨some_command, keeps⟩ := validate_eq_ok_iff.mp valid
    refine ⟨some_command, fun name member => ?_⟩
    have among : Language.ofId? name ∈ kept.languages.map some :=
      keeps.languages ▸ List.mem_map_of_mem member
    obtain ⟨l, -, same⟩ := List.mem_map.mp among
    exact ⟨l, same.symm⟩
  · intro valid
    have known : ∀ name ∈ c.languages, ∃ l, c.language name = .ok l := by
      simpa only [language_eq_ok_iff] using valid.languages
    obtain ⟨languages, found⟩ := exists_mapM_eq_ok_iff.mpr known
    rw [validate_eq, if_neg valid.command, found]
    exact ⟨_, rfl⟩

end CheckSection

namespace Settings

variable {ov : Overrides} {root cwd : Path} {found : Option (Path × SettingsFile)}
  {settings : Settings} {t : FileTree}

def givenBy (found : Option (Path × SettingsFile)) : SettingsFile :=
  (found.map (·.2)).getD {}

theorem complete_eq_ok (ends : complete ov root found = .ok settings) :
    (givenBy found).checks.mapM (·.validate (givenBy found).timeoutSeconds) = .ok settings.checks ∧
      settings.root = root := by
  rw [complete] at ends
  dsimp only at ends
  rw [← givenBy] at ends
  split at ends
  case h_1 => cases ends
  case h_2 checks valid =>
    cases ends
    exact ⟨valid, rfl⟩

/-- Settings are complete exactly when their checks are valid. -/
theorem exists_complete_iff :
    (∃ settings, complete ov root found = .ok settings) ↔
      ∀ c ∈ (givenBy found).checks, c.Valid := by
  simp only [← CheckSection.exists_validate_iff (givenBy found).timeoutSeconds]
  rw [← exists_mapM_eq_ok_iff]
  constructor
  · rintro ⟨settings, ends⟩
    exact ⟨_, (complete_eq_ok ends).1⟩
  · rintro ⟨checks, valid⟩
    rw [complete]
    dsimp only
    rw [← givenBy, valid]
    exact ⟨_, rfl⟩

theorem checks_of_complete (ends : complete ov root found = .ok settings) :
    List.Forall₂ (fun c kept => c.command ≠ [] ∧ c.KeptAs (givenBy found).timeoutSeconds kept)
      (givenBy found).checks settings.checks := by
  have valid := mapM_eq_ok_iff.mp (complete_eq_ok ends).1
  exact valid.imp fun _ _ => CheckSection.validate_eq_ok_iff.mp

theorem command_ne_nil_of_complete (ends : complete ov root found = .ok settings)
    {check : CustomCheck} (member : check ∈ settings.checks) : check.command ≠ [] := by
  obtain ⟨lengths, kept⟩ := List.forall₂_iff_get.mp (checks_of_complete ends)
  obtain ⟨i, inside, rfl⟩ := List.getElem_of_mem member
  obtain ⟨some_command, keeps⟩ := kept i (lengths ▸ inside) inside
  exact fun empty => some_command (keeps.command ▸ empty)

theorem find_eq_ok_iff :
    find t ov cwd = .ok settings ↔
      ∃ found, t.loadSettings (t.findRoot (absoluteStart ov.startDir cwd)) = .ok found ∧
        complete ov (t.findRoot (absoluteStart ov.startDir cwd)) found = .ok settings := by
  rw [find]
  cases t.loadSettings (t.findRoot (absoluteStart ov.startDir cwd)) with
  | error e => simp [bind, Except.bind]
  | ok found => simp [bind, Except.bind]

theorem find_eq_of_toOption (found : (find t ov cwd).toOption = some settings) :
    find t ov cwd = .ok settings := by
  cases answer : find t ov cwd with
  | error fault =>
      rw [answer] at found
      cases found
  | ok given =>
      rw [answer] at found
      cases found
      rfl

end Settings

end LintGate

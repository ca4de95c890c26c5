import LintGate.Proofs.Settings.Checks

/-!
# Sections of languages

A language may be named in several ways, so a document may hold several sections for it. The last of
them takes the place of those before it: what it leaves out is not taken from an earlier one but
left to the defaults.
-/

namespace LintGate

theorem lookup_filter {α β : Type} [BEq α] [LawfulBEq α] (keep : α → Bool) {a : α}
    (kept : keep a = true) (xs : List (α × β)) :
    (xs.filter fun x => keep x.1).lookup a = xs.lookup a := by
  induction xs with
  | nil => rfl
  | cons x xs ih =>
      obtain ⟨b, y⟩ := x
      rw [List.filter_cons, List.lookup_cons]
      cases same : a == b with
      | true =>
          have keptHere : keep b = true := eq_of_beq same ▸ kept
          rw [if_pos keptHere, List.lookup_cons, same]
      | false =>
          split
          · rw [List.lookup_cons, same, ih]
          · rw [ih]

theorem lookup_zip {α β : Type} [BEq α] [LawfulBEq α] {a : α} {names : List α}
    (known : a ∈ names) (items : List β) :
    (names.zip items).lookup a = items[names.idxOf a]? := by
  induction names generalizing items with
  | nil => cases known
  | cons name names ih =>
      cases items with
      | nil => simp
      | cons item items =>
          rw [List.zip_cons_cons, List.lookup_cons]
          by_cases same : a = name
          · simp [same]
          · have later : a ∈ names := (List.mem_cons.mp known).resolve_left same
            rw [List.idxOf_cons_ne names (Ne.symm same), List.getElem?_cons_succ, ← ih later,
              beq_false_of_ne same]

namespace Document

/-- A field of a structure that is written as a record, or as a sequence with the field at a
place. -/
def fieldAt? (name : String) (place : Nat) : Document → Option Document
  | .record fields => fields.lookup (some name)
  | .sequence items => items[place]?
  | _ => none

theorem lookup_of_mapM_named {fields : List (Option String × Document)}
    {named : List (String × Document)} (name : String)
    (read : (fields.mapM fun f => f.1.map fun name => (name, f.2)) = some named) :
    named.lookup name = fields.lookup (some name) := by
  induction fields generalizing named with
  | nil =>
      cases read
      rfl
  | cons field fields ih =>
      obtain ⟨key, value⟩ := field
      simp only [List.mapM_cons, Option.bind_eq_bind, Option.bind_eq_some_iff, Option.pure_def,
        Option.map_eq_some_iff, Option.some.injEq] at read
      obtain ⟨_, ⟨other, rfl, rfl⟩, rest, others, rfl⟩ := read
      rw [List.lookup_cons, List.lookup_cons, ih others]
      rfl

/-- A known field is found by its name in a record, and at its place in a sequence. -/
theorem lookup_of_asStructure {specs : List FieldSpec} {d : Document}
    {fields : List (String × Document)} {name : String}
    (known : name ∈ specs.map FieldSpec.name) (read : asStructure specs d = some fields) :
    fields.lookup name = d.fieldAt? name ((specs.map FieldSpec.name).idxOf name) := by
  cases d with
  | record entries =>
      simp only [asStructure, Option.bind_eq_bind, Option.bind_eq_some_iff] at read
      obtain ⟨named, all, once⟩ := read
      split at once
      case isFalse => cases once
      case isTrue =>
        cases once
        have kept : (specs.any fun spec => spec.name == name) = true := by
          obtain ⟨spec, member, same⟩ := List.mem_map.mp known
          exact List.any_eq_true.mpr ⟨spec, member, beq_iff_eq.mpr same⟩
        rw [lookup_filter (fun other => specs.any (·.name == other)) kept,
          lookup_of_mapM_named name all, fieldAt?]
  | sequence items =>
      rw [asStructure] at read
      split at read
      · cases read
      · split at read
        · cases read
          exact lookup_zip known items
        · cases read
  | plain s tag =>
      rw [asStructure] at read
      split at read
      · cases read
        rfl
      · cases read
  | null | bool | integer | float | text => cases read

end Document

namespace Language

/-- The names under which a language is accepted. -/
def names (l : Language) : List String :=
  l.id :: l.aliases

theorem ofExactId?_eq_some_iff {name : String} {l : Language} :
    ofExactId? name = some l ↔ name ∈ l.names := by
  constructor
  · intro found
    have accepted := List.find?_some found
    simpa [names, word_eq_id] using accepted
  · intro named
    have aliased : ∀ l ∈ all, ∀ name ∈ l.aliases, ofExactId? name = some l := by decide
    rcases List.mem_cons.mp named with rfl | other
    · exact ofExactId?_id l
    · exact aliased l l.mem_all name other

end Language

/-! ## The last section counts -/

/-- What an entry says about a language. -/
def sectionOf? (l : Language) (entry : Option String × Document) : Option LanguageSection :=
  if entry.1.any (· ∈ l.names) then LanguageSection.ofDocument entry.2 else none

/-- The sections of a settings file for a language, in order. -/
def Document.sectionsOf (d : Document) (l : Language) : List LanguageSection :=
  (((d.fieldAt? "languages" 9).bind Document.asEntries).getD []).filterMap (sectionOf? l)

def addSection (sections : List (Language × LanguageSection)) (entry : Option String × Document) :
    Option (List (Language × LanguageSection)) := do
  let name ← entry.1
  let l ← Language.ofExactId? name
  let given ← LanguageSection.ofDocument entry.2
  some (putSection l given sections)

theorem lookup_putSection (l other : Language) (given : LanguageSection)
    (sections : List (Language × LanguageSection)) :
    (putSection l given sections).lookup other =
      if other = l then some given else sections.lookup other := by
  rw [putSection, List.lookup_cons]
  by_cases same : other = l
  · simp [same]
  · have kept : decide (other ≠ l) = true := decide_eq_true same
    rw [if_neg same, beq_false_of_ne same, lookup_filter (fun x => decide (x ≠ l)) kept]

theorem lookup_addSection {sections after : List (Language × LanguageSection)}
    {entry : Option String × Document} (added : addSection sections entry = some after)
    (l : Language) : after.lookup l = (sectionOf? l entry).or (sections.lookup l) := by
  obtain ⟨key, value⟩ := entry
  simp only [addSection, Option.bind_eq_bind, Option.bind_eq_some_iff, Option.some.injEq] at added
  obtain ⟨name, rfl, named, known, given, read, rfl⟩ := added
  have accepted : decide (name ∈ l.names) = decide (l = named) := by
    rw [decide_eq_decide, ← Language.ofExactId?_eq_some_iff, known, Option.some.injEq, eq_comm]
  rw [lookup_putSection, sectionOf?, read, Option.any_some, accepted]
  by_cases same : l = named
  · simp [same]
  · simp [same]

theorem lookup_foldlM_addSection {entries : List (Option String × Document)}
    {sections after : List (Language × LanguageSection)}
    (added : entries.foldlM addSection sections = some after) (l : Language) :
    after.lookup l = (entries.filterMap (sectionOf? l)).getLast?.or (sections.lookup l) := by
  induction entries generalizing sections with
  | nil =>
      cases added
      rfl
  | cons entry entries ih =>
      rw [List.foldlM_cons, Option.bind_eq_bind, Option.bind_eq_some_iff] at added
      obtain ⟨between, first, rest⟩ := added
      rw [ih rest, lookup_addSection first, ← Option.or_assoc]
      cases here : sectionOf? l entry with
      | none => rw [List.filterMap_cons_none here, Option.or_none]
      | some given =>
          rw [List.filterMap_cons_some here, List.getLast?_cons]
          cases (entries.filterMap (sectionOf? l)).getLast? with
          | none => rfl
          | some last => rfl

/-- Every entry of a document that is accepted is a section of a language. -/
theorem exists_section_of_foldlM {entries : List (Option String × Document)}
    {sections after : List (Language × LanguageSection)}
    (added : entries.foldlM addSection sections = some after) {name : Option String}
    {body : Document} (member : (name, body) ∈ entries) :
    ∃ word l own, name = some word ∧ Language.ofExactId? word = some l ∧
      sectionOf? l (name, body) = some own := by
  induction entries generalizing sections with
  | nil => cases member
  | cons entry entries ih =>
      rw [List.foldlM_cons, Option.bind_eq_bind, Option.bind_eq_some_iff] at added
      obtain ⟨between, first, rest⟩ := added
      rcases List.mem_cons.mp member with rfl | later
      · simp only [addSection, Option.bind_eq_bind, Option.bind_eq_some_iff] at first
        obtain ⟨word, rfl, l, known, own, read, -⟩ := first
        refine ⟨word, l, own, rfl, known, ?_⟩
        rw [sectionOf?, Option.any_some,
          if_pos (decide_eq_true (Language.ofExactId?_eq_some_iff.mp known)), read]
      · exact ih rest later

/-- The entries of a settings file that are sections of languages. -/
def Document.languageEntries (d : Document) : List (Option String × Document) :=
  ((d.fieldAt? "languages" 9).bind Document.asEntries).getD []

namespace SettingsFile

variable {d : Document} {given : SettingsFile}

theorem foldlM_languageEntries (read : SettingsFile.ofDocument d = some given) :
    d.languageEntries.foldlM addSection [] = some given.languages := by
  rw [SettingsFile.ofDocument] at read
  obtain ⟨fields, whole, read⟩ := Option.bind_eq_some_iff.mp read
  -- The fields that come before the languages, and then those behind them.
  iterate 9 obtain ⟨_, -, read⟩ := Option.bind_eq_some_iff.mp read
  obtain ⟨languages, sections, read⟩ := Option.bind_eq_some_iff.mp read
  iterate 2 obtain ⟨_, -, read⟩ := Option.bind_eq_some_iff.mp read
  cases read
  have found : fields.lookup "languages" = d.fieldAt? "languages" 9 :=
    Document.lookup_of_asStructure (by decide) whole
  rw [Document.fieldOr, found] at sections
  rw [Document.languageEntries]
  cases there : d.fieldAt? "languages" 9 with
  | none =>
      rw [there] at sections
      cases sections
      rfl
  | some inner =>
      rw [there] at sections
      have folded : inner.asEntries.bind (fun entries => entries.foldlM addSection []) =
          some languages := sections
      obtain ⟨entries, given, added⟩ := Option.bind_eq_some_iff.mp folded
      rw [Option.bind_some, given, Option.getD_some, added]

theorem lookup_languages (read : SettingsFile.ofDocument d = some given) (l : Language) :
    given.languages.lookup l = (d.sectionsOf l).getLast? := by
  rw [lookup_foldlM_addSection (foldlM_languageEntries read), List.lookup_nil, Option.or_none]
  rfl

end SettingsFile

/-! ## Settings of a section -/

/-- What a section can say about its language. -/
inductive SectionField where
  | enabled
  | formatter
  | linter
  | autofix
  | unfixable
  | timeoutSeconds

namespace SectionField

abbrev Value : SectionField → Type
  | enabled => Bool
  | formatter => String
  | linter => String
  | autofix => Bool
  | unfixable => List String
  | timeoutSeconds => Nat

def given : (field : SectionField) → LanguageSection → Option field.Value
  | enabled => LanguageSection.enabled
  | formatter => LanguageSection.formatter
  | linter => LanguageSection.linter
  | autofix => LanguageSection.autofix
  | unfixable => LanguageSection.unfixable
  | timeoutSeconds => LanguageSection.timeoutSeconds

/-- What a run goes by. -/
def effective : (field : SectionField) → LanguageSettings → Option field.Value
  | enabled => fun s => some s.enabled
  | formatter => LanguageSettings.formatter
  | linter => LanguageSettings.linter
  | autofix => fun s => some s.autofix
  | unfixable => LanguageSettings.unfixable
  | timeoutSeconds => LanguageSettings.timeoutSeconds

/-- What holds for a language of which no section says otherwise. -/
def fallback : (field : SectionField) → Settings → Option field.Value
  | enabled => fun _ => some true
  | formatter => fun _ => none
  | linter => fun _ => none
  | autofix => fun _ => some false
  | unfixable => fun _ => none
  | timeoutSeconds => Settings.timeoutSeconds

theorem effective_language (field : SectionField) (s : Settings) (l : Language) :
    field.effective (s.language l) =
      ((s.languages.lookup l).bind field.given).or (field.fallback s) := by
  have nothing : field.given {} = none := by cases field <;> rfl
  have said : (s.languages.lookup l).bind field.given =
      field.given ((s.languages.lookup l).getD {}) := by
    cases s.languages.lookup l with
    | none => rw [Option.bind_none, Option.getD_none, nothing]
    | some _ => rfl
  rw [said]
  cases field with
  | enabled => exact Option.or_some.symm
  | formatter => exact Option.or_none.symm
  | linter => exact Option.or_none.symm
  | autofix => exact Option.or_some.symm
  | unfixable => exact Option.or_none.symm
  | timeoutSeconds => exact Option.orElse_eq_or

end SectionField

namespace Settings

variable {d : Document} {given : SettingsFile} {ov : Overrides} {root file : Path}
  {settings : Settings}

theorem languages_of_complete (ends : complete ov root (some (file, given)) = .ok settings) :
    settings.languages = given.languages := by
  rw [complete] at ends
  dsimp only [Option.map_some, Option.getD_some] at ends
  split at ends
  case h_1 => cases ends
  case h_2 =>
    cases ends
    rfl

/-- The last section of a language alone is heard. So what a single section says about something
holds exactly when it is the last one that says it, or when it says what would hold without it. -/
theorem language_hears_last_section (read : SettingsFile.ofDocument d = some given)
    (ends : complete ov root (some (file, given)) = .ok settings) (l : Language)
    (field : SectionField) :
    field.effective (settings.language l) =
        ((d.sectionsOf l).getLast?.bind field.given).or (field.fallback settings) ∧
      ∀ v, (d.sectionsOf l).filterMap field.given = [v] →
        (field.effective (settings.language l) = some v ↔
          (d.sectionsOf l).getLast?.bind field.given = some v ∨
            field.fallback settings = some v) := by
  have heard : field.effective (settings.language l) =
      ((d.sectionsOf l).getLast?.bind field.given).or (field.fallback settings) := by
    rw [field.effective_language, languages_of_complete ends, SettingsFile.lookup_languages read]
  refine ⟨heard, ?_⟩
  intro v single
  rw [heard]
  cases last : (d.sectionsOf l).getLast?.bind field.given with
  | none => simp
  | some w =>
      obtain ⟨sec, final, said⟩ := Option.bind_eq_some_iff.mp last
      have among : w ∈ (d.sectionsOf l).filterMap field.given :=
        List.mem_filterMap.mpr ⟨sec, List.mem_of_getLast? final, said⟩
      rw [single] at among
      rw [List.mem_singleton.mp among, Option.some_or]
      simp

theorem language_hears_last_section_of_aliases :
    let d := Document.record [(some "languages", .record [
      (some "js", .record [(some "formatter", .text "prettier"), (some "autofix", .bool true)]),
      (some "typescript", .record [(some "linter", .text "eslint")])])]
    let given : SettingsFile :=
      { languages := [(.javascript, { linter := some "eslint" })] }
    let settings : Settings :=
      { root := "/", file := some ".smart-lint.yaml", languages := given.languages }
    SettingsFile.ofDocument d = some given ∧
      complete {} "/" (some (".smart-lint.yaml", given)) = .ok settings ∧
      (settings.language .javascript).linter = some "eslint" ∧
      (settings.language .javascript).formatter ≠ some "prettier" ∧
      (settings.language .javascript).autofix ≠ true := by
  intro d given settings
  have read : SettingsFile.ofDocument d = some given := by decide +kernel
  have ends : complete {} "/" (some (".smart-lint.yaml", given)) = .ok settings := rfl
  have heard (field : SectionField) := language_hears_last_section read ends .javascript field
  refine ⟨read, ends, ?_, ?_, ?_⟩
  · exact ((heard .linter).2 "eslint" (by decide +kernel)).mpr (.inl (by decide +kernel))
  · intro kept
    have told := ((heard .formatter).2 "prettier" (by decide +kernel)).mp kept
    revert told
    decide +kernel
  · intro kept
    have told := ((heard .autofix).2 true (by decide +kernel)).mp (congrArg some kept)
    revert told
    decide +kernel

/-- Two sections for one language, the later under a name of its own. -/
def aliasedSections : String :=
  "[languages.js]\nformatter = \"prettier\"\n\n[languages.ts]\nlinter = \"eslint\"\n"

def aliasedTree : FileTree :=
  ⟨.dir [(".smart-lint.toml", .file (Text.encode aliasedSections) 0o644)], []⟩

theorem language_forgets_earlier_section :
    ((Toml.document? aliasedSections).map fun d =>
        (d.sectionsOf .javascript).filterMap LanguageSection.formatter) = some ["prettier"] ∧
      ((find aliasedTree {} "/").toOption.map fun s => (s.language .javascript).formatter) =
        some none := by
  decide +kernel

end Settings

end LintGate

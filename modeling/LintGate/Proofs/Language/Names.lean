import LintGate.Proofs.Settings.Languages

/-!
# Names of languages

People may write the name of a language in capitals and with blanks around it, documents may not.
Apart from that the two ways of reading a name agree, so a section of a language and a check that
names it in the same spelling are about one language.
-/

namespace LintGate

namespace Language

/-- A name without the blanks around it and in small letters. -/
def plainName (name : String) : String :=
  Text.asciiLower (Text.trim name)

/-- Both ways of reading a name know the same plain names. -/
theorem ofId?_eq (name : String) : ofId? name = ofExactId? (plainName name) := by
  rw [ofId?, ← plainName]
  generalize plainName name = plain
  split
  case h_4 _ noTypescript noJs noTs =>
    have noAlias (l : Language) : l.aliases.contains plain = false := by
      cases l with
      | javascript =>
          rw [List.contains_eq_mem, decide_eq_false_iff_not]
          simpa [aliases] using ⟨noTypescript, noJs, noTs⟩
      | _ => rfl
    simp only [ofExactId?, noAlias, Bool.or_false, word_eq_id, Bool.beq_comm]
  all_goals decide

theorem plainName_eq_self {l : Language} {name : String} (named : name ∈ l.names) :
    plainName name = name := by
  have checked : ∀ l ∈ all, ∀ name ∈ l.names, plainName name = name := by decide
  exact checked l l.mem_all name named

theorem ofExactId?_eq_some_iff_plain {name : String} {l : Language} :
    ofExactId? name = some l ↔ plainName name = name ∧ ofId? name = some l := by
  rw [ofId?_eq]
  constructor
  · intro known
    have plain := plainName_eq_self (ofExactId?_eq_some_iff.mp known)
    rw [plain]
    exact ⟨rfl, known⟩
  · rintro ⟨plain, known⟩
    rwa [plain] at known

theorem ofExactId?_word (l : Language) : ofExactId? l.word = some l := by
  rw [word_eq_id, ofExactId?_id]

theorem ofId?_of_ofExactId? {name : String} {l : Language} (known : ofExactId? name = some l) :
    ofId? name = some l :=
  (ofExactId?_eq_some_iff_plain.mp known).2

end Language

namespace Settings

variable {d : Document} {given : SettingsFile} {ov : Overrides} {root file : Path}
  {settings : Settings}

theorem keptAs_of_complete (ends : complete ov root (some (file, given)) = .ok settings) {j : Nat}
    {c : CheckSection} {kept : CustomCheck} (listed : given.checks[j]? = some c)
    (stands : settings.checks[j]? = some kept) : c.KeptAs given.timeoutSeconds kept := by
  obtain ⟨-, told⟩ := List.forall₂_iff_get.mp (checks_of_complete ends)
  obtain ⟨inside, rfl⟩ := List.getElem?_eq_some_iff.mp listed
  obtain ⟨inside', rfl⟩ := List.getElem?_eq_some_iff.mp stands
  exact (told j inside inside').2

/-- A name that a check lists stands for the language that it is read as. -/
theorem language_of_keptAs {c : CheckSection} {defaultSeconds : Option Nat} {kept : CustomCheck}
    (keeps : c.KeptAs defaultSeconds kept) {i : Nat} {name : String}
    (listed : c.languages[i]? = some name) : kept.languages[i]? = Language.ofId? name := by
  have same := congrArg (·[i]?) keeps.languages
  simp only [List.getElem?_map, listed, Option.map_some] at same
  cases there : kept.languages[i]? with
  | none =>
      rw [there] at same
      cases same
  | some l =>
      rw [there, Option.map_some, Option.some.injEq] at same
      exact same.symm

/-- The two ways of reading a name of a language agree up to blanks around it and capital letters,
which documents may not use; each understands the word for every language. So in settings that are
accepted, a section and a check that names its language in the same spelling are about one
language. -/
theorem names_denote_one_language :
    (∀ name, Language.ofId? name = Language.ofExactId? (Language.plainName name)) ∧
    (∀ name, (∃ l, Language.ofExactId? name = some l) ↔
      Language.plainName name = name ∧ ∃ l, Language.ofId? name = some l) ∧
    (∀ l : Language, Language.ofExactId? l.word = some l ∧ Language.ofId? l.word = some l ∧
      Language.ofId? l.id = some l) ∧
    (∀ name l m, Language.ofExactId? name = some l → Language.ofId? name = some m → m = l) ∧
    ∀ (d : Document) (given : SettingsFile) (ov : Overrides) (root file : Path)
      (settings : Settings), SettingsFile.ofDocument d = some given →
      complete ov root (some (file, given)) = .ok settings →
      ∀ name body, (name, body) ∈ d.languageEntries → ∃ word l own, name = some word ∧
        sectionOf? l (name, body) = some own ∧
        (∃ heard, settings.languages.lookup l = some heard) ∧
        ∀ (j i : Nat) c kept, given.checks[j]? = some c → settings.checks[j]? = some kept →
          c.languages[i]? = some word → kept.languages[i]? = some l := by
  refine ⟨Language.ofId?_eq, ?_, ?_, ?_, ?_⟩
  · intro name
    simp only [Language.ofExactId?_eq_some_iff_plain, exists_and_left]
  · intro l
    have known := Language.ofExactId?_word l
    have understood := Language.ofId?_of_ofExactId? known
    exact ⟨known, understood, l.word_eq_id ▸ understood⟩
  · intro name l m known understood
    rw [Language.ofId?_of_ofExactId? known] at understood
    exact (Option.some.inj understood).symm
  · intro d given ov root file settings read ends name body member
    obtain ⟨word, l, own, rfl, known, section_of⟩ :=
      exists_section_of_foldlM (SettingsFile.foldlM_languageEntries read) member
    refine ⟨word, l, own, rfl, section_of, ?_, ?_⟩
    · have among : own ∈ d.sectionsOf l := List.mem_filterMap.mpr ⟨_, member, section_of⟩
      rw [languages_of_complete ends, SettingsFile.lookup_languages read]
      exact ⟨_, List.getLast?_eq_some_getLast (List.ne_nil_of_mem among)⟩
    · intro j i c kept listed stands names
      rw [language_of_keptAs (keptAs_of_complete ends listed stands) names]
      exact Language.ofId?_of_ofExactId? known

/-- A section for a language, and a check that names it in the same way after another one. -/
def namedSettings : Document :=
  .record [(some "languages", .record [(some "ts", .record [(some "linter", .text "eslint")])]),
    (some "checks", .sequence [
      .record [(some "name", .text "types"), (some "command", .sequence [.text "tsc"]),
        (some "languages", .sequence [.text " Go", .text "ts"])]])]

theorem names_denote_one_language_of_alias :
    let given : SettingsFile :=
      { languages := [(.javascript, { linter := some "eslint" })]
        checks := [⟨"types", ["tsc"], [" Go", "ts"], none, none⟩] }
    let settings : Settings :=
      { root := "/", file := some ".smart-lint.yaml", languages := given.languages
        checks := [⟨"types", ["tsc"], [.go, .javascript], true, 120⟩] }
    SettingsFile.ofDocument namedSettings = some given ∧
      complete {} "/" (some (".smart-lint.yaml", given)) = .ok settings ∧
      (∃ l, settings.languages.lookup l ≠ none ∧
        ((settings.checks[0]?).bind fun check => check.languages[1]?) = some l) ∧
      Language.ofId? "\u2003TypeScript\n" = some .javascript ∧
      ¬ ∃ l, Language.ofExactId? "TypeScript" = some l := by
  intro given settings
  have read : SettingsFile.ofDocument namedSettings = some given := by decide +kernel
  have ends : complete {} "/" (some (".smart-lint.yaml", given)) = .ok settings := rfl
  obtain ⟨read_alike, exact_iff, -, -, in_settings⟩ := names_denote_one_language
  have sections : namedSettings.languageEntries =
      [(some "ts", .record [(some "linter", .text "eslint")])] := rfl
  obtain ⟨word, l, own, named, -, ⟨heard, found⟩, listed⟩ := in_settings namedSettings given {} "/"
    ".smart-lint.yaml" settings read ends _ _ (sections ▸ List.mem_singleton_self _)
  obtain rfl := Option.some.inj named
  refine ⟨read, ends, ⟨l, by simp [found], ?_⟩, ?_, ?_⟩
  · exact listed 0 1 _ _ rfl rfl rfl
  · rw [read_alike]
    decide
  · rw [exact_iff]
    rintro ⟨plain, -⟩
    revert plain
    decide

end Settings

end LintGate

import LintGate.Detection

/-!
# Extensions of languages

No extension belongs to two languages, so no file name is claimed by two. Detection and selection
read names alike: a language applies to files exactly when one of them is a marker of the language
or is claimed by it.
-/

namespace LintGate

namespace Profile

theorem claims_iff {p : Profile} {fileName : String} :
    p.claims fileName = true ↔ ∃ found, extensionOf? fileName = some found ∧
      ∃ suffix ∈ p.extensions, Text.asciiLower suffix = Text.asciiLower found := by
  rw [claims]
  cases extensionOf? fileName with
  | none => simp
  | some found => simp [Text.sameIgnoringCase_iff]

end Profile

namespace Language

theorem eq_of_common_extension {a b : Language} {s t : String} (inA : s ∈ a.profile.extensions)
    (inB : t ∈ b.profile.extensions) (same : Text.asciiLower s = Text.asciiLower t) : a = b := by
  have checked : ∀ a ∈ all, ∀ b ∈ all, ∀ s ∈ a.profile.extensions, ∀ t ∈ b.profile.extensions,
      Text.asciiLower s = Text.asciiLower t → a = b := by decide +kernel
  exact checked a a.mem_all b b.mem_all s inA t inB same

/-- No file name is claimed by two languages. -/
theorem eq_of_claims {a b : Language} {fileName : String}
    (claimsA : a.profile.claims fileName = true)
    (claimsB : b.profile.claims fileName = true) : a = b := by
  obtain ⟨found, extension, s, inA, sameA⟩ := Profile.claims_iff.mp claimsA
  obtain ⟨found', extension', t, inB, sameB⟩ := Profile.claims_iff.mp claimsB
  cases extension.symm.trans extension'
  exact eq_of_common_extension inA inB (sameA.trans sameB.symm)

end Language

namespace TreeIndex

/-- A language applies when some file has the name of one of its markers or a name that it
claims. -/
theorem shows_iff {p : Profile} {paths : List Path} :
    (ofPaths paths).shows p = true ↔ ∃ path ∈ paths, ∃ name, path.shownName? = some name ∧
      (name ∈ p.markers ∨ p.claims name = true) := by
  rw [shows, List.any_eq_true]
  constructor
  · rintro ⟨rule, member, holds⟩
    rcases List.mem_append.mp member with marker | extension
    · obtain ⟨name, inside, rfl⟩ := List.mem_map.mp marker
      rw [satisfies, List.contains_iff_mem] at holds
      obtain ⟨path, among, named⟩ := List.mem_filterMap.mp holds
      exact ⟨path, among, name, named, .inl inside⟩
    · obtain ⟨suffix, inside, rfl⟩ := List.mem_map.mp extension
      rw [satisfies, List.contains_iff_mem] at holds
      obtain ⟨found, listed, same⟩ := List.mem_map.mp holds
      obtain ⟨name, known, carries⟩ := List.mem_filterMap.mp listed
      obtain ⟨path, among, named⟩ := List.mem_filterMap.mp known
      have claims := Profile.claims_iff.mpr ⟨found, carries, suffix, inside, same.symm⟩
      exact ⟨path, among, name, named, .inr claims⟩
  · rintro ⟨path, member, name, named, marker | claims⟩
    · refine ⟨.marker name, List.mem_append_left _ (List.mem_map_of_mem marker), ?_⟩
      rw [satisfies, List.contains_iff_mem]
      exact List.mem_filterMap.mpr ⟨path, member, named⟩
    · obtain ⟨found, carries, suffix, inside, same⟩ := Profile.claims_iff.mp claims
      refine ⟨.extension suffix, List.mem_append_right _ (List.mem_map_of_mem inside), ?_⟩
      have known : name ∈ paths.filterMap Path.shownName? :=
        List.mem_filterMap.mpr ⟨path, member, named⟩
      rw [satisfies, List.contains_iff_mem, same]
      exact List.mem_map_of_mem (List.mem_filterMap.mpr ⟨name, known, carries⟩)

/-- More files make a language apply all the more. -/
theorem shows_of_subset {p : Profile} {paths others : List Path} (within : paths ⊆ others)
    (shown : (ofPaths paths).shows p = true) : (ofPaths others).shows p = true := by
  obtain ⟨path, member, named⟩ := shows_iff.mp shown
  exact shows_iff.mpr ⟨path, within member, named⟩

/-- A file that a language claims makes the language apply. -/
theorem mem_languages_of_claims {l : Language} {paths : List Path} {p : Path} {name : String}
    (member : p ∈ paths) (named : p.shownName? = some name)
    (claims : l.profile.claims name = true) :
    l ∈ (ofPaths paths).languages :=
  mem_languages.mpr (shows_iff.mpr ⟨p, member, name, named, .inr claims⟩)

end TreeIndex

end LintGate

import ScimQuery.Proofs.Path.Places
import ScimQuery.Proofs.Path.RoundTrip

/-!
# Path — attributes qualified by a schema

A schema is `urn` and one segment or more behind colons, where a segment may have dots inside, as
in the number of a version.  An attribute behind a schema and a colon is read as an attribute of
this schema just if the schema has no dot (`parsePath_qualified`): a dot ends the first name of a
path before the schema is looked for in this name, so that a schema that is read has none.
-/

namespace ScimQuery

open Text (isNameChar isWordChar)

namespace Path

/-- A segment of a schema: characters of names, no colon, and dots inside only. -/
structure IsSegment (s : String) : Prop where
  ne_empty : s ≠ ""
  chars : ∀ c ∈ s.toList, isWordChar c = true ∧ c ≠ ':'
  head : s.toList.head? ≠ some '.'
  last : s.toList.getLast? ≠ some '.'

instance (s : String) : Decidable (IsSegment s) :=
  decidable_of_iff
    (s ≠ "" ∧ s.toList.all (fun c => isWordChar c && c != ':') = true ∧
      s.toList.head? ≠ some '.' ∧ s.toList.getLast? ≠ some '.')
    ⟨fun ⟨hne, hchars, hhead, hlast⟩ => ⟨hne, by simpa using hchars, hhead, hlast⟩,
      fun h => ⟨h.ne_empty, by simpa using h.chars, h.head, h.last⟩⟩

/-- The characters of a schema. -/
def schemaChars (segments : List String) : List Char :=
  "urn".toList ++ segments.flatMap fun s => ':' :: s.toList

variable {segments : List String} {urn name : String}

theorem isWordChar_of_mem_schemaChars (h : ∀ s ∈ segments, IsSegment s) :
    ∀ c ∈ schemaChars segments, isWordChar c = true := by
  intro c hc
  rcases List.mem_append.mp hc with hc | hc
  · exact List.all_eq_true.mp (by decide +kernel : "urn".toList.all isWordChar = true) c hc
  · obtain ⟨s, hs, hc⟩ := List.mem_flatMap.mp hc
    rcases List.mem_cons.mp hc with rfl | hc
    · exact isWordChar_colon
    · exact ((h s hs).chars c hc).1

/-- A schema starts with `urn` and a colon. -/
theorem hasSchema_schemaChars (hne : segments ≠ []) :
    hasSchema (schemaChars segments ++ [':']) := by
  obtain ⟨s, more, rfl⟩ := List.exists_cons_of_ne_nil hne
  exact hasSchema_iff.mpr ⟨"urn".toList, _, by simp [schemaChars]; rfl, by decide⟩

/-- An attribute of an extension that is read has a schema of name characters. -/
theorem isNameChar_of_parsePath {limits : Limits} {text : String}
    (h : parsePath limits text = .ok (extensionAttribute urn name)) :
    ∀ c ∈ urn.toList, isNameChar c = true := by
  have hreadable := readable_of_parsePath h
  cases hreadable with
  | sub _ htakes => exact htakes.2.1

/-- An attribute of an extension that is well-formed is read from its text. -/
theorem parsePath_chars {limits : Limits} {p : Path} (hp : p.WellFormed)
    (hallows : limits.Allows p.chars) : parsePath limits p.text = .ok p := by
  rw [Path.text, parsePath_word hp.chars_word.2 hallows, ofWord_chars hp]

end Path

/-- **An attribute behind a schema and a colon is read as an attribute of this schema just if the
schema has no dot.** -/
theorem parsePath_qualified (limits : Limits) (segments : List String) (name : String)
    (hne : segments ≠ []) (hsegments : ∀ s ∈ segments, Path.IsSegment s)
    (hname : Path.IsName name) (hcolon : ':' ∉ name.toList)
    (hallows : limits.Allows (Path.schemaChars segments ++ ':' :: name.toList)) :
    parsePath limits (String.ofList (Path.schemaChars segments ++ ':' :: name.toList)) =
        .ok (.extensionAttribute (String.ofList (Path.schemaChars segments)) name) ↔
      '.' ∉ Path.schemaChars segments := by
  constructor
  · intro h hdot
    have hchar := Path.isNameChar_of_parsePath h '.' (by simpa using hdot)
    rw [Text.isNameChar_dot] at hchar
    cases hchar
  · intro hdot
    have hwf : (Path.extensionAttribute (String.ofList (Path.schemaChars segments))
        name).WellFormed := by
      refine Path.wellFormed_sub_root.mpr ⟨hname, ?_, ?_, by simpa using hcolon⟩
      · intro c hc
        rw [String.toList_ofList] at hc
        have hword := Path.isWordChar_of_mem_schemaChars hsegments c hc
        have hc' : c ≠ '.' := fun heq => hdot (heq ▸ hc)
        simpa [isWordChar, hc'] using hword
      · rw [String.toList_ofList]
        exact Path.hasSchema_schemaChars hne
    have hchars : (Path.extensionAttribute (String.ofList (Path.schemaChars segments)) name).chars =
        Path.schemaChars segments ++ ':' :: name.toList := by
      rw [Path.extensionAttribute, Path.chars_sub, Path.extension, Path.stem_root_some,
        String.toList_ofList, List.append_assoc, List.singleton_append]
    rw [← hchars] at hallows ⊢
    exact Path.parsePath_chars hwf hallows

/-- A schema without a version is kept apart from the attribute. -/
theorem parsePath_qualified_core :
    parsePath {} "urn:ietf:params:scim:schemas:core:User:userName" =
      .ok (.extensionAttribute "urn:ietf:params:scim:schemas:core:User" "userName") := by
  have hread := parsePath_qualified {} ["ietf", "params", "scim", "schemas", "core", "User"]
    "userName" (by simp) (by decide +kernel) (by decide +kernel) (by decide)
    (by simp [Limits.Allows])
  exact hread.mpr (by decide)

/-- A schema with a version is cut at the dot: the reader takes it for two attributes of a shorter
schema. -/
theorem parsePath_versioned :
    (∀ s ∈ ["ietf", "params", "scim", "schemas", "extension", "enterprise", "2.0", "User"],
      Path.IsSegment s) ∧ Path.IsName "manager" ∧ ':' ∉ "manager".toList ∧
    ∃ p, parsePath {} "urn:ietf:params:scim:schemas:extension:enterprise:2.0:User:manager" = .ok p ∧
      p.urn = some "urn:ietf:params:scim:schemas:extension:enterprise" ∧
      p.elements.map Prod.fst = ["2", "0:User:manager"] ∧
      p ≠ .extensionAttribute "urn:ietf:params:scim:schemas:extension:enterprise:2.0:User"
        "manager" := by
  refine ⟨by decide +kernel, by decide +kernel, by decide, ?_⟩
  have hread : (parsePath {} "urn:ietf:params:scim:schemas:extension:enterprise:2.0:User:manager"
      ).toOption.map (fun p => (p.urn, p.elements.map Prod.fst)) =
      some (some "urn:ietf:params:scim:schemas:extension:enterprise", ["2", "0:User:manager"]) := by
    decide +kernel
  obtain ⟨p, hp, hfacts⟩ := Option.map_eq_some_iff.mp hread
  rw [Text.toOption_eq_some_iff] at hp
  obtain ⟨hurn, helements⟩ := Prod.mk.inj hfacts
  refine ⟨p, hp, hurn, helements, ?_⟩
  rintro rfl
  exact absurd helements (by decide)

end ScimQuery

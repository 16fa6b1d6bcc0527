import WireSchema.Package
import WireSchema.Proofs.HostPaths

/-!
# Names of packages

A package is named alone or by its settings. A name on its own is read from left to right, a name in
settings is cut at its dots and checked piece by piece. Both ways accept the same names and lead to
the same package.

* `Name.dottedChars_eq`: reading on is the same as cutting; what is left of a name inside an
  identifier is one piece that goes on, and whole identifiers behind it.
* `Name.isDotted_iff`: the names that are accepted are joined from identifiers.
* `Package.named_either_way`: the two ways to name a package.
-/

namespace WireSchema

namespace Name

/-! ## Names with dots -/

/-- One identifier or more, with a single dot between each two. -/
def JoinsIdentifiers (name : String) : Prop :=
  ∃ parts : List String, parts ≠ [] ∧ (∀ n ∈ parts, isIdentifier n = true) ∧
    name = ".".intercalate parts

/-- Reading a dotted name and cutting it at its dots accept the same characters, both from the start
of a name and from inside one of its identifiers. -/
theorem dotted_eq (cs : List Char) :
    dottedChars cs = (Text.pieces '.' cs).all identifierChars ∧
      dottedRest cs = ((Text.pieces '.' cs).head?.any (·.all isPart) &&
        (Text.pieces '.' cs).tail.all identifierChars) := by
  induction cs with
  | nil => exact ⟨rfl, rfl⟩
  | cons c cs ih =>
    obtain ⟨hchars, hrest⟩ := ih
    by_cases hdot : c = '.'
    · -- the piece in front of the dot ends here, and a new identifier has to start
      have hcut : Text.pieces '.' (c :: cs) = [] :: Text.pieces '.' cs := by
        rw [Text.pieces, if_pos hdot]
      have hstart : isStart c = false := by subst hdot; decide
      constructor
      · simp [dottedChars, hstart, hcut, identifierChars]
      · simp [dottedRest, hdot, Text.pieces, hchars]
    · obtain ⟨p, ps, hps⟩ := List.exists_cons_of_ne_nil (Text.pieces_ne_nil '.' cs)
      have hcut : Text.pieces '.' (c :: cs) = (c :: p) :: ps := by
        rw [Text.pieces, if_neg hdot, hps]
      rw [hps] at hrest
      constructor
      · simp [dottedChars, hrest, hcut, identifierChars, Bool.and_assoc]
      · simp [dottedRest, hdot, hrest, hcut, Bool.and_assoc]

theorem dottedChars_eq (cs : List Char) :
    dottedChars cs = (Text.pieces '.' cs).all identifierChars := (dotted_eq cs).1

/-- The pieces of a name give the name again. -/
theorem intercalate_piecesOf (name : String) : ".".intercalate (Text.piecesOf '.' name) = name := by
  have hlists : (Text.piecesOf '.' name).map String.toList = name.toList.splitOn '.' := by
    rw [Text.piecesOf, List.map_map, ← Text.pieces_eq_splitOn]
    exact List.map_id'' (fun cs => String.toList_ofList) _
  rw [← String.toList_inj, String.toList_intercalate, hlists]
  exact List.intercalate_splitOn '.'

/-- The names that are accepted are those joined from identifiers. -/
theorem isDotted_iff {name : String} : isDotted name = true ↔ JoinsIdentifiers name := by
  have hpieces : isDotted name = true ↔
      ∀ n ∈ Text.piecesOf '.' name, isIdentifier n = true := by
    rw [isDotted, dottedChars_eq, List.all_eq_true, Text.piecesOf, List.forall_mem_map]
    simp only [isIdentifier, String.toList_ofList]
  rw [hpieces]
  constructor
  · intro h
    refine ⟨Text.piecesOf '.' name, ?_, h, (intercalate_piecesOf name).symm⟩
    rw [Text.piecesOf, ne_eq, List.map_eq_nil_iff]
    exact Text.pieces_ne_nil '.' name.toList
  · rintro ⟨parts, hne, hparts, rfl⟩
    rwa [Text.piecesOf_intercalate hne hparts]

end Name

/-! ## Two ways to name a package -/

theorem Config.hasDottedPackage_eq (c : Config) : c.hasDottedPackage = Name.isDotted c.package :=
  (Name.dottedChars_eq c.package.toList).symm

/-- Settings that leave everything but the name to the defaults are refused just for their name. -/
theorem Config.check_package_eq_ok_iff {name : String} :
    ({ package := name } : Config).check = .ok () ↔ Name.isDotted name = true := by
  have hmodule : ("crate::pb".isEmpty || "convert.rs".isEmpty) = false := by decide
  rw [check, hasDottedPackage_eq]
  cases hdotted : Name.isDotted name with
  | true =>
    have hne : name.isEmpty = false := by
      rw [String.isEmpty_eq_false_iff]
      rintro rfl
      revert hdotted
      decide
    simp [hne, hmodule]
  | false => by_cases hempty : name.isEmpty <;> simp [hempty]

namespace Package

variable {name : String} {p : Package}

theorem ofName_eq_ok_iff :
    ofName name = .ok p ↔ Name.isDotted name = true ∧ p = { config := { package := name } } := by
  rw [ofName, Name.package]
  split
  · next h =>
    rw [h, and_iff_right rfl]
    exact ⟨fun he => by cases he; rfl, fun he => by rw [he]; rfl⟩
  · next h => exact iff_of_false (fun he => by cases he) fun he => h he.1

theorem ofConfig_eq_ok_iff {config : Config} :
    ofConfig config = .ok p ↔ config.check = .ok () ∧ p = { config } := by
  rw [ofConfig]
  cases config.check with
  | error e => exact iff_of_false (fun he => by cases he) fun he => by cases he.1
  | ok u =>
    rw [and_iff_right rfl]
    exact ⟨fun he => by cases he; rfl, fun he => by rw [he]; rfl⟩

/-- **Naming a package.** A name is accepted on its own just when settings with this name and all
defaults are accepted, and both give the same package. The accepted names are one identifier or
more, joined by single dots. -/
theorem named_either_way (name : String) :
    ((∃ p, ofName name = .ok p) ↔ ∃ p, ofConfig { package := name } = .ok p) ∧
      ((∃ p, ofName name = .ok p) ↔ Name.JoinsIdentifiers name) ∧
      ∀ p, ofName name = .ok p ↔ ofConfig { package := name } = .ok p := by
  have hsame : ∀ p, ofName name = .ok p ↔ ofConfig { package := name } = .ok p := fun p => by
    rw [ofName_eq_ok_iff, ofConfig_eq_ok_iff, Config.check_package_eq_ok_iff]
  refine ⟨exists_congr hsame, ?_, hsame⟩
  rw [← Name.isDotted_iff]
  constructor
  · rintro ⟨p, hp⟩
    exact (ofName_eq_ok_iff.1 hp).1
  · intro h
    exact ⟨_, ofName_eq_ok_iff.2 ⟨h, rfl⟩⟩

end Package
end WireSchema

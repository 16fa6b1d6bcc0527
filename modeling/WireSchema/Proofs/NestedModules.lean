import WireSchema.Proofs.HostPaths
import WireSchema.Proofs.WordCasing

/-!
# Modules of nested types

What is nested in a message has a module of its own. The path of a nested type is made from the name
of the message, in snake case. That of a oneof is made from the path of the message, where the name
is in Pascal case already, and puts this form in snake case. The two are one module as long as the
message keeps its words.

* `HostCode.moduleOf_typePath`, `HostCode.moduleOf_oneofPath`: the modules that the paths lead into.
* `HostCode.nested_beside_oneofs_iff`: they are one module just when the last name around them
  `KeepsWords`.
* `HostCode.nested_apart_from_oneofs`: a message whose second word is a digit.
-/

namespace WireSchema.HostCode

/-- The module that a path leads into: the path without its last segment. -/
def moduleOf (path : String) : String :=
  (splitLastSegment? path.toList).elim path fun parts => String.ofList parts.1

theorem moduleOf_inModule {name : String} (h : ':' ∉ name.toList) (parent : String) :
    moduleOf (inModule parent name) = parent := by
  rw [moduleOf, splitLastSegment?_inModule h, Option.elim_some, String.ofList_toList]

variable (module : String) {around : List String} {name : String}
  (h : ∀ n ∈ around ++ [name], Name.isIdentifier n = true)

include h

/-- A type lives in the module of the messages around it. -/
theorem moduleOf_typePath : moduleOf (typePath module (".".intercalate (around ++ [name]))) =
    inModules module (around.map Text.toSnakeCase) := by
  rw [typePath_intercalate module h, inModules_concat,
    moduleOf_inModule (colon_not_mem_toPascalCase (h name (by simp)))]

/-- A oneof lives beside its message, in a module named after the type of the message. -/
theorem moduleOf_oneofPath {oneof : String} (ho : Name.isIdentifier oneof = true) :
    moduleOf (oneofPath (typePath module (".".intercalate (around ++ [name]))) oneof) =
      if inModules module (around.map Text.toSnakeCase) = "" then
        Text.toSnakeCase (Text.toPascalCase name)
      else inModule (inModules module (around.map Text.toSnakeCase))
        (Text.toSnakeCase (Text.toPascalCase name)) := by
  rw [oneofPath, moduleOf_inModule (colon_not_mem_toPascalCase ho), typePath_intercalate module h,
    inModules_concat, nestedModule_inModule (colon_not_mem_toPascalCase (h name (by simp)))]

omit h

/-- **Nested types and oneofs.** A type nested in a message and a oneof of the message live in one
module just when the message keeps its words, unless no module is around: there the path of the
type begins with a separator, and that of the oneof does not. -/
theorem nested_beside_oneofs_iff {inner oneof : String}
    (h : ∀ n ∈ around ++ [name, inner, oneof], Name.isIdentifier n = true) :
    moduleOf (typePath module (".".intercalate (around ++ [name]) ++ "." ++ inner)) =
        moduleOf (oneofPath (typePath module (".".intercalate (around ++ [name]))) oneof) ↔
      (module ≠ "" ∨ around ≠ []) ∧ Text.KeepsWords name.toList := by
  obtain ⟨haround, hname, hinner, honeof⟩ : (∀ n ∈ around, Name.isIdentifier n = true) ∧
      Name.isIdentifier name = true ∧ Name.isIdentifier inner = true ∧
      Name.isIdentifier oneof = true := by simpa [or_imp, forall_and] using h
  have hmessage : ∀ n ∈ around ++ [name], Name.isIdentifier n = true := by
    simpa [or_imp, forall_and] using ⟨haround, hname⟩
  have hnested : ∀ n ∈ around ++ [name] ++ [inner], Name.isIdentifier n = true := by
    simpa [or_imp, forall_and] using ⟨haround, hname, hinner⟩
  have hpath : ".".intercalate (around ++ [name]) ++ "." ++ inner =
      ".".intercalate (around ++ [name] ++ [inner]) := by
    have hne : around ++ [name] ≠ [] := by simp
    rw [String.intercalate_append_of_ne_nil hne (List.cons_ne_nil _ _),
      String.intercalate_singleton]
  rw [hpath, moduleOf_typePath module hnested, moduleOf_oneofPath module hmessage honeof,
    List.map_append, List.map_singleton, inModules_concat]
  by_cases hempty : inModules module (around.map Text.toSnakeCase) = ""
  · -- a separator stands in the one path, and only characters of names in the other
    rw [if_pos hempty]
    obtain ⟨hmodule, hnone⟩ := inModules_eq_empty hempty
    have hparts : ∀ c ∈ (Text.toSnakeCase (Text.toPascalCase name)).toList,
        Name.isPart c = true := Text.isPart_toSnakeCase fun c hc =>
      (Text.isLetterOrDigit_toPascalCase (Name.isPart_of_isIdentifier hname) c hc).1
    refine iff_of_false (fun heq => colon_not_mem hparts ?_) ?_
    · rw [← heq, inModule]
      simp
    · rintro ⟨hne | hne, -⟩
      · exact hne hmodule
      · exact hne (List.map_eq_nil_iff.1 hnone)
  · have hplace : module ≠ "" ∨ around ≠ [] := by
      by_contra hnone
      obtain ⟨rfl, rfl⟩ : module = "" ∧ around = [] := by simpa using hnone
      exact hempty rfl
    rw [if_neg hempty, inModule, inModule, String.append_right_inj, eq_comm,
      Name.toSnakeCase_toPascalCase_iff hname, and_iff_right hplace]

/-- Inside `Order`, the line of a message with underscores has its types and its oneofs in one
module. -/
theorem nested_beside_oneofs_iff_underscored :
    let full := ".".intercalate (["Order"] ++ ["line_item"])
    (∀ n ∈ ["Order"] ++ ["line_item", "Unit", "pricing_rule"], Name.isIdentifier n = true) ∧
      moduleOf (typePath "crate::pb" (full ++ "." ++ "Unit")) =
        moduleOf (oneofPath (typePath "crate::pb" full) "pricing_rule") := by
  have h : ∀ n ∈ ["Order"] ++ ["line_item", "Unit", "pricing_rule"],
      Name.isIdentifier n = true := by decide
  exact ⟨h, (nested_beside_oneofs_iff "crate::pb" h).2 ⟨.inl (by decide), by decide⟩⟩

/-- **Two modules of a message.** The second word of `Track_1` is a digit, which no capital sets
apart: the types nested in it live in `track_1`, and its oneofs in `track1`. -/
theorem nested_apart_from_oneofs :
    (∀ n ∈ ["Track_1", "Line", "via"], Name.isIdentifier n = true) ∧
      moduleOf (typePath "crate::pb" "Track_1.Line") = "crate::pb::track_1" ∧
      moduleOf (oneofPath (typePath "crate::pb" "Track_1") "via") = "crate::pb::track1" ∧
      "crate::pb::track_1" ≠ "crate::pb::track1" := by
  refine ⟨by decide, by decide +kernel, by decide +kernel, by decide⟩

end WireSchema.HostCode

import WireSchema.HostCode.Name
import WireSchema.Proofs.NameCasing

/-!
# Paths of generated types

A type is written as a path: the module, a segment for each message around the type, and the name of
the type. The path of a oneof is found from the path of its message, whose last segment is cut off.

* `HostCode.typePath_intercalate`: the segments of a type come from the identifiers of its name.
* `HostCode.nestedModule_inModule`: the module inside a message is a segment beside the message.
-/

namespace WireSchema

namespace Text

theorem pieces_eq_splitOn (sep : Char) (cs : List Char) : pieces sep cs = cs.splitOn sep := by
  induction cs with
  | nil => rfl
  | cons c cs ih =>
    rw [pieces, List.splitOn, List.splitOnP_cons_eq_if_modifyHead, ← List.splitOn, ← ih]
    by_cases hc : c = sep
    · rw [if_pos hc, if_pos (by simpa using hc)]
    · rw [if_neg hc, if_neg (by simpa using hc)]
      cases h : pieces sep cs with
      | nil => exact absurd h (pieces_ne_nil sep cs)
      | cons p ps => rfl

/-- Parts without dots are found again in the text that they are joined to. -/
theorem piecesOf_intercalate_of_not_mem {parts : List String} (hne : parts ≠ [])
    (h : ∀ n ∈ parts, '.' ∉ n.toList) : piecesOf '.' (".".intercalate parts) = parts := by
  rw [piecesOf, pieces_eq_splitOn, Name.splitOn_intercalate hne h, List.map_map]
  exact List.map_id'' (fun n => String.ofList_toList) parts

/-- The pieces of a dotted name are the identifiers that it is made of. -/
theorem piecesOf_intercalate {path : List String} (hne : path ≠ [])
    (h : ∀ n ∈ path, Name.isIdentifier n = true) : piecesOf '.' (".".intercalate path) = path :=
  piecesOf_intercalate_of_not_mem hne fun n hn => Name.dot_not_mem (h n hn)

end Text

namespace HostCode

/-- The path with one segment more for each name. -/
def inModules (module : String) (names : List String) : String := names.foldl inModule module

theorem inModules_concat (module : String) (names : List String) (name : String) :
    inModules module (names ++ [name]) = inModule (inModules module names) name := by
  rw [inModules, List.foldl_append]
  rfl

/-- Only an empty module without segments behind it is an empty path. -/
theorem inModules_eq_empty {module : String} {names : List String}
    (h : inModules module names = "") : module = "" ∧ names = [] := by
  rcases List.eq_nil_or_concat' names with rfl | ⟨before, name, rfl⟩
  · exact ⟨h, rfl⟩
  · rw [inModules_concat] at h
    have hchars := congrArg String.toList h
    simp [inModule] at hchars

/-- **Paths of types.** The messages around a type become modules, and its own name a type. -/
theorem typePath_intercalate (module : String) {around : List String} {name : String}
    (h : ∀ n ∈ around ++ [name], Name.isIdentifier n = true) :
    typePath module (".".intercalate (around ++ [name])) =
      inModules module (around.map Text.toSnakeCase ++ [Text.toPascalCase name]) := by
  rw [typePath, Text.piecesOf_intercalate (by simp) h, List.dropLast_concat, List.getLast?_concat,
    inModules, List.foldl_append]
  rfl

theorem splitLastSegment?_eq_none {cs : List Char} (h : ':' ∉ cs) :
    splitLastSegment? cs = none := by
  induction cs with
  | nil => rfl
  | cons c cs ih =>
    have hc : (':' == c) = false := by simpa using List.ne_of_not_mem_cons h
    rw [splitLastSegment?, ih (List.not_mem_of_not_mem_cons h)]
    simp [List.isPrefixOf, hc]

/-- Without colons in it, what stands behind `::` is the last segment. -/
theorem splitLastSegment?_append {name : List Char} (h : ':' ∉ name) (before : List Char) :
    splitLastSegment? (before ++ ':' :: ':' :: name) = some (before, name) := by
  induction before with
  | nil =>
    -- the second colon starts no separator of its own
    have hinner : splitLastSegment? (':' :: name) = none := by
      rw [splitLastSegment?, splitLastSegment?_eq_none h]
      cases name with
      | nil => rfl
      | cons c name =>
        have hc : (':' == c) = false := by simpa using List.ne_of_not_mem_cons h
        simp [List.isPrefixOf, hc]
    rw [List.nil_append, splitLastSegment?, hinner]
    rfl
  | cons c before ih => rw [List.cons_append, splitLastSegment?, ih]

theorem colon_not_mem {s : String} (h : ∀ c ∈ s.toList, Name.isPart c = true) : ':' ∉ s.toList :=
  fun hmem => absurd (h ':' hmem) (by decide)

theorem colon_not_mem_toPascalCase {n : String} (h : Name.isIdentifier n = true) :
    ':' ∉ (Text.toPascalCase n).toList := colon_not_mem fun c hc =>
  (Text.isLetterOrDigit_toPascalCase (Name.isPart_of_isIdentifier h) c hc).1

theorem splitLastSegment?_inModule {name : String} (h : ':' ∉ name.toList) (parent : String) :
    splitLastSegment? (inModule parent name).toList = some (parent.toList, name.toList) := by
  have htext : (inModule parent name).toList = parent.toList ++ ':' :: ':' :: name.toList := by
    simp [inModule, String.toList_append]
  rw [htext, splitLastSegment?_append h]

/-- **Modules of messages.** What is nested in a type lives in a module beside it, which has the
name of the type in snake case. -/
theorem nestedModule_inModule {parent name : String} (h : ':' ∉ name.toList) :
    nestedModule (inModule parent name) =
      if parent = "" then Text.toSnakeCase name else inModule parent (Text.toSnakeCase name) := by
  rw [nestedModule, splitLastSegment?_inModule h]
  by_cases hparent : parent = ""
  · subst hparent
    exact congrArg Text.toSnakeCase String.ofList_toList
  · rw [if_neg hparent]
    split
    · next hsome =>
      obtain ⟨hnil, -⟩ := Prod.mk.inj (Option.some.inj hsome)
      exact absurd (String.toList_inj.1 hnil) hparent
    · next hsome =>
      cases hsome
      rw [String.ofList_toList, String.ofList_toList]
    · next hnone => cases hnone

end HostCode
end WireSchema

import Mathlib.Data.List.Chain
import WireSchema.Proofs.HostPaths
import WireSchema.Proofs.WordCasing

/-!
# Single underscores

Snake case sets a word apart by an underscore at its capital, and looks for no underscore that sets
it apart already: a capital behind an underscore gets another one. No other capital does harm, since
the characters around the new underscore are not underscores themselves.

* `Text.isChain_snakeAfter_iff`: snake case keeps single underscores, but for a capital behind one,
  by induction over the text behind a character.
* `HostCode.singleUnderscores_inModules`: the underscores of a path are those of its segments.
* `HostCode.single_underscores_iff`: the names that host code derives from an identifier.
* `HostCode.capital_doubles_underscore`: a field whose second word is an acronym.
-/

namespace WireSchema

namespace Text

open Name (isPart)

/-! ## Adjacent characters -/

/-- Not both of the characters are underscores. -/
def Apart (a b : Char) : Prop := a = '_' → b ≠ '_'

/-- A capital does not follow an underscore. -/
def SmallAfter (a b : Char) : Prop := a = '_' → b.isUpper = false

instance (a b : Char) : Decidable (Apart a b) := inferInstanceAs (Decidable (_ → _))

instance (a b : Char) : Decidable (SmallAfter a b) := inferInstanceAs (Decidable (_ → _))

/-- No two underscores of the text are adjacent. -/
def SingleUnderscores (s : String) : Prop := s.toList.IsChain Apart

/-- No capital of the text stands directly behind an underscore. -/
def SmallBehindUnderscores (s : String) : Prop := s.toList.IsChain SmallAfter

instance (s : String) : Decidable (SingleUnderscores s) :=
  inferInstanceAs (Decidable (List.IsChain ..))

instance (s : String) : Decidable (SmallBehindUnderscores s) :=
  inferInstanceAs (Decidable (List.IsChain ..))

theorem isChain_of_not_mem {R : Char → Char → Prop} (hR : ∀ a b, a ≠ '_' → R a b)
    {cs : List Char} (h : '_' ∉ cs) : cs.IsChain R := by
  induction cs with
  | nil => exact .nil
  | cons c cs ih =>
    refine List.isChain_cons.2 ⟨fun d _ => hR c d ?_, ih (List.not_mem_of_not_mem_cons h)⟩
    exact (List.ne_of_not_mem_cons h).symm

theorem singleUnderscores_of_not_mem {s : String} (h : '_' ∉ s.toList) : SingleUnderscores s :=
  isChain_of_not_mem (fun _ _ hne he => absurd he hne) h

theorem smallBehindUnderscores_of_not_mem {s : String} (h : '_' ∉ s.toList) :
    SmallBehindUnderscores s :=
  isChain_of_not_mem (fun _ _ hne he => absurd he hne) h

/-! ## Snake case -/

/-- A character that stays in its word follows no underscore as a capital. -/
theorem smallAfter_of_not_opensWord {p c : Char} {cs : List Char}
    (h : opensWord p c cs = false) : SmallAfter p c := by
  rintro rfl
  simpa [opensWord] using h

/-- Behind a capital that opens a word, only an underscore in front of it makes two. -/
theorem smallAfter_iff_of_opensWord {p c : Char} {cs : List Char}
    (h : opensWord p c cs = true) : SmallAfter p c ↔ p ≠ '_' := by
  have hcapital : c.isUpper = true := (Bool.and_eq_true_iff.1 h).1
  rw [SmallAfter, hcapital]
  exact imp_congr_right fun _ => iff_of_false nofun id

/-- Behind a small character, snake case keeps adjacent characters apart just when they are, and no
capital comes behind an underscore. -/
theorem isChain_snakeAfter_iff {cs : List Char} (h : ∀ c ∈ cs, isPart c = true) :
    ∀ {p : Char}, isPart p = true →
      ((p.toLower :: snakeAfter (some p) cs).IsChain Apart ↔
        (p :: cs).IsChain Apart ∧ (p :: cs).IsChain SmallAfter) := by
  induction cs with
  | nil =>
    exact fun {p} _ => iff_of_true (.singleton _) ⟨.singleton _, .singleton _⟩
  | cons c cs ih =>
    intro p hp
    obtain ⟨hc, hcs⟩ := List.forall_mem_cons.1 h
    have hunderscore := (Name.recased hp).toLower_eq_iff
    rw [snakeAfter_some_cons hp h, List.isChain_cons_cons, List.isChain_cons_cons,
      and_and_and_comm, ← ih hcs hc]
    cases hopens : opensWord p c cs with
    | false =>
      have hsame : Apart p.toLower c.toLower ↔ Apart p c := by
        rw [Apart, Apart, Ne, hunderscore, (Name.recased hc).toLower_eq_iff]
      rw [if_neg Bool.false_ne_true, List.nil_append, List.isChain_cons_cons, hsame,
        and_iff_left (smallAfter_of_not_opensWord hopens)]
    | true =>
      have hnew : Apart '_' c.toLower := fun _ => toLower_ne_of_opensWord hc hopens
      have hfront : Apart p.toLower '_' ↔ p ≠ '_' := by
        rw [Apart, hunderscore]
        simp
      have hapart : p ≠ '_' → Apart p c := fun hne he => absurd he hne
      rw [if_pos rfl, List.singleton_append, List.isChain_cons_cons, List.isChain_cons_cons,
        and_iff_right hnew, hfront, smallAfter_iff_of_opensWord hopens,
        and_iff_right_of_imp hapart]

/-- **Underscores of snake case.** A text of the characters of identifiers has no two adjacent
underscores in snake case just when it has none itself, and no capital directly behind one. -/
theorem singleUnderscores_toSnakeCase_iff {s : String} (h : ∀ c ∈ s.toList, isPart c = true) :
    SingleUnderscores (toSnakeCase s) ↔ SingleUnderscores s ∧ SmallBehindUnderscores s := by
  rw [SingleUnderscores, SingleUnderscores, SmallBehindUnderscores, toSnakeCase,
    String.toList_ofList]
  cases hs : s.toList with
  | nil => exact iff_of_true .nil ⟨.nil, .nil⟩
  | cons c cs =>
    rw [hs] at h
    obtain ⟨hc, hcs⟩ := List.forall_mem_cons.1 h
    rw [snakeAfter_none_cons hc, isChain_snakeAfter_iff hcs hc]

/-- Pascal case leaves no underscore that snake case could double. -/
theorem underscore_not_mem_toPascalCase {s : String} (h : ∀ c ∈ s.toList, isPart c = true) :
    '_' ∉ (toPascalCase s).toList :=
  fun hmem => (isLetterOrDigit_toPascalCase h '_' hmem).2 rfl

theorem singleUnderscores_toPascalCase {s : String} (h : ∀ c ∈ s.toList, isPart c = true) :
    SingleUnderscores (toPascalCase s) :=
  singleUnderscores_of_not_mem (underscore_not_mem_toPascalCase h)

theorem singleUnderscores_recased {s : String} (h : ∀ c ∈ s.toList, isPart c = true) :
    SingleUnderscores (toSnakeCase (toPascalCase s)) := by
  have hnone := underscore_not_mem_toPascalCase h
  exact (singleUnderscores_toSnakeCase_iff fun c hc => (isLetterOrDigit_toPascalCase h c hc).1).2
    ⟨singleUnderscores_of_not_mem hnone, smallBehindUnderscores_of_not_mem hnone⟩

end Text

/-! ## Names in host code -/

namespace HostCode

open Text

/-- A keyword has no underscore that the one behind it could double. -/
theorem singleUnderscores_identifier {name : String} :
    SingleUnderscores (identifier name) ↔ SingleUnderscores name := by
  rw [identifier]
  split
  · next h =>
    have hboth : ∀ k ∈ pathKeywords, SingleUnderscores (k ++ "_") ∧ SingleUnderscores k := by
      decide +kernel
    obtain ⟨hmarked, hplain⟩ := hboth name (List.contains_iff_mem.1 h)
    exact iff_of_true hmarked hplain
  · split
    · have hraw : ("r#" ++ name).toList = 'r' :: '#' :: name.toList := by simp
      rw [SingleUnderscores, hraw, List.isChain_cons_cons, List.isChain_cons,
        and_iff_right (by decide), and_iff_right fun d _ => by simp [Apart]]
      rfl
    · rfl

/-- The separator keeps the underscores on both of its sides apart. -/
theorem singleUnderscores_inModule {module name : String} :
    SingleUnderscores (inModule module name) ↔
      SingleUnderscores module ∧ SingleUnderscores name := by
  have htext : (inModule module name).toList = module.toList ++ ':' :: ':' :: name.toList := by
    simp [inModule]
  have hcolon : ∀ a b, a = ':' ∨ b = ':' → Apart a b := by
    rintro a b (rfl | rfl) <;> simp [Apart]
  rw [SingleUnderscores, htext, List.isChain_append, List.isChain_cons_cons, List.isChain_cons,
    and_iff_right (hcolon _ _ (.inl rfl)), and_iff_right fun d _ => hcolon _ d (.inl rfl)]
  refine and_congr_right fun _ => and_iff_left fun a _ b hb => hcolon a b (.inr ?_)
  exact (Option.mem_some_iff.1 hb).symm

/-- A path has single underscores just when all of its segments have. -/
theorem singleUnderscores_inModules {module : String} {names : List String} :
    SingleUnderscores (inModules module names) ↔
      SingleUnderscores module ∧ ∀ n ∈ names, SingleUnderscores n := by
  induction names generalizing module with
  | nil => simp [inModules]
  | cons n names ih =>
    have hnext : inModules module (n :: names) = inModules (inModule module n) names := rfl
    rw [hnext, ih, singleUnderscores_inModule, List.forall_mem_cons, and_assoc]

variable {module : String} {around : List String} {name oneof : String}
  (hmodule : SingleUnderscores module)
  (h : ∀ n ∈ around ++ [name], Name.isIdentifier n = true)

include hmodule h

/-- Only the messages around a type bring underscores into its path. -/
theorem singleUnderscores_typePath_iff :
    SingleUnderscores (typePath module (".".intercalate (around ++ [name]))) ↔
      ∀ n ∈ around, SingleUnderscores (toSnakeCase n) := by
  have hname := singleUnderscores_toPascalCase (Name.isPart_of_isIdentifier (h name (by simp)))
  rw [typePath_intercalate module h, singleUnderscores_inModules, and_iff_right hmodule,
    List.forall_mem_append, List.forall_mem_map, List.forall_mem_singleton,
    and_iff_left hname]

/-- So it is with a oneof: the name of its message is in Pascal case already when its module is made
of it. -/
theorem singleUnderscores_oneofPath_iff (ho : Name.isIdentifier oneof = true) :
    SingleUnderscores (oneofPath (typePath module (".".intercalate (around ++ [name]))) oneof) ↔
      ∀ n ∈ around, SingleUnderscores (toSnakeCase n) := by
  have hidentifier := h name (by simp)
  have hname := singleUnderscores_recased (Name.isPart_of_isIdentifier hidentifier)
  have hparent : SingleUnderscores (inModules module (around.map toSnakeCase)) ↔
      ∀ n ∈ around, SingleUnderscores (toSnakeCase n) := by
    rw [singleUnderscores_inModules, and_iff_right hmodule, List.forall_mem_map]
  rw [oneofPath, typePath_intercalate module h, inModules_concat,
    nestedModule_inModule (colon_not_mem_toPascalCase hidentifier), singleUnderscores_inModule,
    and_iff_left (singleUnderscores_toPascalCase (Name.isPart_of_isIdentifier ho)), ← hparent]
  split
  · next hempty => exact iff_of_true hname (hempty ▸ by decide)
  · rw [singleUnderscores_inModule, and_iff_left hname]

omit hmodule h

/-- **Single underscores.** Where an identifier has no two adjacent underscores, its snake case has
none just when no capital stands directly behind an underscore, and so it is with the field of this
name. The path of a type inside the messages `around` and `s` has none just when this holds of all
these messages. That of a oneof of `s` asks it of the messages around `s` only. -/
theorem single_underscores_iff {s : String} (hs : Name.isIdentifier s = true)
    (hsingle : SingleUnderscores s) :
    (SingleUnderscores (toSnakeCase s) ↔ SmallBehindUnderscores s) ∧
    (SingleUnderscores (messageField s) ↔ SmallBehindUnderscores s) ∧
    ∀ (module : String) (around : List String) (inner oneof : String), SingleUnderscores module →
      (∀ n ∈ around, Name.isIdentifier n = true ∧ SingleUnderscores n) →
      Name.isIdentifier inner = true → Name.isIdentifier oneof = true →
        (SingleUnderscores (typePath module (".".intercalate (around ++ [s] ++ [inner]))) ↔
          ∀ n ∈ around ++ [s], SmallBehindUnderscores n) ∧
        (SingleUnderscores
            (oneofPath (typePath module (".".intercalate (around ++ [s]))) oneof) ↔
          ∀ n ∈ around, SmallBehindUnderscores n) := by
  have hsnake : ∀ {n : String}, Name.isIdentifier n = true → SingleUnderscores n →
      (SingleUnderscores (toSnakeCase n) ↔ SmallBehindUnderscores n) := fun hn hapart => by
    rw [singleUnderscores_toSnakeCase_iff (Name.isPart_of_isIdentifier hn), and_iff_right hapart]
  refine ⟨hsnake hs hsingle, ?_, fun module around inner oneof hmodule haround hinner honeof => ?_⟩
  · rw [messageField, singleUnderscores_identifier, hsnake hs hsingle]
  have hmessages := List.forall_mem_append.2
    ⟨fun n hn => (haround n hn).1, List.forall_mem_singleton.2 hs⟩
  have hnested := List.forall_mem_append.2 ⟨hmessages, List.forall_mem_singleton.2 hinner⟩
  have hsnakes : (∀ n ∈ around, SingleUnderscores (toSnakeCase n)) ↔
      ∀ n ∈ around, SmallBehindUnderscores n :=
    forall₂_congr fun n hn => hsnake (haround n hn).1 (haround n hn).2
  constructor
  · rw [singleUnderscores_typePath_iff hmodule hnested, List.forall_mem_append,
      List.forall_mem_append, List.forall_mem_singleton, List.forall_mem_singleton, hsnakes,
      hsnake hs hsingle]
  · rw [singleUnderscores_oneofPath_iff hmodule hmessages honeof, hsnakes]

/-- Inside `Order_2`, a message with two words in front of an underscore, and a small one behind. -/
theorem single_underscores_iff_versioned :
    let message := ".".intercalate (["Order_2"] ++ ["LineItem_v2"])
    let inner := ".".intercalate (["Order_2"] ++ ["LineItem_v2"] ++ ["Unit"])
    (Name.isIdentifier "LineItem_v2" = true ∧ SingleUnderscores "LineItem_v2") ∧
      toSnakeCase "LineItem_v2" = "line_item_v2" ∧ SingleUnderscores (toSnakeCase "LineItem_v2") ∧
      SingleUnderscores (messageField "LineItem_v2") ∧
      SingleUnderscores (typePath "crate::my_pb" inner) ∧
      SingleUnderscores (oneofPath (typePath "crate::my_pb" message) "pricing_rule") := by
  intro message inner
  have hs : Name.isIdentifier "LineItem_v2" = true := by decide
  have hsingle : SingleUnderscores "LineItem_v2" := by decide
  have hsmall : SmallBehindUnderscores "LineItem_v2" := by decide
  obtain ⟨hsnake, hfield, hpaths⟩ := single_underscores_iff hs hsingle
  obtain ⟨htype, honeof⟩ := hpaths "crate::my_pb" ["Order_2"] "Unit" "pricing_rule"
    (by decide) (by decide) (by decide) (by decide)
  exact ⟨⟨hs, hsingle⟩, by decide +kernel, hsnake.2 hsmall, hfield.2 hsmall,
    htype.2 (by decide), honeof.2 (by decide)⟩

/-- **A doubled underscore.** The acronym behind the underscore of `user_ID` is set apart twice, in
the field of this name too. -/
theorem capital_doubles_underscore :
    (Name.isIdentifier "user_ID" = true ∧ SingleUnderscores "user_ID") ∧
      toSnakeCase "user_ID" = "user__id" ∧ ¬ SingleUnderscores (toSnakeCase "user_ID") ∧
      ¬ SingleUnderscores (messageField "user_ID") := by
  exact ⟨by decide, by decide +kernel, by decide +kernel, by decide +kernel⟩

end HostCode
end WireSchema

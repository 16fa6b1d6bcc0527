import WireSchema.Proofs.Fragment
import WireSchema.Proofs.HostTypes
import WireSchema.Text.Casing

/-!
# Recased names

What snake case and Pascal case make of the characters of identifiers, which all are ASCII. Snake
case keeps what a name begins with, up to its case. Pascal case drops the underscores, so that a
name begins with what stands behind those in front; this may be a digit, or nothing at all.

* `Name.recased`: the cases of the characters of identifiers, decided one by one.
* `Text.snakeAfter_cons`, `Text.capitalize_cons`: what the two casings do to such characters.
* `Name.isIdentifier_toSnakeCase`: a text is recased to an identifier just when it is one.
* `Name.isIdentifier_toPascalCase`: a name is recased to an identifier just when it has a letter
  behind the underscores that it begins with.
-/

namespace WireSchema

/-! ## Characters -/

namespace Name

variable {c : Char}

/-- All characters of identifiers are ASCII. -/
theorem toNat_lt_of_isPart (h : isPart c = true) : c.toNat < 128 := by
  have hupto : ∀ greatest : Char, greatest.toNat < 128 → c.val ≤ greatest.val → c.toNat < 128 :=
    fun _ hend hle => Nat.lt_of_le_of_lt (UInt32.le_iff_toNat_le.1 hle) hend
  have hkinds : (((c.isUpper || c.isLower) || c.isDigit) || c == '_') = true := h
  rw [Bool.or_eq_true, Bool.or_eq_true, Bool.or_eq_true] at hkinds
  rcases hkinds with ((hupper | hlower) | hdigit) | hunderscore
  · exact hupto 'Z' (by decide) (of_decide_eq_true hupper).2
  · exact hupto 'z' (by decide) (of_decide_eq_true (Bool.and_eq_true_iff.1 hlower).2)
  · exact hupto '9' (by decide) (of_decide_eq_true (Bool.and_eq_true_iff.1 hdigit).2)
  · rw [eq_of_beq hunderscore]
    decide

/-- What holds of all characters of identifiers below the end of ASCII holds of all of them. -/
theorem forall_isPart {P : Char → Prop}
    (h : ∀ n < 128, isPart (Char.ofNat n) = true → P (Char.ofNat n)) (hc : isPart c = true) :
    P c := by
  have hown := h c.toNat (toNat_lt_of_isPart hc)
  rw [Char.ofNat_toNat] at hown
  exact hown hc

/-- How the two cases of a character of identifiers go together: each is one character again. The
capital of a letter is upper case, a character that is none is small already, and what may start an
identifier may do so in both cases. -/
structure Recased (c : Char) : Prop where
  upperOf : Text.upperOf c = [c.toUpper]
  lowerOf : Text.lowerOf c = [c.toLower]
  small : Text.isUppercase c = false → c.toLower = c
  capital : c.isAlpha = true → c.toUpper.isUpper = true
  isPart_toUpper : isPart c.toUpper = true
  isPart_toLower : isPart c.toLower = true
  isStart_toUpper : isStart c.toUpper = isStart c
  isStart_toLower : isStart c.toLower = isStart c
  toUpper_eq_iff : c.toUpper = '_' ↔ c = '_'
  toLower_eq_iff : c.toLower = '_' ↔ c = '_'

instance (c : Char) : Decidable (Recased c) :=
  decidable_of_iff (Text.upperOf c = [c.toUpper] ∧ Text.lowerOf c = [c.toLower] ∧
      (Text.isUppercase c = false → c.toLower = c) ∧
      (c.isAlpha = true → c.toUpper.isUpper = true) ∧
      isPart c.toUpper = true ∧ isPart c.toLower = true ∧
      isStart c.toUpper = isStart c ∧ isStart c.toLower = isStart c ∧
      (c.toUpper = '_' ↔ c = '_') ∧ (c.toLower = '_' ↔ c = '_'))
    ⟨fun ⟨h₁, h₂, h₃, h₄, h₅, h₆, h₇, h₈, h₉, h⟩ => ⟨h₁, h₂, h₃, h₄, h₅, h₆, h₇, h₈, h₉, h⟩,
      fun ⟨h₁, h₂, h₃, h₄, h₅, h₆, h₇, h₈, h₉, h⟩ => ⟨h₁, h₂, h₃, h₄, h₅, h₆, h₇, h₈, h₉, h⟩⟩

theorem recased (hc : isPart c = true) : Recased c :=
  forall_isPart (P := Recased) (by decide +kernel) hc

/-- An identifier has characters of identifiers, and it begins with none of the digits. -/
theorem identifierChars_iff {cs : List Char} (h : ∀ c ∈ cs, isPart c = true) :
    identifierChars cs = true ↔ cs.head?.any isStart = true := by
  cases cs with
  | nil => rfl
  | cons c cs =>
    rw [identifierChars, Bool.and_eq_true, List.head?_cons, Option.any_some]
    exact and_iff_left (List.all_eq_true.2 fun d hd => h d (List.mem_cons_of_mem c hd))

end Name

/-! ## Snake case -/

namespace Text

open Name (isPart)

/-- A character of an identifier becomes small, with an underscore in front where a word starts. -/
theorem snakeAfter_cons {c : Char} (hc : isPart c = true) (previous : Option Char)
    (cs : List Char) : snakeAfter previous (c :: cs) =
      (if isUppercase c && startsWord previous cs then ['_'] else []) ++
        c.toLower :: snakeAfter (some c) cs := by
  rw [snakeAfter, (Name.recased hc).lowerOf]
  cases hcase : isUppercase c with
  | true => simp
  | false => simp [(Name.recased hc).small hcase]

theorem isPart_snakeAfter (cs : List Char) : ∀ previous, (∀ c ∈ cs, isPart c = true) →
    ∀ c ∈ snakeAfter previous cs, isPart c = true := by
  induction cs with
  | nil => exact fun _ _ => nofun
  | cons d ds ih =>
    intro previous h c hc
    obtain ⟨hd, hds⟩ := List.forall_mem_cons.1 h
    rw [snakeAfter_cons hd, List.mem_append, List.mem_cons] at hc
    rcases hc with hc | rfl | hc
    · split at hc
      · rw [List.mem_singleton.1 hc]; decide
      · cases hc
    · exact (Name.recased hd).isPart_toLower
    · exact ih (some d) hds c hc

/-- The first word of a name starts without an underscore. -/
theorem snakeAfter_none_cons {c : Char} (hc : isPart c = true) (cs : List Char) :
    snakeAfter none (c :: cs) = c.toLower :: snakeAfter (some c) cs := by
  rw [snakeAfter_cons hc, startsWord, Bool.and_false]
  rfl

theorem isPart_toSnakeCase {s : String} (h : ∀ c ∈ s.toList, isPart c = true) :
    ∀ c ∈ (toSnakeCase s).toList, isPart c = true := by
  rw [toSnakeCase, String.toList_ofList]
  exact isPart_snakeAfter s.toList none h

theorem toSnakeCase_eq_underscore_iff {s : String} (h : ∀ c ∈ s.toList, isPart c = true) :
    toSnakeCase s = "_" ↔ s = "_" := by
  rw [← String.toList_inj, ← String.toList_inj, toSnakeCase, String.toList_ofList]
  cases hs : s.toList with
  | nil => exact iff_of_false nofun nofun
  | cons c cs =>
    rw [hs] at h
    obtain ⟨hc, hcs⟩ := List.forall_mem_cons.1 h
    rw [snakeAfter_none_cons hc]
    have hrest : snakeAfter (some c) cs = [] ↔ cs = [] := by
      cases cs with
      | nil => exact iff_of_true rfl rfl
      | cons d ds =>
        rw [snakeAfter_cons (hcs d List.mem_cons_self)]
        simp
    simp [(Name.recased hc).toLower_eq_iff, hrest]

end Text

/-- **Snake case of identifiers.** A text of letters, digits and underscores is recased to an
identifier just when it is one. -/
theorem Name.isIdentifier_toSnakeCase {s : String} (h : ∀ c ∈ s.toList, isPart c = true) :
    isIdentifier (Text.toSnakeCase s) = true ↔ isIdentifier s = true := by
  rw [isIdentifier, isIdentifier, identifierChars_iff (Text.isPart_toSnakeCase h),
    identifierChars_iff h, Text.toSnakeCase, String.toList_ofList]
  cases hs : s.toList with
  | nil => rfl
  | cons c cs =>
    have hc : isPart c = true := h c (hs ▸ List.mem_cons_self)
    rw [Text.snakeAfter_none_cons hc, List.head?_cons, List.head?_cons, Option.any_some,
      Option.any_some, (recased hc).isStart_toLower]

/-! ## Pascal case -/

namespace Text

open Name (isPart)

theorem lowerAfter_of_isPart (cs : List Char) : ∀ before, (∀ c ∈ cs, isPart c = true) →
    lowerAfter before cs = cs.map Char.toLower := by
  induction cs with
  | nil => exact fun _ _ => rfl
  | cons c cs ih =>
    intro before h
    obtain ⟨hc, hcs⟩ := List.forall_mem_cons.1 h
    have hsigma : c ≠ 'Σ' := by
      rintro rfl
      revert hc; decide
    rw [lowerAfter, if_neg hsigma, (Name.recased hc).lowerOf, ih _ hcs]
    rfl

/-- The first character of a word becomes a capital, the others small or as they were. -/
theorem capitalize_cons {c : Char} {cs : List Char} (h : ∀ d ∈ c :: cs, isPart d = true)
    (lowerRest : Bool) : capitalize lowerRest (c :: cs) =
      c.toUpper :: if lowerRest then cs.map Char.toLower else cs := by
  obtain ⟨hc, hcs⟩ := List.forall_mem_cons.1 h
  rw [capitalize, (Name.recased hc).upperOf, lowerText, lowerAfter_of_isPart cs [] hcs]
  rfl

/-- A character of a word that no underscore stands in. -/
def IsLetterOrDigit (c : Char) : Prop := isPart c = true ∧ c ≠ '_'

theorem isLetterOrDigit_capitalize {cs : List Char} (h : ∀ c ∈ cs, IsLetterOrDigit c)
    (lowerRest : Bool) : ∀ c ∈ capitalize lowerRest cs, IsLetterOrDigit c := by
  cases cs with
  | nil => exact nofun
  | cons d ds =>
    obtain ⟨⟨hd, hne⟩, hds⟩ := List.forall_mem_cons.1 h
    rw [capitalize_cons fun c hc => (h c hc).1]
    refine List.forall_mem_cons.2
      ⟨⟨(Name.recased hd).isPart_toUpper, (Name.recased hd).toUpper_eq_iff.not.2 hne⟩, ?_⟩
    cases lowerRest with
    | false => exact hds
    | true =>
      intro c hc
      obtain ⟨e, he, rfl⟩ := List.mem_map.1 hc
      obtain ⟨hpart, hne⟩ := hds e he
      have hsmall := Name.recased hpart
      exact ⟨hsmall.isPart_toLower, hsmall.toLower_eq_iff.not.2 hne⟩

theorem not_mem_of_mem_pieces {sep : Char} (cs : List Char) : ∀ p ∈ pieces sep cs, sep ∉ p := by
  induction cs with
  | nil => simp [pieces]
  | cons c cs ih =>
    rw [pieces]
    split
    · exact List.forall_mem_cons.2 ⟨List.not_mem_nil, ih⟩
    · next hne =>
      cases hps : pieces sep cs with
      | nil => exact absurd hps (pieces_ne_nil sep cs)
      | cons q qs =>
        rw [hps] at ih
        obtain ⟨hq, hqs⟩ := List.forall_mem_cons.1 ih
        exact List.forall_mem_cons.2
          ⟨List.not_mem_cons_of_ne_of_not_mem (Ne.symm hne) hq, hqs⟩

theorem toList_toPascalCase (s : String) : (toPascalCase s).toList =
    if s.toList.contains '_' then
      ((pieces '_' s.toList).filter fun w => !w.isEmpty).flatMap (capitalize true)
    else capitalize (s.toList == upperText s.toList) s.toList := by
  rw [toPascalCase]
  split <;> exact String.toList_ofList

variable {s : String} (h : ∀ c ∈ s.toList, isPart c = true)

include h

theorem isLetterOrDigit_toPascalCase : ∀ c ∈ (toPascalCase s).toList, IsLetterOrDigit c := by
  rw [toList_toPascalCase]
  split
  · intro c hc
    obtain ⟨w, hw, hc⟩ := List.mem_flatMap.1 hc
    have hpiece : w ∈ pieces '_' s.toList := (List.mem_filter.1 hw).1
    refine isLetterOrDigit_capitalize
      (fun d hd => ⟨h d (mem_of_mem_pieces hpiece hd), ?_⟩) true c hc
    rintro rfl
    exact not_mem_of_mem_pieces _ w hpiece hd
  · next hnone =>
    refine isLetterOrDigit_capitalize (fun c hc => ⟨h c hc, ?_⟩) _
    rintro rfl
    exact hnone (List.contains_iff_mem.2 hc)

omit h

theorem head?_capitalizeWords (cs : List Char) (h : ∀ c ∈ cs, isPart c = true) :
    (((pieces '_' cs).filter fun w => !w.isEmpty).flatMap (capitalize true)).head? =
      (cs.dropWhile (· == '_')).head?.map Char.toUpper := by
  induction cs with
  | nil => rfl
  | cons c cs ih =>
    obtain ⟨hc, hcs⟩ := List.forall_mem_cons.1 h
    rw [pieces]
    by_cases hunderscore : c = '_'
    · rw [if_pos hunderscore, List.filter_cons_of_neg (by simp), ih hcs,
        List.dropWhile_cons_of_pos (by simpa using hunderscore)]
    · rw [if_neg hunderscore, List.dropWhile_cons_of_neg (by simpa using hunderscore)]
      cases hps : pieces '_' cs with
      | nil => exact absurd hps (pieces_ne_nil '_' cs)
      | cons p ps =>
        have hword : ∀ d ∈ c :: p, isPart d = true := List.forall_mem_cons.2
          ⟨hc, fun d hd => hcs d (mem_of_mem_pieces (hps ▸ List.mem_cons_self) hd)⟩
        rw [List.filter_cons_of_pos (by simp), List.flatMap_cons, capitalize_cons hword]
        rfl

include h

/-- A recased name begins with the capital of the first character that is no underscore. -/
theorem head?_toPascalCase : (toPascalCase s).toList.head? =
    (s.toList.dropWhile (· == '_')).head?.map Char.toUpper := by
  rw [toList_toPascalCase]
  split
  · exact head?_capitalizeWords s.toList h
  · next hnone =>
    cases hs : s.toList with
    | nil => rfl
    | cons c cs =>
      rw [hs] at h hnone
      have hne : c ≠ '_' := by
        rintro rfl
        exact hnone (by simp)
      rw [capitalize_cons h, List.dropWhile_cons_of_neg (by simpa using hne)]
      rfl

end Text

/-- The name has a letter behind the underscores that it begins with. -/
def Name.startsWithLetter (s : String) : Bool :=
  (s.toList.dropWhile (· == '_')).head?.any Char.isAlpha

namespace Name

variable {s : String} (h : ∀ c ∈ s.toList, isPart c = true)

include h

/-- **Pascal case of identifiers.** A name is recased to an identifier just when the first of its
characters that is no underscore is a letter. -/
theorem isIdentifier_toPascalCase :
    isIdentifier (Text.toPascalCase s) = true ↔ startsWithLetter s = true := by
  rw [isIdentifier, identifierChars_iff fun c hc => (Text.isLetterOrDigit_toPascalCase h c hc).1,
    Text.head?_toPascalCase h, startsWithLetter]
  cases hs : (s.toList.dropWhile (· == '_')).head? with
  | none => rfl
  | some c =>
    have hc : c ∈ s.toList := (List.dropWhile_subset _) (List.mem_of_head? hs)
    have hne : (c == '_') = false := by
      have hstop := List.head?_dropWhile_not (· == '_') s.toList
      rwa [hs] at hstop
    rw [Option.map_some, Option.any_some, Option.any_some, (recased (h c hc)).isStart_toUpper,
      isStart, hne, Bool.or_false]

/-- Such an identifier begins with a capital. -/
theorem isUpper_head_toPascalCase (hletter : startsWithLetter s = true) :
    (Text.toPascalCase s).toList.head?.any Char.isUpper = true := by
  rw [Text.head?_toPascalCase h]
  rw [startsWithLetter] at hletter
  cases hs : (s.toList.dropWhile (· == '_')).head? with
  | none => rw [hs] at hletter; cases hletter
  | some c =>
    have hc : c ∈ s.toList := (List.dropWhile_subset _) (List.mem_of_head? hs)
    rw [hs] at hletter
    exact (recased (h c hc)).capital hletter

end Name

end WireSchema

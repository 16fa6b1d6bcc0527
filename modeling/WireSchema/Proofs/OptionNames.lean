import WireSchema.Proofs.DeclarationReading
import WireSchema.Proofs.PackageNames

/-!
# Names of options

An option is written by a dotted name, or by the name of an extension in parentheses and the fields
that lead to the option inside it. The fields are read one identifier after the other, the name of
an extension is not: behind its first character only the characters are checked, so that the parts
between its dots need not be identifiers.

* `Name.extensionChars_iff`, `Name.optionTail_iff`: what is read in the parentheses and behind them.
* `Name.option_accepts_iff`: the names that are accepted are those of options, and those with a gap
  in the name of the extension.
* `Name.option_accepts_gap`: two dots in a row.
-/

namespace WireSchema.Name

/-! ## Grammar -/

/-- The names one behind the other, each with a dot in front. -/
def dottedTail (path : List String) : String := String.join (path.map ("." ++ ·))

/-- The option that the fields of `path` lead to inside an extension. -/
def inExtension (extension : String) (path : List String) : String :=
  "(" ++ extension ++ ")" ++ dottedTail path

/-- The names that options are written by: one identifier or more, joined by dots, or an extension
that has such a name, and a field or none inside it. -/
def NamesOption (name : String) : Prop :=
  JoinsIdentifiers name ∨ ∃ extension path, JoinsIdentifiers extension ∧
    (∀ n ∈ path, isIdentifier n = true) ∧ name = inExtension extension path

/-- The name begins with an identifier and goes on with parts made of the characters of identifiers,
but one of them is empty or begins with a digit. -/
def HasGap (extension : String) : Prop :=
  ∃ first later, isIdentifier first = true ∧ (∀ n ∈ later, ∀ c ∈ n.toList, isPart c = true) ∧
    (∃ n ∈ later, n.toList.head?.all Char.isDigit = true) ∧
    extension = ".".intercalate (first :: later)

/-- An option inside an extension whose name has a gap. -/
def NamesOptionAcrossGap (name : String) : Prop :=
  ∃ extension path, HasGap extension ∧ (∀ n ∈ path, isIdentifier n = true) ∧
    name = inExtension extension path

/-! ## Parts between dots -/

theorem dottedTail_cons (n : String) (path : List String) :
    dottedTail (n :: path) = "." ++ n ++ dottedTail path := String.join_cons

theorem intercalate_cons (first : String) (later : List String) :
    ".".intercalate (first :: later) = first ++ dottedTail later := by
  induction later generalizing first with
  | nil => rw [String.intercalate_singleton]; exact String.append_empty.symm
  | cons n later ih =>
    rw [String.intercalate_cons_cons, ih, dottedTail_cons, String.append_assoc,
      String.append_assoc]

theorem mem_dottedTail {c : Char} {path : List String} (h : c ∈ (dottedTail path).toList) :
    c = '.' ∨ ∃ n ∈ path, c ∈ n.toList := by
  rw [dottedTail, String.toList_join, List.flatMap_map] at h
  obtain ⟨n, hn, hc⟩ := List.mem_flatMap.1 h
  rw [String.toList_append] at hc
  exact (List.mem_cons.1 hc).imp_right fun hc => ⟨n, hn, hc⟩

/-- Among texts of the characters of identifiers, those that are empty or begin with a digit are no
identifiers. -/
theorem isIdentifier_eq_false_iff {n : String} (h : ∀ c ∈ n.toList, isPart c = true) :
    isIdentifier n = false ↔ n.toList.head?.all Char.isDigit = true := by
  rw [← Bool.not_eq_true, isIdentifier, identifierChars_iff h]
  cases hn : n.toList with
  | nil => exact iff_of_true Bool.false_ne_true rfl
  | cons c cs =>
    have hc : isPart c = true := h c (hn ▸ List.mem_cons_self)
    have hkinds : (c.isAlpha || c.isDigit || c == '_') = true := hc
    rw [List.head?_cons, Option.any_some, Option.all_some]
    constructor
    · intro hstart
      rw [isStart, Bool.or_eq_true, not_or] at hstart
      simpa [hstart.1, hstart.2] using hkinds
    · intro hdigit hstart
      rw [not_isDigit_of_isStart hstart] at hdigit
      cases hdigit

/-- An identifier, and parts of the characters of identifiers behind it, make a dotted name just
when each of the parts is an identifier too. -/
theorem joinsIdentifiers_intercalate_iff {first : String} {later : List String}
    (hfirst : isIdentifier first = true)
    (hlater : ∀ n ∈ later, ∀ c ∈ n.toList, isPart c = true) :
    JoinsIdentifiers (".".intercalate (first :: later)) ↔ ∀ n ∈ later, isIdentifier n = true := by
  have hdots : ∀ n ∈ first :: later, '.' ∉ n.toList := List.forall_mem_cons.2
    ⟨dot_not_mem hfirst, fun n hn hdot => absurd (hlater n hn '.' hdot) (by decide)⟩
  constructor
  · rintro ⟨parts, hne, hparts, heq⟩
    have hsame : first :: later = parts := by
      rw [← Text.piecesOf_intercalate_of_not_mem (List.cons_ne_nil _ _) hdots, heq,
        Text.piecesOf_intercalate hne hparts]
    exact fun n hn => hparts n (hsame ▸ List.mem_cons_of_mem _ hn)
  · intro h
    exact ⟨first :: later, List.cons_ne_nil _ _, List.forall_mem_cons.2 ⟨hfirst, h⟩, rfl⟩

/-- No name with a gap is joined from identifiers. -/
theorem HasGap.not_joinsIdentifiers {extension : String} (h : HasGap extension) :
    ¬ JoinsIdentifiers extension := by
  obtain ⟨first, later, hfirst, hlater, ⟨n, hn, hgap⟩, rfl⟩ := h
  rw [joinsIdentifiers_intercalate_iff hfirst hlater]
  intro hidentifiers
  have hnone := (isIdentifier_eq_false_iff (hlater n hn)).2 hgap
  rw [hidentifiers n hn] at hnone
  cases hnone

/-! ## What is read -/

/-- In parentheses, only the first part is read as an identifier. -/
theorem extensionChars_iff {extension : String} : extensionChars extension.toList = true ↔
    ∃ first later, isIdentifier first = true ∧
      (∀ n ∈ later, ∀ c ∈ n.toList, isPart c = true) ∧
      extension = ".".intercalate (first :: later) := by
  constructor
  · intro h
    cases hcs : extension.toList with
    | nil => rw [hcs] at h; cases h
    | cons c cs =>
      rw [hcs, extensionChars, Bool.and_eq_true, List.all_eq_true] at h
      obtain ⟨hc, hcs'⟩ := h
      have hdot : c ≠ '.' := by
        rintro rfl
        exact absurd hc (by decide)
      obtain ⟨p, ps, hps⟩ := List.exists_cons_of_ne_nil (Text.pieces_ne_nil '.' cs)
      have hpieces : Text.pieces '.' extension.toList = (c :: p) :: ps := by
        rw [hcs, Text.pieces, if_neg hdot, hps]
      have hparts : ∀ q ∈ p :: ps, ∀ d ∈ q, isPart d = true := by
        intro q hq d hd
        rw [← hps] at hq
        have hne : d ≠ '.' := fun he => Text.not_mem_of_mem_pieces cs q hq (he ▸ hd)
        simpa [hne] using hcs' d (Text.mem_of_mem_pieces hq hd)
      obtain ⟨hp, hlater⟩ := List.forall_mem_cons.1 hparts
      refine ⟨String.ofList (c :: p), ps.map String.ofList, ?_, ?_, ?_⟩
      · rw [isIdentifier, String.toList_ofList, identifierChars, hc, Bool.true_and]
        exact List.all_eq_true.2 hp
      · exact List.forall_mem_map.2 fun q hq => by
          rw [String.toList_ofList]
          exact hlater q hq
      · rw [← intercalate_piecesOf extension, Text.piecesOf, hpieces]
        rfl
  · rintro ⟨first, later, hfirst, hlater, rfl⟩
    rw [intercalate_cons, String.toList_append]
    rw [isIdentifier] at hfirst
    cases hn : first.toList with
    | nil => rw [hn] at hfirst; cases hfirst
    | cons c cs =>
      rw [hn, identifierChars, Bool.and_eq_true, List.all_eq_true] at hfirst
      rw [List.cons_append, extensionChars, hfirst.1, Bool.true_and, List.all_eq_true]
      intro d hd
      rw [Bool.or_eq_true, beq_iff_eq]
      rcases List.mem_append.1 hd with hd | hd
      · exact .inl (hfirst.2 d hd)
      · rcases mem_dottedTail hd with rfl | ⟨n, hn, hd⟩
        · exact .inr rfl
        · exact .inl (hlater n hn d hd)

/-- What is accepted in parentheses is joined from identifiers, unless it has a gap. -/
theorem extensionChars_iff_joins_or_gap {extension : String} :
    extensionChars extension.toList = true ↔ JoinsIdentifiers extension ∨ HasGap extension := by
  rw [extensionChars_iff]
  constructor
  · rintro ⟨first, later, hfirst, hlater, rfl⟩
    by_cases hall : ∀ n ∈ later, isIdentifier n = true
    · exact .inl ((joinsIdentifiers_intercalate_iff hfirst hlater).2 hall)
    · obtain ⟨n, hn, hnone⟩ : ∃ n ∈ later, isIdentifier n = false := by simpa using hall
      exact .inr ⟨first, later, hfirst, hlater,
        ⟨n, hn, (isIdentifier_eq_false_iff (hlater n hn)).1 hnone⟩, rfl⟩
  · rintro (⟨parts, hne, hparts, rfl⟩ | ⟨first, later, hfirst, hlater, -, rfl⟩)
    · obtain ⟨first, later, rfl⟩ := List.exists_cons_of_ne_nil hne
      obtain ⟨hfirst, hlater⟩ := List.forall_mem_cons.1 hparts
      exact ⟨first, later, hfirst, fun n hn => isPart_of_isIdentifier (hlater n hn), rfl⟩
    · exact ⟨first, later, hfirst, hlater, rfl⟩

/-- Behind the parentheses, each field is read as an identifier. -/
theorem optionTail_iff {tail : String} : optionTail tail.toList = true ↔
    ∃ path, (∀ n ∈ path, isIdentifier n = true) ∧ tail = dottedTail path := by
  constructor
  · intro h
    cases hcs : tail.toList with
    | nil => exact ⟨[], by simp, String.toList_inj.1 hcs⟩
    | cons c cs =>
      rw [hcs, optionTail, Bool.and_eq_true, beq_iff_eq] at h
      obtain ⟨rfl, hdotted⟩ := h
      rw [← String.toList_ofList (l := cs)] at hdotted
      obtain ⟨parts, hne, hparts, hjoined⟩ := isDotted_iff.1 hdotted
      obtain ⟨first, later, rfl⟩ := List.exists_cons_of_ne_nil hne
      refine ⟨first :: later, hparts, ?_⟩
      rw [dottedTail_cons, String.append_assoc, ← intercalate_cons, ← hjoined,
        ← String.toList_inj, hcs, String.toList_append]
      exact congrArg ('.' :: ·) String.toList_ofList.symm
  · rintro ⟨path, hpath, rfl⟩
    cases path with
    | nil => rfl
    | cons first later =>
      have hdotted := isDotted_intercalate (List.cons_ne_nil first later) hpath
      rw [intercalate_cons] at hdotted
      rw [dottedTail_cons, String.append_assoc, String.toList_append]
      exact hdotted

theorem toList_inExtension (extension : String) (path : List String) :
    (inExtension extension path).toList =
      '(' :: (extension.toList ++ ')' :: (dottedTail path).toList) := by
  simp [inExtension]

/-- What stands in the parentheses is found again. -/
theorem inExtension_injective {extension extension' : String} {path path' : List String}
    (hext : extensionChars extension.toList = true)
    (hext' : extensionChars extension'.toList = true)
    (h : inExtension extension path = inExtension extension' path') : extension = extension' := by
  have hparen : ∀ {e : String}, extensionChars e.toList = true → ')' ∉ e.toList := fun he hmem =>
    absurd (not_mem_of_extensionChars he ')' hmem) (by decide)
  have hchars := congrArg String.toList h
  rw [toList_inExtension, toList_inExtension] at hchars
  obtain ⟨hsame, -⟩ := Text.cut_at (hparen hext) (hparen hext') (List.cons.inj hchars).2
  exact String.toList_inj.1 hsame

/-- An option across a gap has no name of an option. -/
theorem NamesOptionAcrossGap.not_namesOption {name : String} (h : NamesOptionAcrossGap name) :
    ¬ NamesOption name := by
  obtain ⟨extension, path, hgap, hpath, rfl⟩ := h
  rintro (hjoined | ⟨extension', path', hjoined, -, heq⟩)
  · -- a dotted name begins with a letter or an underscore
    have hdotted := isDotted_iff.2 hjoined
    rw [isDotted, toList_inExtension] at hdotted
    cases hdotted
  · obtain rfl := inExtension_injective (extensionChars_iff_joins_or_gap.2 (.inr hgap))
      (extensionChars_iff_joins_or_gap.2 (.inl hjoined)) heq
    exact hgap.not_joinsIdentifiers hjoined

theorem isOptionName_iff {name : String} :
    isOptionName name = true ↔ NamesOption name ∨ NamesOptionAcrossGap name := by
  constructor
  · intro h
    rcases optionName_cases h with hdotted | ⟨extension, tail, rfl, hext, htail⟩
    · exact .inl (.inl (isDotted_iff.1 hdotted))
    · obtain ⟨path, hpath, rfl⟩ := optionTail_iff.1 htail
      rcases extensionChars_iff_joins_or_gap.1 hext with hjoined | hgap
      · exact .inl (.inr ⟨extension, path, hjoined, hpath, rfl⟩)
      · exact .inr ⟨extension, path, hgap, hpath, rfl⟩
  · have hread : ∀ {extension : String} {path : List String},
        JoinsIdentifiers extension ∨ HasGap extension → (∀ n ∈ path, isIdentifier n = true) →
          isOptionName (inExtension extension path) = true := fun hext hpath =>
      isOptionName_extension (extensionChars_iff_joins_or_gap.2 hext)
        (optionTail_iff.2 ⟨_, hpath, rfl⟩)
    rintro ((hjoined | ⟨_, _, hjoined, hpath, rfl⟩) | ⟨_, _, hgap, hpath, rfl⟩)
    · exact isOptionName_of_isDotted (isDotted_iff.2 hjoined)
    · exact hread (.inl hjoined) hpath
    · exact hread (.inr hgap) hpath

theorem option_eq_ok_iff {name : String} : option name = .ok () ↔ isOptionName name = true := by
  rw [option]
  cases isOptionName name <;> simp

/-- **Names of options.** The check accepts all names that options are written by. What it accepts
otherwise are the options inside extensions whose names have a gap, so an accepted name is that of
an option just when there is no gap in it. -/
theorem option_accepts_iff (name : String) :
    (option name = .ok () ↔ NamesOption name ∨ NamesOptionAcrossGap name) ∧
      (option name = .ok () → (NamesOption name ↔ ¬ NamesOptionAcrossGap name)) := by
  have haccepted : option name = .ok () ↔ NamesOption name ∨ NamesOptionAcrossGap name :=
    option_eq_ok_iff.trans isOptionName_iff
  refine ⟨haccepted, fun h => ⟨fun hnames hgap => hgap.not_namesOption hnames, ?_⟩⟩
  exact (haccepted.1 h).resolve_right

/-- **A gap.** With two dots in a row, the name of an extension is accepted all the same. -/
theorem option_accepts_gap : option "(acme..tag)" = .ok () ∧ ¬ NamesOption "(acme..tag)" := by
  have hgap : NamesOptionAcrossGap "(acme..tag)" :=
    ⟨"acme..tag", [], ⟨"acme", ["", "tag"], by decide, by decide, by decide, rfl⟩, by decide, rfl⟩
  exact ⟨option_eq_ok_iff.2 (isOptionName_iff.2 (.inr hgap)), hgap.not_namesOption⟩

end WireSchema.Name

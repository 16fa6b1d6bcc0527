import WireSchema.Proofs.RulePlacement

/-!
# Addresses of rules

A rule stands at an address inside the validation extension. Authors choose the values of rules but
never an address: it is made of the group of a type and of fixed names, so every segment of it is an
identifier, and the option that states the rule has a name in the grammar of option names.

* `Rule.isOptionName_dotted`: a rule with such an address is stated by an option with a proper name.
* `LeafType.addressed_rules`: the rules of each leaf type have such addresses.
* `Field.addressed_of_value`: so have all rules of a field that builds, those of its elements beneath
  its own.
-/

namespace WireSchema

/-! ## Names made of identifiers -/

namespace Name

theorem dottedRest_append {p : List Char} (hp : p.all isPart = true) (cs : List Char) :
    dottedRest (p ++ cs) = dottedRest cs := by
  induction p with
  | nil => rfl
  | cons c p ih =>
    rw [List.all_cons, Bool.and_eq_true] at hp
    have hdot : (c == '.') = false := beq_false_of_ne <| by
      rintro rfl
      exact absurd hp.1 (by decide)
    rw [List.cons_append, dottedRest, hdot, if_neg Bool.false_ne_true, hp.1, Bool.true_and,
      ih hp.2]

/-- An identifier in front decides nothing about the rest of a dotted name. -/
theorem dottedChars_append {name : String} (h : isIdentifier name = true) (cs : List Char) :
    dottedChars (name.toList ++ cs) = dottedRest cs := by
  unfold isIdentifier at h
  cases hl : name.toList with
  | nil => rw [hl] at h; cases h
  | cons c p =>
    rw [hl, identifierChars, Bool.and_eq_true] at h
    rw [List.cons_append, dottedChars, h.1, Bool.true_and, dottedRest_append h.2]

theorem isDotted_of_isIdentifier {name : String} (h : isIdentifier name = true) :
    isDotted name = true := by
  have happend := dottedChars_append h []
  rwa [List.append_nil] at happend

/-- Identifiers with dots between them make a dotted name. -/
theorem isDotted_intercalate {path : List String} (hne : path ≠ [])
    (h : ∀ n ∈ path, isIdentifier n = true) : isDotted (".".intercalate path) = true := by
  induction path with
  | nil => exact absurd rfl hne
  | cons n path ih =>
    have hn := h n List.mem_cons_self
    cases path with
    | nil => rw [String.intercalate_singleton]; exact isDotted_of_isIdentifier hn
    | cons m path =>
      have hrest := ih (List.cons_ne_nil _ _) fun k hk => h k (List.mem_cons_of_mem _ hk)
      rw [String.intercalate_cons_cons, isDotted, String.toList_append, String.toList_append,
        List.append_assoc, dottedChars_append hn]
      exact hrest

theorem not_mem_of_extensionChars {cs : List Char} (h : extensionChars cs = true) :
    ∀ c ∈ cs, (c != ')') = true := by
  intro c hc
  refine bne_iff_ne.2 ?_
  rintro rfl
  cases cs with
  | nil => cases hc
  | cons d ds =>
    rw [extensionChars, Bool.and_eq_true] at h
    rcases List.mem_cons.1 hc with rfl | hc
    · exact absurd h.1 (by decide)
    · exact absurd (List.all_eq_true.1 h.2 _ hc) (by decide)

/-- What stands in parentheses ends at the first closing one, and the tail behind it follows. -/
theorem isOptionName_extension {extension tail : String}
    (hext : extensionChars extension.toList = true) (htail : optionTail tail.toList = true) :
    isOptionName ("(" ++ extension ++ ")" ++ tail) = true := by
  have htake : (extension.toList ++ ')' :: tail.toList).takeWhile (· != ')') =
      extension.toList := by
    rw [List.takeWhile_append_of_pos (not_mem_of_extensionChars hext)]
    simp
  have hdrop : (extension.toList ++ ')' :: tail.toList).dropWhile (· != ')') =
      ')' :: tail.toList := by
    rw [List.dropWhile_append_of_pos (not_mem_of_extensionChars hext)]
    simp
  have hlist : ("(" ++ extension ++ ")" ++ tail).toList =
      '(' :: (extension.toList ++ ')' :: tail.toList) := by simp
  rw [isOptionName, hlist]
  simp only [optionChars, hdrop, htake, hext, Bool.true_and]
  exact htail

/-- A dotted name beneath an extension is an option name. -/
theorem isOptionName_beneath {extension name : String}
    (hext : extensionChars extension.toList = true) (hname : isDotted name = true) :
    isOptionName ("(" ++ extension ++ ")." ++ name) = true := by
  have htext : "(" ++ extension ++ ")." ++ name = "(" ++ extension ++ ")" ++ ("." ++ name) := by
    rw [← String.toList_inj]
    simp
  rw [htext]
  refine isOptionName_extension hext ?_
  rw [String.toList_append]
  exact hname

end Name

/-! ## Rules -/

/-- A rule whose address is made of identifiers. -/
structure Rule.Addressed (r : Rule) : Prop where
  ne_nil : r.path ≠ []
  segments : ∀ n ∈ r.path, Name.isIdentifier n = true

namespace Rule

variable {r : Rule}

theorem addressed_single {name : String} (hpath : r.path = [name])
    (hname : Name.isIdentifier name = true) : r.Addressed :=
  ⟨by rw [hpath]; exact List.cons_ne_nil _ _, by simpa [hpath] using hname⟩

theorem addressed_pair {group name : String} (hpath : r.path = [group, name])
    (hgroup : Name.isIdentifier group = true) (hname : Name.isIdentifier name = true) :
    r.Addressed :=
  ⟨by rw [hpath]; exact List.cons_ne_nil _ _, by simpa [hpath] using ⟨hgroup, hname⟩⟩

theorem addressed_wrapped {outer : List String} (h : r.Addressed)
    (houter : ∀ n ∈ outer, Name.isIdentifier n = true) : (r.wrapped outer).Addressed :=
  ⟨List.append_ne_nil_of_right_ne_nil _ h.ne_nil, fun n hn =>
    (List.mem_append.1 hn).elim (houter n) (h.segments n)⟩

/-- The option beneath an extension that states a rule has an option name. -/
theorem isOptionName_dotted (h : r.Addressed) {extension : String}
    (hext : Name.extensionChars extension.toList = true) :
    Name.isOptionName ("(" ++ extension ++ ")." ++ r.dotted) = true :=
  Name.isOptionName_beneath hext (Name.isDotted_intercalate h.ne_nil h.segments)

/-- A table has addresses when its group and its names are identifiers. -/
theorem Within.addressed {group : String} {names : List String} {rules : List Rule}
    (h : Within group names rules) (hgroup : Name.isIdentifier group = true)
    (hnames : ∀ name ∈ names, Name.isIdentifier name = true) : ∀ r ∈ rules, r.Addressed := by
  intro r hr
  obtain ⟨name, hname, hpath⟩ := h.path_eq hr
  exact addressed_pair hpath hgroup (hnames name hname)

end Rule

theorem addressed_flag {on : Bool} {path : List String} (hne : path ≠ [])
    (hpath : ∀ n ∈ path, Name.isIdentifier n = true) :
    ∀ r ∈ if on then [Rule.flag path] else [], r.Addressed := by
  intro r hr
  split at hr
  · rw [List.mem_singleton.1 hr]; exact ⟨hne, hpath⟩
  · cases hr

/-! ## Rules of the leaf types -/

theorem NumericKind.isIdentifier_protoName (k : NumericKind) :
    Name.isIdentifier k.protoName = true := by
  cases k <;> decide

namespace LeafType

theorem isIdentifier_ruleNames (t : LeafType) :
    ∀ name ∈ t.ruleNames, Name.isIdentifier name = true := by
  cases t <;> simp only [ruleNames] <;> decide +kernel

theorem isIdentifier_group {t : LeafType} {group : String} (h : t.group? = some group) :
    Name.isIdentifier group = true := by
  cases t with
  | number k _ => cases h; exact k.isIdentifier_protoName
  | message target =>
    obtain ⟨w, -, hw⟩ := Option.bind_eq_some_iff.1 h
    cases w <;> cases hw <;> decide
  | _ => cases h; decide

/-- The rules of each leaf type, sample values apart, have addresses made of identifiers. -/
theorem addressed_rules (t : LeafType) : ∀ r ∈ t.rules, r.Addressed := by
  obtain hnone | ⟨group, hgroup, hwithin⟩ := t.rules_within
  · rw [hnone]; exact nofun
  · exact hwithin.addressed (isIdentifier_group hgroup) t.isIdentifier_ruleNames

theorem addressed_constantRule {t : LeafType} {r : Rule} (h : t.constantRule? = some r) :
    r.Addressed := by
  obtain ⟨group, v, hgroup, rfl⟩ := constantRule?_eq_some h
  exact Rule.addressed_pair rfl (isIdentifier_group hgroup) (by decide)

theorem addressed_exampleRules (t : LeafType) : ∀ r ∈ t.exampleRules, r.Addressed := by
  intro r hr
  obtain ⟨group, hgroup, hpath⟩ := path_of_mem_exampleRules hr
  exact Rule.addressed_pair hpath (isIdentifier_group hgroup) (by decide)

end LeafType

/-! ## Rules of fields -/

theorem Constraint.addressed_rule (c : Constraint) : c.rule.Addressed :=
  Rule.addressed_single rfl (by decide)

theorem FieldHead.addressed_rules (h : FieldHead) : ∀ r ∈ h.rules, r.Addressed := by
  intro r hr
  rcases path_of_mem_rules hr with hpath | hpath
  · exact Rule.addressed_single hpath (by decide)
  · exact Rule.addressed_single hpath (by decide)

/-- The rules of a field have addresses when those of its content have. -/
theorem FieldContent.addressed_allRules {c : FieldContent} (h : FieldHead)
    (hrules : ∀ r ∈ c.rules, r.Addressed) (hconstant : ∀ r, c.constant = some r → r.Addressed)
    (hexamples : ∀ r ∈ c.examples, r.Addressed) : ∀ r ∈ c.allRules h, r.Addressed := by
  intro r hr
  rcases List.mem_append.1 hr with hr | hr
  · exact hconstant r (Option.mem_toList.1 hr)
  · rcases List.mem_append.1 hr with hr | hr
    · exact (List.mem_append.1 hr).elim (hrules r) (h.addressed_rules r)
    · exact hexamples r hr

section Built

variable {s : Scope} {n : Nat} {d : FieldDescriptor}

theorem LeafField.addressed_of_value {f : LeafField} (h : (f.build s n).value = some d) :
    ∀ r ∈ d.rules, r.Addressed := by
  obtain ⟨kind, -, hc⟩ := value_build h
  rw [FieldContent.value_build hc]
  exact FieldContent.addressed_allRules f.head f.type.addressed_rules
    (fun r hr => LeafType.addressed_constantRule hr) f.type.addressed_exampleRules

namespace Field

theorem addressed_of_element {outer : String} {f : Field}
    (h : (buildElement s n outer f).value = some d) : ∀ r ∈ d.rules, r.Addressed := by
  obtain ⟨g, -, hg⟩ := value_element h
  exact LeafField.addressed_of_value hg

/-- The rules of an element move beneath those of the collection. -/
theorem addressed_wrapped {rules : List Rule} (h : ∀ r ∈ rules, r.Addressed) {outer : List String}
    (houter : ∀ n ∈ outer, Name.isIdentifier n = true) :
    ∀ r ∈ rules.map (Rule.wrapped outer), r.Addressed := by
  intro r hr
  obtain ⟨inner, hinner, rfl⟩ := List.mem_map.1 hr
  exact Rule.addressed_wrapped (h inner hinner) houter

/-- **The rules of a built field have addresses made of identifiers.** -/
theorem addressed_of_value {f : Field} (h : (f.build s n).value = some d) :
    ∀ r ∈ d.rules, r.Addressed := by
  cases f with
  | leaf f => exact LeafField.addressed_of_value (f := f) h
  | repeated head item count unique =>
    obtain ⟨i, -, hi, hc⟩ := value_repeated h
    rw [FieldContent.value_build hc]
    refine FieldContent.addressed_allRules head (fun r hr => ?_) nofun nofun
    have hown := (count.rules_within "repeated" Size.items).append
      (Rule.within_flag "repeated" "unique" unique)
    rcases List.mem_append.1 hr with hr | hr
    · exact hown.addressed (by decide) (by decide +kernel) r hr
    · exact addressed_wrapped (addressed_of_element hi) (by decide +kernel) r hr
  | map head key value pairs =>
    obtain ⟨k, v, -, hk, hv, hc⟩ := value_map h
    rw [FieldContent.value_build hc]
    refine FieldContent.addressed_allRules head (fun r hr => ?_) nofun nofun
    rcases List.mem_append.1 hr with hr | hr
    · rcases List.mem_append.1 hr with hr | hr
      · exact (pairs.rules_within "map" Size.pairs).addressed (by decide) (by decide) r hr
      · exact addressed_wrapped (addressed_of_element hk) (by decide +kernel) r hr
    · exact addressed_wrapped (addressed_of_element hv) (by decide +kernel) r hr

end Field

end Built

end WireSchema

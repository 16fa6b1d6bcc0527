import WireSchema.Proofs.FieldShape
import WireSchema.Proofs.StandingRules

/-!
# Checks of rules

When the checks that several kinds of field share find nothing, and when there is nothing to write.

* `Bounds.violations_map_eq_nil_iff`, `Members.violations_map_eq_nil_iff`: bounds and lists are
  checked as literals; what they find depends on how the literals of the declared values compare.
* `rules_eq_nil_iff`, for each kind of limit: nothing is written just when nothing was declared.
* `Draft.builds_iff`: a declared field builds just when its type finds nothing wrong with its rules
  and a constant stands alone.
-/

namespace WireSchema

/-! ## Bounds -/

namespace Bounds

variable {α : Type}

def Upper (b : Bounds α) (v : α) : Prop := b.lt = some v ∨ b.lte = some v

def Lower (b : Bounds α) (v : α) : Prop := b.gt = some v ∨ b.gte = some v

/-- At most one bound on each side, and a lower bound below an upper one. -/
structure Ordered (below : α → α → Prop) (b : Bounds α) : Prop where
  upper : b.lt = none ∨ b.lte = none
  lower : b.gt = none ∨ b.gte = none
  below : ∀ low high, b.Lower low → b.Upper high → below low high

theorem upper_map {β : Type} {f : α → β} {b : Bounds α} {v : β} :
    (b.map f).Upper v ↔ ∃ w, b.Upper w ∧ f w = v := by
  simp [Upper, map, or_and_right, exists_or]

theorem lower_map {β : Type} {f : α → β} {b : Bounds α} {v : β} :
    (b.map f).Lower v ↔ ∃ w, b.Lower w ∧ f w = v := by
  simp [Lower, map, or_and_right, exists_or]

theorem forall_named {b : Bounds α} {P : α → Prop} :
    (∀ x ∈ b.named, P x.2) ↔ ∀ v, b.Upper v ∨ b.Lower v → P v := by
  obtain ⟨lt, lte, gt, gte⟩ := b
  cases lt <;> cases lte <;> cases gt <;> cases gte <;>
    simp [named, Upper, Lower, or_imp, forall_and, and_assoc]

theorem named_map (f : α → Literal) (b : Bounds α) :
    (b.map f).named = b.named.map fun x => (x.1, f x.2) := by
  obtain ⟨lt, lte, gt, gte⟩ := b
  cases lt <;> cases lte <;> cases gt <;> cases gte <;> rfl

theorem upper?_map (f : α → Literal) (b : Bounds α) :
    (b.map f).upper? = b.upper?.map fun x => (x.1, f x.2) := by
  obtain ⟨lt, lte, gt, gte⟩ := b
  cases lt <;> cases lte <;> rfl

theorem lower?_map (f : α → Literal) (b : Bounds α) :
    (b.map f).lower? = b.lower?.map fun x => (x.1, f x.2) := by
  obtain ⟨lt, lte, gt, gte⟩ := b
  cases gt <;> cases gte <;> rfl

/-- With one bound on a side, that is the one which is looked at. -/
theorem upper_iff {b : Bounds α} (h : b.lt = none ∨ b.lte = none) {v : α} :
    b.Upper v ↔ ∃ name, b.upper? = some (name, v) := by
  obtain ⟨lt, lte, gt, gte⟩ := b
  cases lt <;> cases lte <;> simp_all [Upper, upper?]

theorem lower_iff {b : Bounds α} (h : b.gt = none ∨ b.gte = none) {v : α} :
    b.Lower v ↔ ∃ name, b.lower? = some (name, v) := by
  obtain ⟨lt, lte, gt, gte⟩ := b
  cases gt <;> cases gte <;> simp_all [Lower, lower?]

theorem inverted_eq_nil_iff {b : Bounds Literal} : b.inverted = [] ↔
    ∀ low high, b.lower? = some low → b.upper? = some high →
      low.2.compare high.2 ≠ some .gt ∧ low.2.compare high.2 ≠ some .eq := by
  unfold inverted
  cases hlow : b.lower? with
  | none => simp
  | some low =>
    cases hhigh : b.upper? with
    | none => simp
    | some high => cases hcompare : low.2.compare high.2 with
      | none => simp [hcompare]
      | some o => cases o <;> simp [hcompare]

theorem violations_eq_nil_iff {b : Bounds Literal} : b.violations = [] ↔
    (∀ v, b.Upper v ∨ b.Lower v → isNaN v = false) ∧ (b.lt = none ∨ b.lte = none) ∧
      (b.gt = none ∨ b.gte = none) ∧ b.inverted = [] := by
  have hnan : ((b.named.filter fun x => isNaN x.2).map fun x => Violation.nanBound x.1) = [] ↔
      ∀ v, b.Upper v ∨ b.Lower v → isNaN v = false := by
    rw [List.map_eq_nil_iff, List.filter_eq_nil_iff]
    simp only [Bool.not_eq_true]
    exact forall_named (P := fun v => isNaN v = false)
  have hpair : ∀ (x y : Option Literal) (v : Violation),
      (if x.isSome && y.isSome then [v] else []) = [] ↔ x = none ∨ y = none := by
    intro x y v
    cases x <;> cases y <;> simp
  simp only [violations, List.append_eq_nil_iff, hnan, hpair, and_assoc]

/-- The check of bounds through their literals, none of which is a NaN. `below` is what the order of
the literals says of the values. -/
theorem violations_map_eq_nil_iff {f : α → Literal} {below : α → α → Prop} {b : Bounds α}
    (hnan : ∀ v, b.Upper v ∨ b.Lower v → isNaN (f v) = false)
    (hcompare : ∀ low high, b.Lower low → b.Upper high →
      ∃ o, (f low).compare (f high) = some o ∧ (o = .lt ↔ below low high)) :
    (b.map f).violations = [] ↔ b.Ordered below := by
  have hclear : ∀ v, (b.map f).Upper v ∨ (b.map f).Lower v → isNaN v = false := by
    rintro v (hv | hv)
    · obtain ⟨w, hw, rfl⟩ := upper_map.1 hv
      exact hnan w (.inl hw)
    · obtain ⟨w, hw, rfl⟩ := lower_map.1 hv
      exact hnan w (.inr hw)
  have hbelow : ∀ low high, b.Lower low → b.Upper high →
      ((f low).compare (f high) ≠ some .gt ∧ (f low).compare (f high) ≠ some .eq ↔
        below low high) := by
    intro low high hlow hhigh
    obtain ⟨o, ho, hlt⟩ := hcompare low high hlow hhigh
    rw [ho, ← hlt]
    cases o <;> simp
  rw [violations_eq_nil_iff, inverted_eq_nil_iff, and_iff_right hclear, upper?_map, lower?_map]
  simp only [map, Option.map_eq_none_iff, Option.map_eq_some_iff]
  -- Of two bounds on a side only one is compared, but that they are two is found already.
  constructor
  · intro h
    obtain ⟨hone, hone', hinv⟩ := h
    refine ⟨hone, hone', fun low high hlow hhigh => (hbelow low high hlow hhigh).1 ?_⟩
    obtain ⟨name, hl⟩ := (lower_iff hone').1 hlow
    obtain ⟨name', hu⟩ := (upper_iff hone).1 hhigh
    exact hinv _ _ ⟨_, hl, rfl⟩ ⟨_, hu, rfl⟩
  · intro h
    refine ⟨h.upper, h.lower, ?_⟩
    rintro _ _ ⟨low, hl, rfl⟩ ⟨high, hu, rfl⟩
    have hlow := (lower_iff h.lower).2 ⟨low.1, hl⟩
    have hhigh := (upper_iff h.upper).2 ⟨high.1, hu⟩
    exact (hbelow _ _ hlow hhigh).2 (h.below _ _ hlow hhigh)

/-! ### No bounds -/

@[simp] theorem rules_eq_nil_iff {group : String} {b : Bounds Literal} :
    b.rules group = [] ↔ b = {} := by
  obtain ⟨lt, lte, gt, gte⟩ := b
  cases lt <;> cases lte <;> cases gt <;> cases gte <;> simp [rules, named]

@[simp] theorem map_eq_empty_iff {β : Type} {f : α → β} {b : Bounds α} : b.map f = {} ↔ b = {} := by
  obtain ⟨lt, lte, gt, gte⟩ := b
  simp [map]

end Bounds

/-! ## Allow and deny lists -/

namespace Members

variable {α : Type}

theorem violations_eq_nil_iff {m : Members Literal} :
    m.violations = [] ↔ ∀ a ∈ m.allowed, ∀ b ∈ m.denied, a.agrees b = false := by
  unfold violations shared
  split <;> simp_all

theorem violations_map_eq_nil_iff {f : α → Literal} {m : Members α} : (m.map f).violations = [] ↔
    ∀ a ∈ m.allowed, ∀ b ∈ m.denied, (f a).agrees (f b) = false := by
  simp [violations_eq_nil_iff, map]

@[simp] theorem rules_eq_nil_iff {group : String} {m : Members Literal} :
    m.rules group = [] ↔ m = {} := by
  obtain ⟨allowed, denied⟩ := m
  cases allowed <;> cases denied <;> simp [rules]

@[simp] theorem map_eq_empty_iff {β : Type} {f : α → β} {m : Members α} :
    m.map f = {} ↔ m = {} := by
  obtain ⟨allowed, denied⟩ := m
  simp [map]

end Members

/-! ## Lengths, affixes and formats -/

@[simp] theorem Length.rules_eq_nil_iff {group : String} {names : LengthNames} {l : Length} :
    l.rules group names = [] ↔ l = {} := by
  obtain ⟨⟨min, max⟩, exact⟩ := l
  cases min <;> cases max <;> cases exact <;> simp [rules, Size.rules]

@[simp] theorem Affixes.rules_eq_nil_iff {group : String} {a : Affixes Literal} :
    a.rules group = [] ↔ a = {} := by
  obtain ⟨pattern, leading, trailing, contains, notContains⟩ := a
  simp [rules]

@[simp] theorem Affixes.map_eq_empty_iff {α β : Type} {f : α → β} {a : Affixes α} :
    a.map f = {} ↔ a = {} := by
  obtain ⟨pattern, leading, trailing, contains, notContains⟩ := a
  simp [map]

@[simp] theorem Format.rules_eq_nil_iff {group : String} {formats : List Format} :
    Format.rules group formats = [] ↔ formats = [] := by
  cases formats <;> simp [rules]

/-! ## Fields -/

@[simp] theorem FieldHead.rules_eq_nil_iff {h : FieldHead} :
    h.rules = [] ↔ h.required = false ∧ h.constraints = [] := by
  simp [rules]

theorem LeafType.isSome_constantRule? {t : LeafType} {group : String} (h : t.group? = some group) :
    t.constantRule?.isSome = t.samples.constant.isSome := by
  simp only [constantRule?, h]
  cases t.samples.constant <;> rfl

theorem LeafType.exampleRules_eq_nil_iff {t : LeafType} {group : String}
    (h : t.group? = some group) : t.exampleRules = [] ↔ t.samples.examples = [] := by
  simp [exampleRules, h]

namespace Draft

variable {ρ ε α : Type} {type : ρ → LeafType} {d : Draft ρ} {kind : WireKind} {group : String}
variable {s : Scope} {n : Nat}

/-- All rules of the declared field but its constant. -/
def otherRules (type : ρ → LeafType) (d : Draft ρ) : List Rule :=
  (type d.rules).rules ++ d.head.rules ++ (type d.rules).exampleRules

/-- What a declared field reports: what its type finds wrong with the rules, and whatever stands
beside a constant. -/
theorem mem_report_build (hkind : (type d.rules).wireKind s = .ok kind)
    (hgroup : (type d.rules).group? = some group) {f : Finding} :
    f ∈ ((d.field type).build s n).report ↔ f.path = [] ∧
      (f.violation ∈ (type d.rules).violations ∨
        (type d.rules).samples.constant.isSome = true ∧
          (d.otherRules type ≠ [] ∧ f.violation = .constWithRules (Rule.names (d.otherRules type)) ∨
            d.optional = true ∧ f.violation = .constOptional)) := by
  have hreport : ((d.field type).build s n).report = .ofViolations ((type d.rules).violations ++
      ((d.field type).content kind).constantViolations d.head) := by
    simp only [LeafField.build, field, hkind]
    rfl
  have hconstant : ((d.field type).content kind).constant.isSome =
      (type d.rules).samples.constant.isSome := LeafType.isSome_constantRule? hgroup
  have hpinned : ∀ v, v ∈ ((d.field type).content kind).constantViolations d.head ↔
      (type d.rules).samples.constant.isSome = true ∧
        (d.otherRules type ≠ [] ∧ v = .constWithRules (Rule.names (d.otherRules type)) ∨
          d.optional = true ∧ v = .constOptional) := by
    have hother : ((d.field type).content kind).otherRules d.head = d.otherRules type := rfl
    have hoptional : ((d.field type).content kind).optional = d.optional := rfl
    intro v
    rw [FieldContent.constantViolations, hconstant, hother, hoptional]
    cases (type d.rules).samples.constant <;> cases hp : d.optional <;>
      by_cases hnone : d.otherRules type = [] <;> simp [hnone]
  rw [hreport, Report.ofViolations, List.mem_map, ← hpinned, ← List.mem_append]
  constructor
  · rintro ⟨v, hv, rfl⟩
    exact ⟨rfl, hv⟩
  · rintro ⟨hpath, hv⟩
    exact ⟨f.violation, hv, by rw [← hpath]⟩

theorem otherRules_eq_nil_iff (hgroup : (type d.rules).group? = some group) :
    d.otherRules type = [] ↔
      ((type d.rules).rules = [] ∧ (type d.rules).samples.examples = []) ∧
        d.head.required = false ∧ d.head.constraints = [] := by
  rw [otherRules, List.append_eq_nil_iff, List.append_eq_nil_iff, FieldHead.rules_eq_nil_iff,
    LeafType.exampleRules_eq_nil_iff hgroup, and_right_comm]

/-- **When a declared field builds.** Its type finds nothing wrong with its rules, and a constant
stands alone: the rules are nothing but the constant (`plain`), and the changes are bare. -/
theorem builds_iff {change : ρ → ε → ρ} {start : ρ} {name : String} {edits : List (Edit ε)}
    {constant : Option α} {plain : α → Prop} (h : declare change start name edits = .ok d)
    (hkind : (type d.rules).wireKind s = .ok kind) (hgroup : (type d.rules).group? = some group)
    (hconstant : (type d.rules).samples.constant.isSome = constant.isSome)
    (hplain : ∀ v, constant = some v →
      (plain v ↔ (type d.rules).rules = [] ∧ (type d.rules).samples.examples = [])) :
    (∃ g, ((d.field type).build s n).result = .ok g) ↔ (type d.rules).violations = [] ∧
      ∀ v, constant = some v → plain v ∧ Bare edits := by
  have halone : (∀ v, constant = some v → plain v ∧ Bare edits) ↔
      (constant.isSome = true → d.otherRules type = [] ∧ d.optional = false) := by
    cases constant with
    | none => simp
    | some v =>
      rw [otherRules_eq_nil_iff hgroup, ← hplain v rfl, and_assoc, and_assoc]
      simp [bare_iff h, and_comm, and_left_comm]
  simp only [Built.result_eq_ok_iff]
  rw [← Built.report_eq_nil_iff, halone, ← hconstant]
  constructor
  · intro hnil
    have hclear : ∀ v, (⟨[], v⟩ : Finding) ∉ ((d.field type).build s n).report := by simp [hnil]
    simp only [mem_report_build hkind hgroup, true_and, not_or, not_and] at hclear
    refine ⟨List.eq_nil_iff_forall_not_mem.2 fun v => (hclear v).1, fun hc => ⟨?_, ?_⟩⟩
    · by_contra hne
      exact ((hclear _).2 hc).1 hne rfl
    · by_contra hne
      exact ((hclear _).2 hc).2 (by simpa using hne) rfl
  · intro hclear
    obtain ⟨hviolations, hpinned⟩ := hclear
    refine List.eq_nil_iff_forall_not_mem.2 fun f hf => ?_
    obtain ⟨-, hv | ⟨hc, ⟨hne, -⟩ | ⟨hopt, -⟩⟩⟩ := (mem_report_build hkind hgroup).1 hf
    · rw [hviolations] at hv; cases hv
    · exact hne (hpinned hc).1
    · rw [(hpinned hc).2] at hopt; cases hopt

end Draft
end WireSchema

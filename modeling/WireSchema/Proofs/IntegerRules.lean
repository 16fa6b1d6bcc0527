import WireSchema.Proofs.RuleChecks

/-!
# Rules of integer fields

Five checks run on the rules of a number: each value fits the kind, the bounds are not NaN, they are
in order, no value is both allowed and denied, and only floats are finite. On an integer field they
come to one description in terms of integers (`NumberRules.Consistent`): once every value fits, each
of them is an integer of the kind, so that literals of either sign compare as their integers do
(`Literal.compare_of_integer?`) and no bound is a NaN.
-/

namespace WireSchema

/-! ## Integers -/

namespace NumericKind

/-- The bits of a value. -/
def width : NumericKind → Nat
  | float | int32 | uint32 | sint32 | fixed32 | sfixed32 => 32
  | double | int64 | uint64 | sint64 | fixed64 | sfixed64 => 64

/-- An integer kind holds the integers that its bits stand for, in two's complement if it is
signed. -/
def Holds (k : NumericKind) (i : Int) : Prop :=
  if k.isSigned then -Nat.pow 2 (k.width - 1) ≤ i ∧ i < Nat.pow 2 (k.width - 1)
  else 0 ≤ i ∧ i < Nat.pow 2 k.width

instance (k : NumericKind) (i : Int) : Decidable (k.Holds i) :=
  inferInstanceAs (Decidable (if k.isSigned then _ else _))

theorem fits_iff {k : NumericKind} (hk : k.isFloat = false) {v : Literal} :
    k.fits v = true ↔ ∃ i, v.integer? = some i ∧ k.Holds i := by
  obtain ⟨least, greatest, hrange, hholds⟩ : ∃ least greatest, k.range? = some (least, greatest) ∧
      ∀ i, k.Holds i ↔ least ≤ i ∧ i ≤ greatest := by
    cases k with
    | double | float => cases hk
    | _ => exact ⟨_, _, rfl, fun i => by simp [Holds, isSigned, width, Nat.pow_eq]; omega⟩
  unfold fits
  rw [hrange]
  cases hv : v.integer? <;> simp [hholds]

end NumericKind

namespace Literal

theorem isNaN_of_integer? {v : Literal} {i : Int} (h : v.integer? = some i) :
    Bounds.isNaN v = false := by
  cases v <;> first | rfl | cases h

/-- Integers compare exactly, whatever the signedness of their literals. -/
theorem compare_of_integer? {a b : Literal} {i j : Int} (ha : a.integer? = some i)
    (hb : b.integer? = some j) : a.compare b = some (Ord.compare i j) := by
  cases a <;> cases ha <;> cases b <;> cases hb <;> rfl

theorem agrees_of_integer? {a b : Literal} {i j : Int} (ha : a.integer? = some i)
    (hb : b.integer? = some j) : a.agrees b = true ↔ i = j := by
  have hcompare : (a.compare b == some .eq) = true ↔ i = j := by
    rw [compare_of_integer? ha hb]
    simp
  have hsame : a.same b = true → i = j := by
    cases a <;> cases ha <;> cases b <;> cases hb <;> simp +contextual [same]
  rw [agrees, Bool.or_eq_true, hcompare]
  exact ⟨fun h => h.elim hsame id, .inr⟩

/-- The integer of the one literal lies below that of the other. -/
def Below (a b : Literal) : Prop := ∃ i j, a.integer? = some i ∧ b.integer? = some j ∧ i < j

end Literal

/-! ## Rules -/

theorem Bounds.map_id {α : Type} (b : Bounds α) : b.map id = b := by
  simp [map]

namespace NumberRules

/-- The value stands in some rule, or it is a sample. -/
def Mentions (r : NumberRules) (v : Literal) : Prop :=
  r.range.Upper v ∨ r.range.Lower v ∨ v ∈ r.members.allowed ∨ v ∈ r.members.denied ∨
    r.samples.constant = some v ∨ v ∈ r.samples.examples

/-- Rules of an integer field that agree with the kind and with each other. `bare` is whether
nothing else is said about the field. -/
structure Consistent (k : NumericKind) (bare : Prop) (r : NumberRules) : Prop where
  fits : ∀ v, r.Mentions v → ∃ i, v.integer? = some i ∧ k.Holds i
  range : r.range.Ordered Literal.Below
  members : ∀ a ∈ r.members.allowed, ∀ b ∈ r.members.denied, a.integer? ≠ b.integer?
  finite : r.finite = false
  alone : ∀ v, r.samples.constant = some v → r = { samples := { constant := some v } } ∧ bare

theorem forall_named {r : NumberRules} {P : Literal → Prop} :
    (∀ x ∈ r.named, P x.2) ↔ ∀ v, r.Mentions v → P v := by
  simp only [named, List.forall_mem_append, Bounds.forall_named (P := P), Mentions]
  simp [Members.named, Samples.named, or_imp, forall_and, and_assoc]

theorem rules_eq_nil_iff {k : NumericKind} {r : NumberRules} :
    r.rules k = [] ↔ r.range = {} ∧ r.members = {} ∧ r.finite = false := by
  simp [rules]

/-- The checks of an integer kind. -/
theorem violations_eq_nil_iff {k : NumericKind} (hk : k.isFloat = false) {r : NumberRules} :
    r.violations k = [] ↔ (∀ v, r.Mentions v → ∃ i, v.integer? = some i ∧ k.Holds i) ∧
      r.range.Ordered Literal.Below ∧
      (∀ a ∈ r.members.allowed, ∀ b ∈ r.members.denied, a.integer? ≠ b.integer?) ∧
      r.finite = false := by
  have hfits : ((r.named.filter fun x => !k.fits x.2).map fun x =>
      Violation.boundTypeMismatch x.1 x.2.describe k.protoName) = [] ↔
        ∀ v, r.Mentions v → ∃ i, v.integer? = some i ∧ k.Holds i := by
    rw [List.map_eq_nil_iff, List.filter_eq_nil_iff]
    simp only [Bool.not_eq_true', Bool.not_eq_false, NumericKind.fits_iff hk]
    exact forall_named (P := fun v => ∃ i, v.integer? = some i ∧ k.Holds i)
  have hfinite : (if r.finite && !k.isFloat then [Violation.finiteOnNonFloat k.protoName] else [])
      = [] ↔ r.finite = false := by simp [hk]
  simp only [violations, List.append_eq_nil_iff, hfits, hfinite, and_assoc]
  -- The other checks are about integers only where every value is one.
  refine and_congr_right fun hall => and_congr ?_ (and_congr ?_ Iff.rfl)
  · have hliteral : r.range.violations = (r.range.map id).violations := by rw [Bounds.map_id]
    rw [hliteral]
    refine Bounds.violations_map_eq_nil_iff (fun v hv => ?_) (fun low high hlow hhigh => ?_)
    · obtain ⟨i, hi, -⟩ := hall v (by unfold Mentions; tauto)
      exact Literal.isNaN_of_integer? hi
    · obtain ⟨i, hi, -⟩ := hall low (.inr (.inl hlow))
      obtain ⟨j, hj, -⟩ := hall high (.inl hhigh)
      exact ⟨_, Literal.compare_of_integer? hi hj,
        by simp [Literal.Below, hi, hj, Int.compare_eq_lt]⟩
  · rw [Members.violations_eq_nil_iff]
    refine forall₂_congr fun a ha => forall₂_congr fun b hb => ?_
    obtain ⟨i, hi, -⟩ := hall a (.inr (.inr (.inl ha)))
    obtain ⟨j, hj, -⟩ := hall b (.inr (.inr (.inr (.inl hb))))
    rw [← Bool.not_eq_true, Literal.agrees_of_integer? hi hj, hi, hj, ne_eq, Option.some.injEq]

theorem eq_constant_iff {k : NumericKind} {r : NumberRules} {v : Literal}
    (hv : r.samples.constant = some v) :
    r = { samples := { constant := some v } } ↔ r.rules k = [] ∧ r.samples.examples = [] := by
  obtain ⟨range, members, ⟨constant, examples⟩, finite⟩ := r
  cases hv
  simp [rules_eq_nil_iff, and_assoc, and_comm, and_left_comm]

theorem consistent_iff {k : NumericKind} (hk : k.isFloat = false) {bare : Prop} {r : NumberRules} :
    r.Consistent k bare ↔ r.violations k = [] ∧ ∀ v, r.samples.constant = some v →
      r = { samples := { constant := some v } } ∧ bare := by
  rw [violations_eq_nil_iff hk]
  constructor
  · exact fun h => ⟨⟨h.fits, h.range, h.members, h.finite⟩, h.alone⟩
  · rintro ⟨⟨hfits, hrange, hmembers, hfinite⟩, halone⟩
    exact ⟨hfits, hrange, hmembers, hfinite, halone⟩

/-- **Integer fields accept exactly the consistent rules.** A field of an integer kind, declared by
any sequence of changes, builds in any context just when the rules that stand after them are
consistent. -/
theorem integer_builds_iff {k : NumericKind} (hk : k.isFloat = false) {name : String}
    {edits : List (Draft.Edit Edit)} {d : Draft NumberRules}
    (h : Draft.declare edit {} name edits = .ok d) (s : Scope) (n : Nat) :
    (∃ g, ((d.field (.number k)).build s n).result = .ok g) ↔
      (standing (Draft.ruleEdits edits)).Consistent k (Draft.Bare edits) := by
  have hrules : d.rules = standing (Draft.ruleEdits edits) :=
    Draft.rules_of_declare standing_concat h
  have hbuilds : (∃ g, ((d.field (.number k)).build s n).result = .ok g) ↔
      d.rules.violations k = [] ∧ ∀ v, d.rules.samples.constant = some v →
        d.rules = { samples := { constant := some v } } ∧ Draft.Bare edits :=
    Draft.builds_iff h rfl rfl rfl fun v hv => eq_constant_iff hv
  rw [hbuilds, ← hrules, consistent_iff hk]

/-- The bounds of a 64-bit field at the end of its range, one of which was set before. -/
theorem integer_builds_iff_uint64 :
    let scope : Scope := ⟨(Registry.ofFiles []).1, "a.proto", "buf/validate/validate.proto", []⟩
    let range (e : Bounds.Edit Literal) : Draft.Edit Edit := .rules (.range e)
    let edits : List (Draft.Edit Edit) := [
      range (.gt (.uint 18446744073709551615)), .head .required, range (.gt (.int 7)),
      .rules (.members (.allow [.int 9])), range (.lte (.uint 18446744073709551615))]
    ∃ d e, Draft.declare edit {} "id" edits = .ok d ∧
      (∃ g, ((d.field (.number .uint64)).build scope 1).result = .ok g) ∧
      Draft.declare edit {} "id" (edits ++ [.rules (.members (.deny [.uint 9]))]) = .ok e ∧
      ¬ ∃ g, ((e.field (.number .uint64)).build scope 1).result = .ok g := by
  intro scope range edits
  obtain ⟨d, hd⟩ : ∃ d, Draft.declare edit {} "id" edits = .ok d := exists_ok_of_isSome (by decide)
  obtain ⟨e, he⟩ : ∃ e, Draft.declare edit {} "id"
    (edits ++ [.rules (.members (.deny [.uint 9]))]) = .ok e := exists_ok_of_isSome (by decide)
  refine ⟨d, e, hd, (integer_builds_iff rfl hd scope 1).2 ?_, he, fun h => ?_⟩
  · have hstanding : standing (Draft.ruleEdits edits) = {
        range := { gt := some (.int 7), lte := some (.uint 18446744073709551615) },
        members := { allowed := [.int 9] } } := rfl
    rw [hstanding]
    refine ⟨?_, ⟨.inl rfl, .inr rfl, ?_⟩, by simp, rfl, by simp⟩
    · intro v hv
      have hvalue : v = .uint 18446744073709551615 ∨ v = .int 7 ∨ v = .int 9 := by
        simpa [Mentions, Bounds.Upper, Bounds.Lower, eq_comm] using hv
      rcases hvalue with rfl | rfl | rfl <;> exact ⟨_, rfl, by decide⟩
    · simp [Bounds.Upper, Bounds.Lower, Literal.Below, Literal.integer?]
  · have hconsistent := (integer_builds_iff rfl he scope 1).1 h
    exact hconsistent.members (.int 9) (.head _) (.uint 9) (.head _) rfl

end NumberRules
end WireSchema

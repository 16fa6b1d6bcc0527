import WireSchema.Enum
import WireSchema.Proofs.FieldNumbers

/-!
# Values of an enum

The one pass over the values of an enum, with what it has seen so far, finds nothing just when the
enum is sound: it has a zero value, its names are distinct, its numbers are distinct unless aliases
are allowed, and no value stands on a reserved number or name (`Enum.violations_eq_nil_iff`, by
induction on the values). This does not depend on their order (`Enum.Sound.of_perm`).
-/

namespace WireSchema.Enum

variable {e : Enum}

/-- What the checks of an enum ask for. -/
structure Sound (e : Enum) : Prop where
  zero : ∃ v ∈ e.values, v.number = 0
  names_nodup : (e.values.map EnumValue.name).Nodup
  numbers_nodup : e.allowAlias = false → (e.values.map EnumValue.number).Nodup
  ranges : ∀ r ∈ e.reservedRanges, r.first ≤ r.last ∧
    ∀ v ∈ e.values, ¬ (r.first ≤ v.number ∧ v.number ≤ r.last)
  names_free : ∀ name ∈ e.reservedNames, name ∉ e.values.map EnumValue.name

theorem valueViolations_eq_nil_iff {allowAlias : Bool} {earlier : List EnumValue} {v : EnumValue} :
    valueViolations allowAlias earlier v = [] ↔ v.name ∉ earlier.map EnumValue.name ∧
      (allowAlias = false → v.number ∉ earlier.map EnumValue.number) := by
  have hname : (if earlier.any (·.name == v.name) then [Violation.duplicateName v.name] else []) =
      [] ↔ v.name ∉ earlier.map EnumValue.name := by
    by_cases hmem : v.name ∈ earlier.map EnumValue.name <;> simp_all
  rw [valueViolations, List.append_eq_nil_iff, hname]
  refine and_congr_right fun _ => ?_
  cases hfind : earlier.find? (·.number == v.number) with
  | none =>
    have hfree : v.number ∉ earlier.map EnumValue.number := by
      simpa using List.find?_eq_none.1 hfind
    simp [hfree]
  | some first =>
    have hheld : v.number ∈ earlier.map EnumValue.number :=
      List.mem_map.2 ⟨first, List.mem_of_find?_eq_some hfind, by
        simpa using List.find?_some hfind⟩
    cases allowAlias <;> simp [hheld]

theorem valuesViolations_eq_nil_iff (allowAlias : Bool) (values : List EnumValue) : ∀ earlier,
    valuesViolations allowAlias earlier values = [] ↔
      NewAfter (earlier.map EnumValue.name) (values.map EnumValue.name) ∧
      (allowAlias = false →
        NewAfter (earlier.map EnumValue.number) (values.map EnumValue.number)) := by
  induction values with
  | nil => intro earlier; simp [valuesViolations, NewAfter]
  | cons v rest ih =>
    intro earlier
    simp only [valuesViolations, List.append_eq_nil_iff, ih, valueViolations_eq_nil_iff,
      List.map_append, List.map_cons, List.map_nil, newAfter_cons]
    constructor
    · intro h
      obtain ⟨⟨hname, hnumber⟩, hnames, hnumbers⟩ := h
      exact ⟨⟨hname, hnames⟩, fun ha => ⟨hnumber ha, hnumbers ha⟩⟩
    · intro h
      obtain ⟨⟨hname, hnames⟩, hnumbers⟩ := h
      exact ⟨⟨hname, fun ha => (hnumbers ha).1⟩, hnames, fun ha => (hnumbers ha).2⟩

theorem violations_eq_nil_iff (e : Enum) : e.violations = [] ↔ e.Sound := by
  have hzero : (if e.values.any (·.number == 0) then [] else [Violation.enumMissingZero]) = [] ↔
      ∃ v ∈ e.values, v.number = 0 := by
    by_cases h : ∃ v ∈ e.values, v.number = 0 <;> simp_all
  have hrange : ∀ r, reservedRangeViolations e.values r = [] ↔ r.first ≤ r.last ∧
      ∀ v ∈ e.values, ¬ (r.first ≤ v.number ∧ v.number ≤ r.last) := fun r => by
    unfold reservedRangeViolations
    by_cases hinv : r.last < r.first
    · have hempty : ¬ r.first ≤ r.last := Int.not_le.2 hinv
      simp [hinv, hempty]
    · simp [hinv, ReservedNumbers.contains, Int.not_lt.1 hinv]
  have hname : ∀ name, reservedNameViolations e.values name = [] ↔
      name ∉ e.values.map EnumValue.name := fun name => by
    unfold reservedNameViolations
    by_cases hmem : name ∈ e.values.map EnumValue.name <;> simp_all
  simp only [violations, List.append_eq_nil_iff, List.flatMap_eq_nil_iff, hzero, hrange, hname,
    valuesViolations_eq_nil_iff, List.map_nil, newAfter_nil]
  constructor
  · intro h
    obtain ⟨⟨⟨hz, hnames, hnumbers⟩, hranges⟩, hfree⟩ := h
    exact ⟨hz, hnames, hnumbers, hranges, hfree⟩
  · intro h
    exact ⟨⟨⟨h.zero, h.names_nodup, h.numbers_nodup⟩, h.ranges⟩, h.names_free⟩

/-- The checks do not depend on the order of the values. -/
theorem Sound.of_perm {values : List EnumValue} (h : e.values.Perm values) (hs : e.Sound) :
    Sound { e with values } where
  zero := by
    obtain ⟨v, hv, hz⟩ := hs.zero
    exact ⟨v, h.mem_iff.1 hv, hz⟩
  names_nodup := (h.map _).nodup_iff.1 hs.names_nodup
  numbers_nodup ha := (h.map _).nodup_iff.1 (hs.numbers_nodup ha)
  ranges r hr := ⟨(hs.ranges r hr).1, fun v hv => (hs.ranges r hr).2 v (h.mem_iff.2 hv)⟩
  names_free name hname hmem := hs.names_free name hname ((h.map _).mem_iff.2 hmem)

end WireSchema.Enum

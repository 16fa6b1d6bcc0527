import WireSchema.Proofs.Unresolved

/-!
# Reports of composites

A repeated field around a leaf, or a map from keys of a legal type to leaves, can be wrong in two
places: in its own settings, which are the bounds on its size and the demand that items be unique,
and in its elements. Its elements are built only when its settings are in order, so faults of both
never surface together.

* `Field.report_composite`: the report is that of the settings, or of the elements if nothing is
  wrong with the settings.
* `Field.report_composite_eq_nil_iff`: nothing is reported just when neither is wrong.
* `Field.composite_reports_all_iff`: everything is reported unless both are wrong.
-/

namespace WireSchema

namespace Report

theorem path_of_mem_ofViolations {vs : List Violation} {x : Finding} (h : x ∈ ofViolations vs) :
    x.path = [] := by
  obtain ⟨v, -, rfl⟩ := List.mem_map.1 h
  rfl

theorem path_of_mem_under {scope : String} {r : Report} {x : Finding} (h : x ∈ r.under scope) :
    x.path ≠ [] := by
  obtain ⟨y, -, rfl⟩ := List.mem_map.1 h
  exact List.cons_ne_nil _ _

end Report

namespace Field

/-- A composite around elements that it may have. -/
inductive Composite : Field → Prop
  | repeated {head : FieldHead} {item : Field} {count : Size} {unique : Bool}
      (hitem : item.isCollection = false) : Composite (.repeated head item count unique)
  | map {head : FieldHead} {key value : Field} {pairs : Size}
      (hkey : key.scalar?.any ScalarKind.isMapKey = true) (hvalue : value.isCollection = false) :
      Composite (.map head key value pairs)

/-- What is wrong with the settings of a composite. -/
def settingViolations : Field → List Violation
  | leaf _ => []
  | repeated _ item count unique =>
    (if unique && item.scalar?.isNone then [.uniqueOnNonScalar item.kindName] else [])
      ++ count.violations Size.items
  | map _ _ _ pairs => pairs.violations Size.pairs

/-- What the elements of a composite report when each is built on its own, without presence. -/
def elementReport (s : Scope) (number : Nat) : Field → Report
  | leaf _ => []
  | repeated _ item _ _ => (item.withoutPresence.build s number).report.under "items"
  | map _ key value _ =>
    (key.withoutPresence.build s 1).report.under "key"
      ++ (value.withoutPresence.build s 2).report.under "value"

variable {f : Field}

theorem buildElement_eq (h : f.isCollection = false) (s : Scope) (n : Nat) (outer : String) :
    buildElement s n outer f = f.withoutPresence.build s n := by
  cases f with
  | leaf f => rfl
  | repeated _ _ _ _ => cases h
  | map _ _ _ _ => cases h

theorem repeatedViolations_eq {item : Field} (h : item.isCollection = false) (head : FieldHead)
    (count : Size) (unique : Bool) :
    repeatedViolations item count unique = (repeated head item count unique).settingViolations := by
  simp [repeatedViolations, settingViolations, nestingViolations, h]

theorem mapViolations_eq {key value : Field} (hkey : key.scalar?.any ScalarKind.isMapKey = true)
    (hvalue : value.isCollection = false) (head : FieldHead) (pairs : Size) :
    mapViolations key value pairs = (map head key value pairs).settingViolations := by
  simp [mapViolations, settingViolations, nestingViolations, hkey, hvalue]

theorem path_of_mem_elementReport {s : Scope} {n : Nat} {x : Finding}
    (h : x ∈ f.elementReport s n) : x.path ≠ [] := by
  cases f with
  | leaf f => cases h
  | repeated _ _ _ _ => exact Report.path_of_mem_under h
  | map _ _ _ _ =>
    rcases List.mem_append.1 h with h | h
    · exact Report.path_of_mem_under h
    · exact Report.path_of_mem_under h

/-- **A composite reports its settings, or else its elements.** -/
theorem report_composite (h : f.Composite) (s : Scope) (n : Nat) : (f.build s n).report =
    if f.settingViolations = [] then f.elementReport s n
    else .ofViolations f.settingViolations := by
  cases h with
  | @repeated head item count unique hitem =>
    have hcontent : ∀ i, ((repeatedContent count unique i).build s n head).report = [] := fun i =>
      rfl
    rw [build, Built.report_ifClear, Built.report_andThen_of_clear hcontent, Built.report_under,
      buildElement_eq hitem, repeatedViolations_eq hitem head]
    simp only [Report.ofViolations_eq_nil_iff, elementReport]
  | @map head key value pairs hkey hvalue =>
    have hcontent : ∀ e : FieldDescriptor × FieldDescriptor,
        ((mapContent pairs e.1 e.2).build s n head).report = [] := fun e => rfl
    rw [build, Built.report_ifClear, Built.report_andThen_of_clear hcontent, Built.report_seq,
      Built.report_map, Built.report_under, Built.report_under,
      buildElement_eq (isCollection_of_scalar? hkey), buildElement_eq hvalue,
      mapViolations_eq hkey hvalue head]
    simp only [Report.ofViolations_eq_nil_iff, elementReport]

/-- A composite builds just when neither its settings nor its elements are wrong. -/
theorem report_composite_eq_nil_iff (h : f.Composite) (s : Scope) (n : Nat) :
    (f.build s n).report = [] ↔ f.settingViolations = [] ∧ f.elementReport s n = [] := by
  rw [report_composite h]
  split
  · next hclear => simp [hclear]
  · next hfaulty => simp [hfaulty]

/-- **When composites report everything.** A composite always reports what is wrong with its
settings. Along with that it reports everything that its elements report on their own, unless there
is something wrong with both; then it reports the settings only. -/
theorem composite_reports_all_iff (h : f.Composite) (s : Scope) (n : Nat) :
    .ofViolations f.settingViolations ⊆ (f.build s n).report ∧
      (.ofViolations f.settingViolations ++ f.elementReport s n ⊆ (f.build s n).report ↔
        f.settingViolations = [] ∨ f.elementReport s n = []) ∧
      (f.settingViolations ≠ [] → (f.build s n).report = .ofViolations f.settingViolations) := by
  rw [report_composite h]
  by_cases hclear : f.settingViolations = []
  · simp [hclear, Report.ofViolations]
  · rw [if_neg hclear]
    refine ⟨List.Subset.refl _, ⟨fun hall => .inr ?_, ?_⟩, fun _ => rfl⟩
    · -- The settings are reported in the scope of the field, the elements beneath it.
      refine List.eq_nil_iff_forall_not_mem.2 fun x hx => path_of_mem_elementReport hx ?_
      exact Report.path_of_mem_ofViolations (hall (List.mem_append_right _ hx))
    · rintro (hsettings | helements)
      · exact absurd hsettings hclear
      · rw [helements, List.append_nil]
        exact List.Subset.refl _

/-- A map whose key and value are both wrong, and are reported together. -/
theorem composite_reports_all_iff_map :
    let scope : Scope := ⟨(Registry.ofFiles []).1, "a.proto", "buf/validate/validate.proto", []⟩
    let range : Bounds Literal := { lt := some (.int 1), gt := some (.int 5) }
    let key : Field := .leaf { head := { name := "sku" }, type := .number .int64 { range } }
    let length : Length := { min := some 3, max := some 2 }
    let value : Field :=
      .leaf { head := { name := "note" }, optional := true, type := .string { length } }
    let f : Field := .map { name := "notes" } key value {}
    f.Composite ∧
      f.elementReport scope 1 = [⟨["key"], .invertedRange "gt 5" "lt 1"⟩,
        ⟨["value"], .minExceedsMax "min_len" "3" "max_len" "2"⟩] ∧
      .ofViolations f.settingViolations ++ f.elementReport scope 1 ⊆ (f.build scope 1).report := by
  intro scope range key length value f
  have hf : f.Composite := .map rfl rfl
  exact ⟨hf, by decide, (composite_reports_all_iff hf scope 1).2.1.2 (.inl rfl)⟩

/-- **Faulty settings hide faulty elements.** The bounds of the items contradict each other, and so
do the bounds on their number; just the latter are reported. -/
theorem composite_hides_elements :
    let scope : Scope := ⟨(Registry.ofFiles []).1, "a.proto", "buf/validate/validate.proto", []⟩
    let range : Bounds Literal := { lt := some (.int 1), gt := some (.int 5) }
    let item : Field := .leaf { head := { name := "id" }, type := .number .int64 { range } }
    let f : Field := .repeated { name := "ids" } item { min := some 5, max := some 2 } false
    f.Composite ∧
      (item.withoutPresence.build scope 1).report = [⟨[], .invertedRange "gt 5" "lt 1"⟩] ∧
      (f.build scope 1).report = [⟨[], .minExceedsMax "min_items" "5" "max_items" "2"⟩] ∧
      ¬ .ofViolations f.settingViolations ++ f.elementReport scope 1 ⊆
        (f.build scope 1).report := by
  intro scope range item f
  refine ⟨.repeated rfl, by decide, by decide, fun hall => ?_⟩
  have hmem : ⟨["items"], .invertedRange "gt 5" "lt 1"⟩ ∈
      Report.ofViolations f.settingViolations ++ f.elementReport scope 1 := by decide
  exact absurd (hall hmem) (by decide)

end Field

end WireSchema

import WireSchema.StringSet
import WireSchema.Report

/-!
# Outcomes of building

Building a part of a schema yields its value or a report of what is wrong with it, never both and
never neither (`Built.complete`), and in either case the imports it asks for. Outcomes combine
applicatively: the parts do not see each other, reports are concatenated, imports united, and the
whole has a value when every part has one.
-/

namespace WireSchema

/-- The outcome of building a part of a schema. -/
structure Built (α : Type) where
  value : Option α
  report : Report
  imports : StringSet
  complete : value.isSome ↔ report = []

namespace Built

variable {α β : Type}

/-! ## Combinators -/

protected def pure (a : α) : Built α := ⟨some a, [], ∅, by simp⟩

protected def map (f : α → β) (x : Built α) : Built β :=
  ⟨x.value.map f, x.report, x.imports, by simp [x.complete]⟩

protected def seq (f : Built (α → β)) (x : Built α) : Built β where
  value := f.value.bind fun g => x.value.map g
  report := f.report ++ x.report
  imports := f.imports ∪ x.imports
  complete := by
    have hf := f.complete
    have hx := x.complete
    rw [List.append_eq_nil_iff, ← hf, ← hx]
    cases f.value <;> cases x.value <;> simp

instance : Applicative Built where
  pure := Built.pure
  map := Built.map
  seq f x := Built.seq f (x ())

/-- Nothing but a check. -/
def check (r : Report) : Built Unit where
  value := if r = [] then some () else none
  report := r
  imports := ∅
  complete := by by_cases h : r = [] <;> simp [h]

/-- A failure. -/
def reject (r : Report) (h : r ≠ []) : Built α := ⟨none, r, ∅, by simp [h]⟩

/-- `next`, unless something was reported already. -/
def ifClear (r : Report) (next : Built α) : Built α := if h : r = [] then next else reject r h

/-- The outcome of `f` on the value, if there is one. The imports of both are kept. -/
def andThen (x : Built α) (f : α → Built β) : Built β :=
  match h : x.value with
  | some a => { f a with imports := x.imports ∪ (f a).imports }
  | none =>
    ⟨none, x.report, x.imports, by
      have hx := x.complete
      rw [h] at hx
      simpa using hx⟩

/-- The outcome with its report moved beneath `scope`. -/
def under (scope : String) (x : Built α) : Built α :=
  ⟨x.value, x.report.under scope, x.imports, by rw [x.complete]; simp [Report.under]⟩

/-- The outcome with more imports. -/
def importing (imports : StringSet) (x : Built α) : Built α :=
  { x with imports := x.imports ∪ imports }

/-- The outcomes of several parts in order. -/
def list : List (Built α) → Built (List α)
  | [] => Built.pure []
  | x :: xs => Built.seq (Built.map List.cons x) (list xs)

/-- The value, or the report. -/
def result (x : Built α) : Except Report α :=
  match x.value with
  | some a => .ok a
  | none => .error x.report

/-! ## Views -/

@[simp] theorem value_pure (a : α) : (pure a : Built α).value = some a := rfl
@[simp] theorem value_map (f : α → β) (x : Built α) : (f <$> x).value = x.value.map f := rfl
@[simp] theorem value_seq (f : Built (α → β)) (x : Built α) :
    (f <*> x).value = f.value.bind fun g => x.value.map g := rfl
@[simp] theorem value_check (r : Report) : (check r).value = if r = [] then some () else none := rfl
@[simp] theorem value_reject (r : Report) (h : r ≠ []) : (reject r h : Built α).value = none := rfl
@[simp] theorem value_under (scope : String) (x : Built α) : (x.under scope).value = x.value := rfl
@[simp] theorem value_importing (i : StringSet) (x : Built α) :
    (x.importing i).value = x.value := rfl

@[simp] theorem report_pure (a : α) : (pure a : Built α).report = [] := rfl
@[simp] theorem report_map (f : α → β) (x : Built α) : (f <$> x).report = x.report := rfl
@[simp] theorem report_seq (f : Built (α → β)) (x : Built α) :
    (f <*> x).report = f.report ++ x.report := rfl
@[simp] theorem report_check (r : Report) : (check r).report = r := rfl
@[simp] theorem report_reject (r : Report) (h : r ≠ []) : (reject r h : Built α).report = r := rfl
@[simp] theorem report_under (scope : String) (x : Built α) :
    (x.under scope).report = x.report.under scope := rfl
@[simp] theorem report_importing (i : StringSet) (x : Built α) :
    (x.importing i).report = x.report := rfl

@[simp] theorem imports_pure (a : α) : (pure a : Built α).imports = ∅ := rfl
@[simp] theorem imports_map (f : α → β) (x : Built α) : (f <$> x).imports = x.imports := rfl
@[simp] theorem imports_seq (f : Built (α → β)) (x : Built α) :
    (f <*> x).imports = f.imports ∪ x.imports := rfl
@[simp] theorem imports_check (r : Report) : (check r).imports = ∅ := rfl
@[simp] theorem imports_reject (r : Report) (h : r ≠ []) : (reject r h : Built α).imports = ∅ := rfl
@[simp] theorem imports_under (scope : String) (x : Built α) :
    (x.under scope).imports = x.imports := rfl
@[simp] theorem imports_importing (i : StringSet) (x : Built α) :
    (x.importing i).imports = x.imports ∪ i := rfl

end Built
end WireSchema

import Mathlib.Data.List.Forall2
import WireSchema.Session.Basic

/-!
# Outcomes and their parts

How the outcome of a whole follows from the outcomes of its parts.

* `Built.Yields.result_eq`: an outcome is decided by its report and by the value it has when the
  report is empty; `Yields` passes through every combinator.
* `Built.report_list`, `Built.mem_imports_list`, `Built.value_list_eq_some_iff`: the three views of
  several outcomes in a row.
* `mapM_eq_ok_iff`, `foldlM_induction`: steps one after another, each of which may fail, with what
  they give and what they keep.
-/

namespace WireSchema

namespace StringSet

theorem union_assoc (a b c : StringSet) : a ∪ b ∪ c = a ∪ (b ∪ c) :=
  ext fun p => by simp [or_assoc]

theorem union_comm (a b : StringSet) : a ∪ b = b ∪ a := ext fun p => by simp [or_comm]

@[simp] theorem empty_union (a : StringSet) : ∅ ∪ a = a := ext fun p => by simp

@[simp] theorem union_empty (a : StringSet) : a ∪ ∅ = a := ext fun p => by simp

@[simp] theorem mem_singleton {p q : String} : p ∈ singleton q ↔ p = q := by simp [singleton]

end StringSet

namespace Report

@[simp] theorem toExcept_nil {α : Type} (a : α) : toExcept [] a = .ok a := rfl

theorem toExcept_of_ne_nil {α : Type} {r : Report} (h : r ≠ []) (a : α) :
    r.toExcept a = .error r := by
  simp [toExcept, h]

@[simp] theorem under_append (scope : String) (q r : Report) :
    under scope (q ++ r) = under scope q ++ under scope r := List.map_append

@[simp] theorem under_eq_nil_iff {scope : String} {r : Report} : under scope r = [] ↔ r = [] := by
  simp [under]

@[simp] theorem ofViolations_eq_nil_iff {v : List Violation} : ofViolations v = [] ↔ v = [] := by
  simp [ofViolations]

end Report

namespace Built

variable {α β : Type}

theorem report_eq_nil_iff {x : Built α} : x.report = [] ↔ ∃ a, x.value = some a := by
  rw [← x.complete, Option.isSome_iff_exists]

theorem report_of_value {x : Built α} {a : α} (h : x.value = some a) : x.report = [] :=
  report_eq_nil_iff.2 ⟨a, h⟩

theorem value_of_report {x : Built α} (h : x.report ≠ []) : x.value = none := by
  cases hv : x.value with
  | none => rfl
  | some a => exact absurd (report_of_value hv) h

theorem result_of_value {x : Built α} {a : α} (h : x.value = some a) : x.result = .ok a := by
  simp [result, h]

theorem result_of_report {x : Built α} (h : x.report ≠ []) : x.result = .error x.report := by
  simp [result, value_of_report h]

theorem result_eq_ok_iff {x : Built α} {a : α} : x.result = .ok a ↔ x.value = some a := by
  unfold result
  cases x.value <;> simp

theorem seq_eq_some_iff {f : Built (α → β)} {x : Built α} {b : β} :
    (f <*> x).value = some b ↔ ∃ g a, f.value = some g ∧ x.value = some a ∧ g a = b := by
  simp only [value_seq, Option.bind_eq_some_iff, Option.map_eq_some_iff]
  constructor
  · intro h
    obtain ⟨g, hg, a, ha, rfl⟩ := h
    exact ⟨g, a, hg, ha, rfl⟩
  · intro h
    obtain ⟨g, a, hg, ha, rfl⟩ := h
    exact ⟨g, hg, a, ha, rfl⟩

theorem andThen_of_value {x : Built α} {a : α} (h : x.value = some a) (f : α → Built β) :
    x.andThen f = { f a with imports := x.imports ∪ (f a).imports } := by
  unfold andThen
  split <;> simp_all

theorem andThen_of_none {x : Built α} (h : x.value = none) (f : α → Built β) :
    x.andThen f = ⟨none, x.report, x.imports, by rw [← x.complete, h]; simp⟩ := by
  unfold andThen
  split <;> simp_all

/-- A value after another outcome is a value of both. -/
theorem value_andThen {x : Built α} {f : α → Built β} {b : β}
    (h : (x.andThen f).value = some b) : ∃ a, x.value = some a ∧ (f a).value = some b ∧
      (x.andThen f).imports = x.imports ∪ (f a).imports := by
  cases hx : x.value with
  | none => rw [andThen_of_none hx] at h; cases h
  | some a => rw [andThen_of_value hx] at h ⊢; exact ⟨a, rfl, h, rfl⟩

theorem report_andThen (x : Built α) (f : α → Built β) :
    (x.andThen f).report = match x.value with
      | some a => (f a).report
      | none => x.report := by
  cases hx : x.value with
  | none => rw [andThen_of_none hx]
  | some a => rw [andThen_of_value hx]

/-- What cannot fail adds nothing to the report. -/
theorem report_andThen_of_clear {x : Built α} {f : α → Built β} (h : ∀ a, (f a).report = []) :
    (x.andThen f).report = x.report := by
  rw [report_andThen]
  cases hx : x.value with
  | none => rfl
  | some a => simp [h, report_of_value hx]

theorem report_ifClear (r : Report) (next : Built α) :
    (ifClear r next).report = if r = [] then next.report else r := by
  unfold ifClear
  split <;> rfl

theorem ifClear_of_value {r : Report} {next : Built α} {a : α}
    (h : (ifClear r next).value = some a) : ifClear r next = next := by
  unfold ifClear at h ⊢
  split
  · rfl
  · next hr => rw [dif_neg hr] at h; cases h

theorem clear_of_ifClear {r : Report} {next : Built α} {a : α}
    (h : (ifClear r next).value = some a) : r = [] := by
  unfold ifClear at h
  split at h
  · assumption
  · cases h

/-! ## The value of an outcome without a report -/

/-- The outcome has the value `a` unless something is reported. -/
def Yields (x : Built α) (a : α) : Prop := x.report = [] → x.value = some a

theorem yields_check (r : Report) : (check r).Yields () := fun h => by simp_all

theorem Yields.map {x : Built α} {a : α} (h : x.Yields a) (f : α → β) : (f <$> x).Yields (f a) :=
  fun hr => by rw [value_map, h hr]; rfl

theorem Yields.seq {f : Built (α → β)} {x : Built α} {g : α → β} {a : α} (hf : f.Yields g)
    (hx : x.Yields a) : (f <*> x).Yields (g a) := by
  intro hr
  rw [report_seq, List.append_eq_nil_iff] at hr
  rw [value_seq, hf hr.1, hx hr.2]; rfl

theorem Yields.importing {x : Built α} {a : α} (h : x.Yields a) (i : StringSet) :
    (x.importing i).Yields a := h

theorem Yields.under {x : Built α} {a : α} (h : x.Yields a) (scope : String) :
    (x.under scope).Yields a :=
  fun hr => h (Report.under_eq_nil_iff.1 hr)

theorem Yields.result_eq {x : Built α} {a : α} (h : x.Yields a) :
    x.result = x.report.toExcept a := by
  by_cases hr : x.report = []
  · rw [result_of_value (h hr), hr, Report.toExcept_nil]
  · rw [result_of_report hr, Report.toExcept_of_ne_nil hr]

/-! ## Several outcomes -/

@[simp] theorem list_nil : list ([] : List (Built α)) = pure [] := rfl

@[simp] theorem list_cons (x : Built α) (xs : List (Built α)) :
    list (x :: xs) = (List.cons <$> x <*> list xs) := rfl

theorem report_list (xs : List (Built α)) : (list xs).report = xs.flatMap report := by
  induction xs with
  | nil => rfl
  | cons x xs ih => rw [list_cons, report_seq, report_map, ih, List.flatMap_cons]

theorem mem_imports_list {xs : List (Built α)} {p : String} :
    p ∈ (list xs).imports ↔ ∃ x ∈ xs, p ∈ x.imports := by
  induction xs with
  | nil => simp
  | cons x xs ih => simp [ih]

theorem value_list_eq_some_iff {xs : List (Built α)} {as : List α} :
    (list xs).value = some as ↔ List.Forall₂ (fun x a => x.value = some a) xs as := by
  induction xs generalizing as with
  | nil => simp [eq_comm]
  | cons x xs ih =>
    rw [list_cons, seq_eq_some_iff, List.forall₂_cons_left_iff]
    simp only [value_map, Option.map_eq_some_iff, ih]
    constructor
    · intro h
      obtain ⟨_, bs, ⟨a, ha, rfl⟩, hbs, rfl⟩ := h
      exact ⟨a, bs, ha, hbs, rfl⟩
    · intro h
      obtain ⟨a, bs, ha, hbs, rfl⟩ := h
      exact ⟨_, bs, ⟨a, ha, rfl⟩, hbs, rfl⟩

theorem yields_list (xs : List (Built α)) : (list xs).Yields (xs.filterMap value) := by
  induction xs with
  | nil => exact fun _ => rfl
  | cons x xs ih =>
    intro hr
    rw [list_cons, report_seq, report_map, List.append_eq_nil_iff] at hr
    obtain ⟨a, ha⟩ := report_eq_nil_iff.1 hr.1
    simp [ha, ih hr.2]

/-- The parts of a whole that succeeds, each with its own value. -/
theorem forall₂_of_value_list {ι : Type} {l : List ι} {build : ι → Built α} {as : List α}
    (h : (list (l.map build)).value = some as) :
    List.Forall₂ (fun i a => (build i).value = some a) l as := by
  rwa [value_list_eq_some_iff, List.forall₂_map_left_iff] at h

/-- The imports of a whole that succeeds, when each part has the imports that its value asks for. -/
theorem mem_imports_of_value_list {ι : Type} {l : List ι} {build : ι → Built α} {as : List α}
    {p : String} {Asks : α → Prop} (h : (list (l.map build)).value = some as)
    (hasks : ∀ i a, (build i).value = some a → (p ∈ (build i).imports ↔ Asks a)) :
    p ∈ (list (l.map build)).imports ↔ ∃ a ∈ as, Asks a := by
  induction l generalizing as with
  | nil =>
    cases h
    simp
  | cons i l ih =>
    rw [List.map_cons, list_cons] at h ⊢
    obtain ⟨_, bs, hcons, hbs, rfl⟩ := seq_eq_some_iff.1 h
    obtain ⟨a, ha, rfl⟩ := Option.map_eq_some_iff.1 hcons
    simp [hasks i a ha, ih hbs]

end Built

theorem exists_ok_of_isSome {ε α : Type} {x : Except ε α} (h : x.toOption.isSome = true) :
    ∃ a, x = .ok a := by
  cases x with
  | error e => cases h
  | ok a => exact ⟨a, rfl⟩

/-- A result with a summary is a value with that summary. -/
theorem exists_ok_of_summary {ε α β : Type} {x : Except ε α} {summary : α → β} {b : β}
    (h : x.toOption.map summary = some b) : ∃ a, x = .ok a ∧ summary a = b := by
  cases x with
  | error e => cases h
  | ok a => exact ⟨a, rfl, Option.some.inj h⟩

/-- A step that succeeds in front of another one has a value for it. -/
theorem exists_of_bind_ok {ε α β : Type} {x : Except ε α} {f : α → Except ε β} {b : β}
    (h : x >>= f = .ok b) : ∃ a, x = .ok a ∧ f a = .ok b := by
  cases x with
  | error e => cases h
  | ok a => exact ⟨a, rfl, h⟩

/-- A step that may fail and what follows it succeed when both do. -/
theorem bind_eq_ok_iff {ε α β : Type} {x : Except ε α} {f : α → Except ε β} {b : β} :
    x >>= f = .ok b ↔ ∃ a, x = .ok a ∧ f a = .ok b :=
  ⟨exists_of_bind_ok, fun ⟨a, ha, hf⟩ => by rw [ha]; exact hf⟩

/-- A step for each entry of a list succeeds when it does for all of them. -/
theorem mapM_eq_ok_iff {ε α β : Type} {f : α → Except ε β} {l : List α} {m : List β} :
    l.mapM f = .ok m ↔ List.Forall₂ (fun a b => f a = .ok b) l m := by
  induction l generalizing m with
  | nil =>
    rw [List.mapM_nil, List.forall₂_nil_left_iff]
    exact ⟨fun h => by cases h; rfl, fun h => by rw [h]; rfl⟩
  | cons a l ih =>
    rw [List.mapM_cons, bind_eq_ok_iff, List.forall₂_cons_left_iff]
    refine exists_congr fun b => ?_
    constructor
    · rintro ⟨ha, hrest⟩
      obtain ⟨bs, hbs, hm⟩ := bind_eq_ok_iff.1 hrest
      cases hm
      exact ⟨bs, ha, ih.1 hbs, rfl⟩
    · rintro ⟨bs, ha, hbs, rfl⟩
      exact ⟨ha, bind_eq_ok_iff.2 ⟨bs, ih.2 hbs, rfl⟩⟩

/-- What every step keeps of the steps done so far holds after all of them. -/
theorem foldlM_induction {ε σ ι : Type} {step : σ → ι → Except ε σ} {P : List ι → σ → Prop}
    (hstep : ∀ done i s s', P done s → step s i = .ok s' → P (done ++ [i]) s')
    {steps : List ι} {start final : σ} (hstart : P [] start)
    (hrun : steps.foldlM step start = .ok final) : P steps final := by
  have hrest (rest : List ι) : ∀ done s s', P done s → rest.foldlM step s = .ok s' →
      P (done ++ rest) s' := by
    induction rest with
    | nil =>
      intro done s s' hs hrun
      cases hrun
      rwa [List.append_nil]
    | cons i rest ih =>
      intro done s s' hs hrun
      rw [List.foldlM_cons] at hrun
      obtain ⟨next, hnext, hrun⟩ := exists_of_bind_ok hrun
      simpa using ih (done ++ [i]) next s' (hstep done i s next hs hnext) hrun
  exact hrest steps [] start final hstart hrun

/-- Lists that agree entry by entry agree on whether an entry is of some kind. -/
theorem exists_mem_congr_of_forall₂ {α β : Type} {R : α → β → Prop} {P : α → Prop} {Q : β → Prop}
    {l : List α} {m : List β} (h : List.Forall₂ R l m) (hpq : ∀ a b, R a b → (P a ↔ Q b)) :
    (∃ a ∈ l, P a) ↔ ∃ b ∈ m, Q b := by
  induction h with
  | nil => simp
  | cons hab _ ih => simp [hpq _ _ hab, ih]

/-- Every entry of the second of two related lists is related to an entry of the first. -/
theorem exists_of_forall₂_right {α β : Type} {R : α → β → Prop} {l : List α} {m : List β}
    (h : List.Forall₂ R l m) {b : β} (hb : b ∈ m) : ∃ a ∈ l, R a b := by
  induction h with
  | nil => cases hb
  | @cons a b' l m hab _ ih =>
    rcases List.mem_cons.1 hb with rfl | hb
    · exact ⟨a, List.mem_cons_self, hab⟩
    · obtain ⟨a', ha', hr⟩ := ih hb
      exact ⟨a', List.mem_cons_of_mem _ ha', hr⟩

theorem exists_of_forall₂_left {α β : Type} {R : α → β → Prop} {l : List α} {m : List β}
    (h : List.Forall₂ R l m) {a : α} (ha : a ∈ l) : ∃ b ∈ m, R a b :=
  exists_of_forall₂_right h.flip ha

/-- What is picked out of a list has its keys among those of the list, in their order. -/
theorem map_filterMap_sublist {α β γ : Type} {F : α → Option β} {key : β → γ} {key' : α → γ}
    (h : ∀ a b, F a = some b → key b = key' a) (l : List α) :
    ((l.filterMap F).map key).Sublist (l.map key') := by
  induction l with
  | nil => exact .refl _
  | cons a l ih =>
    cases hF : F a with
    | none =>
      rw [List.filterMap_cons_none hF]
      exact ih.cons _
    | some b =>
      rw [List.filterMap_cons_some hF, List.map_cons, List.map_cons, h a b hF]
      exact ih.cons_cons _

/-- Related lists have the same image when related entries do. -/
theorem map_eq_map_of_forall₂ {α β γ : Type} {R : α → β → Prop} {f : α → γ} {g : β → γ}
    {l : List α} {m : List β} (h : List.Forall₂ R l m) (hfg : ∀ a b, R a b → f a = g b) :
    l.map f = m.map g := by
  induction h with
  | nil => rfl
  | cons hab _ ih => rw [List.map_cons, List.map_cons, hfg _ _ hab, ih]

end WireSchema

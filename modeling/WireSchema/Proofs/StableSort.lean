import Mathlib.Data.List.Sort
import WireSchema.Enum
import WireSchema.Service

/-!
# Lists in canonical order

Fields come by number, enum values with the zero value first and then by number, methods by verb and
then by name. Each of these orders is total and transitive, so the sorted list is ascending
(`pairwise_stableSort`), elements of one key come as they were given (`filter_stableSort`), and
where no two elements share a key, the list does not depend on the order that the elements come in
(`stableSort_eq_of_perm`).
-/

namespace WireSchema

variable {α : Type} {le : α → α → Bool}

/-! ## Any total order -/

theorem insertBefore_eq_orderedInsert (x : α) (l : List α) :
    insertBefore le x l = l.orderedInsert (fun a b => le a b = true) x := by
  induction l with
  | nil => rfl
  | cons y ys ih => rw [insertBefore, List.orderedInsert, ih]

theorem stableSort_eq_insertionSort (l : List α) :
    stableSort le l = l.insertionSort fun a b => le a b = true := by
  induction l with
  | nil => rfl
  | cons x xs ih =>
    rw [stableSort, List.insertionSort_cons, ih, insertBefore_eq_orderedInsert]

/-- An order that a list can be sorted by. -/
structure SortsBy (le : α → α → Bool) : Prop where
  total : ∀ a b, le a b = true ∨ le b a = true
  trans : ∀ a b c, le a b = true → le b c = true → le a c = true

theorem pairwise_stableSort (h : SortsBy le) (l : List α) :
    (stableSort le l).Pairwise fun a b => le a b = true := by
  have : Std.Total fun a b => le a b = true := ⟨h.total⟩
  have : IsTrans α fun a b => le a b = true := ⟨h.trans⟩
  rw [stableSort_eq_insertionSort]
  exact List.pairwise_insertionSort _ l

/-- Elements that the order tells apart are sorted in one way, whatever order they come in. -/
theorem stableSort_eq_of_perm (h : SortsBy le) {l m : List α} (hperm : l.Perm m)
    (hantisymm : ∀ a ∈ l, ∀ b ∈ l, le a b = true → le b a = true → a = b) :
    stableSort le l = stableSort le m := by
  have hl := stableSort_perm le l
  have hm := stableSort_perm le m
  refine List.Perm.eq_of_pairwise (fun a b ha hb => ?_) (pairwise_stableSort h l)
    (pairwise_stableSort h m) (hl.trans (hperm.trans hm.symm))
  exact hantisymm a (hl.mem_iff.1 ha) b (hperm.mem_iff.2 (hm.mem_iff.1 hb))

/-- An element goes behind those that may not follow it, so among elements that may all go before
each other it comes first. -/
theorem filter_insertBefore {p : α → Bool}
    (h : ∀ a b, p a = true → p b = true → le a b = true) (x : α) (l : List α) :
    (insertBefore le x l).filter p = (x :: l).filter p := by
  induction l with
  | nil => rfl
  | cons y ys ih =>
    unfold insertBefore
    split
    · rfl
    · next hle =>
      -- `y` may not follow `x`, so at most one of them is kept and the swap is not seen
      have hne : ¬ (p x = true ∧ p y = true) := fun hp => hle (h x y hp.1 hp.2)
      rw [List.filter_cons, ih]
      by_cases hx : p x = true <;> by_cases hy : p y = true <;> simp_all

/-- **The sort is stable.** Elements that the order does not tell apart keep their order. -/
theorem filter_stableSort {p : α → Bool}
    (h : ∀ a b, p a = true → p b = true → le a b = true) (l : List α) :
    (stableSort le l).filter p = l.filter p := by
  induction l with
  | nil => rfl
  | cons x xs ih =>
    rw [stableSort, filter_insertBefore h, List.filter_cons, List.filter_cons, ih]

/-! ## Fields by number -/

theorem sortsBy_number {β : Type} : SortsBy fun a b : Nat × β => decide (a.1 ≤ b.1) where
  total a b := by simpa using Nat.le_total a.1 b.1
  trans a b c := by simpa using Nat.le_trans

theorem byNumber_eq_of_perm {β : Type} {l m : List (Nat × β)} (h : l.Perm m)
    (hnodup : (l.map Prod.fst).Nodup) : byNumber l = byNumber m :=
  stableSort_eq_of_perm sortsBy_number h fun a ha b hb hab hba =>
    List.inj_on_of_nodup_map hnodup ha hb
      (Nat.le_antisymm (by simpa using hab) (by simpa using hba))

/-- Distinct numbers come in strictly ascending order. -/
theorem byNumber_ascending {β : Type} {l : List (Nat × β)} (hnodup : (l.map Prod.fst).Nodup) :
    (byNumber l).Pairwise fun a b => a.1 < b.1 := by
  have hsorted : (byNumber l).Pairwise fun a b => decide (a.1 ≤ b.1) = true :=
    pairwise_stableSort sortsBy_number l
  have hdistinct : (byNumber l).Pairwise fun a b => a.1 ≠ b.1 := by
    rwa [← ((stableSort_perm _ l).map Prod.fst).nodup_iff, List.Nodup, List.pairwise_map] at hnodup
  exact hsorted.imp₂ (fun a b hle hne => Nat.lt_of_le_of_ne (of_decide_eq_true hle) hne) hdistinct

/-! ## Enum values -/

namespace Enum

theorem sortsBy_precedes : SortsBy precedes where
  total a b := by
    unfold precedes
    by_cases ha : a.number = 0 <;> by_cases hb : b.number = 0 <;> simp [ha, hb, Int.le_total]
  trans a b c := by
    unfold precedes
    by_cases ha : a.number = 0 <;> by_cases hb : b.number = 0 <;> by_cases hc : c.number = 0 <;>
      simp [ha, hb, hc]
    omega

/-- Values that go before each other have the same number. -/
theorem number_eq_of_precedes {a b : EnumValueDescriptor} (hab : precedes a b = true)
    (hba : precedes b a = true) : a.number = b.number := by
  unfold precedes at hab hba
  by_cases ha : a.number = 0 <;> by_cases hb : b.number = 0 <;> simp_all
  omega

end Enum

/-! ## Methods -/

namespace Method

theorem precedes_iff {a b : Method} : precedes a b = true ↔
    rank a.name < rank b.name ∨ rank a.name = rank b.name ∧ a.name ≤ b.name := by
  simp [precedes]

theorem sortsBy_precedes : SortsBy precedes where
  total a b := by
    simp only [precedes_iff]
    rcases Nat.lt_trichotomy (rank a.name) (rank b.name) with hlt | heq | hlt
    · exact .inl (.inl hlt)
    · exact (String.le_total a.name b.name).imp (.inr ⟨heq, ·⟩) (.inr ⟨heq.symm, ·⟩)
    · exact .inr (.inl hlt)
  trans a b c := by
    simp only [precedes_iff]
    rintro (hab | ⟨hab, hnab⟩) (hbc | ⟨hbc, hnbc⟩)
    · exact .inl (hab.trans hbc)
    · exact .inl (hbc ▸ hab)
    · exact .inl (hab ▸ hbc)
    · exact .inr ⟨hab.trans hbc, String.le_trans hnab hnbc⟩

/-- Methods that go before each other have the same name. -/
theorem name_eq_of_precedes {a b : Method} (hab : precedes a b = true)
    (hba : precedes b a = true) : a.name = b.name := by
  rcases precedes_iff.1 hab with hlt | ⟨heq, hle⟩
  · rcases precedes_iff.1 hba with hgt | ⟨heq, -⟩ <;> omega
  · rcases precedes_iff.1 hba with hlt | ⟨-, hge⟩
    · omega
    · exact String.le_antisymm hle hge

end Method

end WireSchema

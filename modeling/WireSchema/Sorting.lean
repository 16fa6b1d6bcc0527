/-!
# Stable sorting

Insertion from the right: an element goes before the first one it may precede, so elements that
the order does not tell apart keep their order.
-/

namespace WireSchema

variable {α : Type}

/-- `x` in front of the first element that it may precede. -/
def insertBefore (le : α → α → Bool) (x : α) : List α → List α
  | [] => [x]
  | y :: ys => if le x y then x :: y :: ys else y :: insertBefore le x ys

/-- The elements in ascending order, equal ones in their given order. -/
def stableSort (le : α → α → Bool) : List α → List α
  | [] => []
  | x :: xs => insertBefore le x (stableSort le xs)

theorem insertBefore_perm (le : α → α → Bool) (x : α) (l : List α) :
    (insertBefore le x l).Perm (x :: l) := by
  induction l with
  | nil => exact .refl _
  | cons y ys ih =>
    unfold insertBefore
    split
    · exact .refl _
    · exact (ih.cons y).trans (.swap x y ys)

theorem stableSort_perm (le : α → α → Bool) (l : List α) : (stableSort le l).Perm l := by
  induction l with
  | nil => exact .refl _
  | cons x xs ih => exact (insertBefore_perm le x _).trans (ih.cons x)

/-- Numbered things in ascending order of their numbers. -/
def byNumber {β : Type} (l : List (Nat × β)) : List (Nat × β) :=
  stableSort (fun a b => decide (a.1 ≤ b.1)) l

end WireSchema

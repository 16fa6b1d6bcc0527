import Mathlib.Data.String.Basic
import WireSchema.Literal.Order

/-!
# The order of literals

Range and membership rules rely on the order of literals. A literal that has an order has a key: an
integer, a text, a byte string or a moment (`Literal.HasKey`). Keys of one kind are ordered, each
kind in its own way (`OrderKey.Precedes`), and keys of two kinds are not comparable.

* `OrderKey.order?_eq_some_iff`: the comparison of keys tells which of two keys precedes the other.
* `Literal.compare_eq_some_iff`: floats aside, literals compare as their keys do, and without keys
  not at all.
* `Literal.compare_orders`: what follows for the order of literals.
-/

namespace WireSchema

/-! ## Comparisons -/

/-- The comparison of an ordered type tells how two values stand to each other. -/
theorem compare_iff_compares {α : Type} [Ord α] [LT α] [LE α] [Std.LawfulOrderOrd α]
    [Std.LawfulOrderLT α] [Std.LawfulEqOrd α] {a b : α} {o : Ordering} :
    Ord.compare a b = o ↔ o.Compares a b := by
  cases o with
  | lt => exact Std.compare_eq_lt
  | eq => exact Std.LawfulEqOrd.compare_eq_iff_eq
  | gt => exact Std.compare_eq_gt

/-- Byte strings compare in lexicographic order. -/
theorem Literal.compareBytes_iff_compares {o : Ordering} : ∀ {s t : List UInt8},
    compareBytes s t = o ↔ o.Compares s t
  | [], [] => by cases o <;> simp [compareBytes, Ordering.Compares]
  | [], b :: bs => by cases o <;> simp [compareBytes, Ordering.Compares]
  | a :: as, [] => by cases o <;> simp [compareBytes, Ordering.Compares]
  | a :: as, b :: bs => by
    have hrest (o : Ordering) := compareBytes_iff_compares (o := o) (s := as) (t := bs)
    have hfirst (o : Ordering) := compare_iff_compares (a := a) (b := b) (o := o)
    cases o with
    | lt =>
      rw [compareBytes, Ordering.then_eq_lt, hfirst, hfirst, hrest]
      exact List.cons_lt_cons_iff.symm
    | eq =>
      rw [compareBytes, Ordering.then_eq_eq, hfirst, hrest]
      exact List.cons_eq_cons.symm
    | gt =>
      rw [compareBytes, Ordering.then_eq_gt, hfirst, hfirst, hrest]
      exact (List.cons_lt_cons_iff.trans (or_congr_right (and_congr_left' eq_comm))).symm

/-! ## Keys -/

/-- What a literal is ordered by. -/
inductive OrderKey where
  | number (value : Int)
  | text (value : String)
  | data (bytes : List UInt8)
  | moment (seconds nanos : Int)

namespace OrderKey

/-- Keys of one kind. -/
inductive Alike : OrderKey → OrderKey → Prop
  | number (x y : Int) : Alike (number x) (number y)
  | text (s t : String) : Alike (text s) (text t)
  | data (s t : List UInt8) : Alike (data s) (data t)
  | moment (s n t m : Int) : Alike (moment s n) (moment t m)

/-- Numbers come in the order of their values, texts and byte strings in lexicographic order,
moments in the order of their seconds, and inside a second in that of their nanoseconds. -/
inductive Precedes : OrderKey → OrderKey → Prop
  | number {x y : Int} (h : x < y) : Precedes (number x) (number y)
  | text {s t : String} (h : List.Lex (· < ·) s.toList t.toList) : Precedes (text s) (text t)
  | data {s t : List UInt8} (h : List.Lex (· < ·) s t) : Precedes (data s) (data t)
  | second {s n t m : Int} (h : s < t) : Precedes (moment s n) (moment t m)
  | nano {s n m : Int} (h : n < m) : Precedes (moment s n) (moment s m)

instance : LT OrderKey := ⟨Precedes⟩

/-- The comparison of two keys. -/
def order? : OrderKey → OrderKey → Option Ordering
  | number x, number y => some (Ord.compare x y)
  | text s, text t => some (Ord.compare s t)
  | data s, data t => some (Literal.compareBytes s t)
  | moment s n, moment t m => some (Literal.compareMoments (s, n) (t, m))
  | _, _ => none

variable {k l m : OrderKey} {o o' : Ordering}

theorem Precedes.trans (h : Precedes k l) (h' : Precedes l m) : Precedes k m := by
  cases h with
  | number h =>
    cases h' with
    | number h' => exact .number (Int.lt_trans h h')
  | text h =>
    cases h' with
    | text h' => exact .text (List.lt_trans h h')
  | data h =>
    cases h' with
    | data h' => exact .data (List.lt_trans h h')
  | second h =>
    cases h' with
    | second h' => exact .second (Int.lt_trans h h')
    | nano _ => exact .second h
  | nano h =>
    cases h' with
    | second h' => exact .second h'
    | nano h' => exact .nano (Int.lt_trans h h')

theorem moment_lt_iff {s n t m : Int} :
    moment s n < moment t m ↔ s < t ∨ s = t ∧ n < m := by
  constructor
  · intro h
    cases h with
    | second h => exact .inl h
    | nano h => exact .inr ⟨rfl, h⟩
  · rintro (h | ⟨rfl, h⟩)
    · exact .second h
    · exact .nano h

/-- Keys made from ordered values compare as these do. -/
theorem compares_map {α : Type} [LT α] {f : α → OrderKey} {x y : α}
    (hlt : ∀ x y, f x < f y ↔ x < y) (hinj : Function.Injective f) :
    o.Compares (f x) (f y) ↔ o.Compares x y := by
  cases o with
  | lt => exact hlt x y
  | eq => exact hinj.eq_iff
  | gt => exact hlt y x

theorem compareMoments_iff_compares {s n t m : Int} :
    Literal.compareMoments (s, n) (t, m) = o ↔ o.Compares (moment s n) (moment t m) := by
  have hsecond (o : Ordering) := compare_iff_compares (a := s) (b := t) (o := o)
  have hnano (o : Ordering) := compare_iff_compares (a := n) (b := m) (o := o)
  cases o with
  | lt =>
    rw [Literal.compareMoments, Ordering.then_eq_lt, hsecond, hsecond, hnano]
    exact moment_lt_iff.symm
  | eq =>
    rw [Literal.compareMoments, Ordering.then_eq_eq, hsecond, hnano]
    exact (Iff.of_eq (moment.injEq s n t m)).symm
  | gt =>
    rw [Literal.compareMoments, Ordering.then_eq_gt, hsecond, hsecond, hnano]
    exact (moment_lt_iff.trans (or_congr_right (and_congr_left' eq_comm))).symm

theorem alike_of_compares (h : o.Compares k l) : k.Alike l := by
  cases o with
  | lt => cases h <;> constructor
  | eq =>
    cases h
    cases k <;> constructor
  | gt => cases h <;> constructor

/-- Keys of one kind are compared, and no others. -/
theorem order?_eq_none_iff : k.order? l = none ↔ ¬ k.Alike l := by
  constructor
  · rintro h (_ | _ | _ | _) <;> cases h
  · intro h
    cases k <;> cases l <;> first | rfl | exact absurd (by constructor) h

/-- The comparison of two keys tells how they stand to each other. -/
theorem order?_eq_some_iff : k.order? l = some o ↔ o.Compares k l := by
  by_cases h : k.Alike l
  · cases h with
    | number x y =>
      rw [order?, Option.some.injEq, compare_iff_compares]
      refine (compares_map (fun x y => ⟨fun h => ?_, .number⟩) fun x y h => ?_).symm
      · cases h; assumption
      · cases h; rfl
    | text s t =>
      rw [order?, Option.some.injEq, compare_iff]
      refine (compares_map (fun s t => ⟨fun h => ?_, fun h => ?_⟩) fun s t h => ?_).symm
      · cases h with
        | text h => exact String.lt_iff_toList_lt.2 h
      · exact .text (String.lt_iff_toList_lt.1 h)
      · cases h; rfl
    | data s t =>
      rw [order?, Option.some.injEq, Literal.compareBytes_iff_compares]
      refine (compares_map (fun s t => ⟨fun h => ?_, .data⟩) fun s t h => ?_).symm
      · cases h; assumption
      · cases h; rfl
    | moment s n t m => rw [order?, Option.some.injEq, compareMoments_iff_compares]
  · rw [order?_eq_none_iff.2 h]
    exact iff_of_false (fun he => by cases he) fun hc => h (alike_of_compares hc)

/-- Keys compare the other way round in reverse. -/
theorem order?_swap (k l : OrderKey) : l.order? k = (k.order? l).map Ordering.swap := by
  ext o
  rw [Option.map_eq_some_iff, order?_eq_some_iff, ← Ordering.compares_swap]
  constructor
  · intro h
    exact ⟨o.swap, order?_eq_some_iff.2 h, Ordering.swap_swap⟩
  · rintro ⟨o', h, rfl⟩
    rw [Ordering.swap_swap]
    exact order?_eq_some_iff.1 h

/-- Two steps that do not descend make one that does not: from a key to itself if both stay at it,
else upwards. -/
theorem order?_trans (h : k.order? l = some o) (h' : l.order? m = some o') (ho : o ≠ .gt)
    (ho' : o' ≠ .gt) : k.order? m = some (o.then o') := by
  rw [order?_eq_some_iff] at h h' ⊢
  cases o with
  | lt =>
    cases o' with
    | lt => exact Precedes.trans h h'
    | eq => exact h' ▸ h
    | gt => exact absurd rfl ho'
  | eq => exact (show k = l from h) ▸ h'
  | gt => exact absurd rfl ho

end OrderKey

/-! ## Literals and their keys -/

namespace Literal

/-- The key of a literal that has an order. In an aggregate the first field of a name counts. -/
inductive HasKey : Literal → OrderKey → Prop
  | int (v : Int) : HasKey (int v) (.number v)
  | uint (v : Nat) : HasKey (uint v) (.number v)
  | string (s : String) : HasKey (string s) (.text s)
  | bytes (data : List UInt8) : HasKey (bytes data) (.data data)
  | aggregate {fields : List (String × Literal)} {v w : Literal} {s n : Int}
      (seconds : (message fields).get? "seconds" = some v) (whole : v.integer? = some s)
      (nanos : (message fields).get? "nanos" = some w) (part : w.integer? = some n) :
      HasKey (message fields) (.moment s n)

variable {a b c : Literal} {k l : OrderKey} {o o' : Ordering}

theorem moment?_eq_some_iff {v : Literal} {s n : Int} : v.moment? = some (s, n) ↔
    (∃ w, v.get? "seconds" = some w ∧ w.integer? = some s) ∧
      ∃ w, v.get? "nanos" = some w ∧ w.integer? = some n := by
  simp [moment?, Option.bind_eq_some_iff]

theorem HasKey.unique (h : a.HasKey k) (h' : a.HasKey l) : k = l := by
  cases h with
  | aggregate seconds whole nanos part =>
    cases h' with
    | aggregate seconds' whole' nanos' part' =>
      have hmoment := moment?_eq_some_iff.2 ⟨⟨_, seconds, whole⟩, _, nanos, part⟩
      rw [moment?_eq_some_iff.2 ⟨⟨_, seconds', whole'⟩, _, nanos', part'⟩] at hmoment
      cases hmoment
      rfl
  | _ => cases h'; rfl

/-- Literals with keys compare as their keys do. -/
theorem HasKey.compare_eq (ha : a.HasKey k) (hb : b.HasKey l) : a.compare b = k.order? l := by
  cases ha with
  | aggregate seconds whole nanos part =>
    cases hb with
    | aggregate seconds' whole' nanos' part' =>
      rw [compare, moment?_eq_some_iff.2 ⟨⟨_, seconds, whole⟩, _, nanos, part⟩,
        moment?_eq_some_iff.2 ⟨⟨_, seconds', whole'⟩, _, nanos', part'⟩]
      rfl
    | _ => rfl
  | _ => cases hb <;> rfl

/-- A literal that is no float has a key, or it is not comparable with any that is no float. -/
theorem hasKey_or_incomparable (ha : a.isFloat = false) : (∃ k, a.HasKey k) ∨
    ∀ b : Literal, b.isFloat = false → a.compare b = none ∧ b.compare a = none := by
  cases a with
  | int v => exact .inl ⟨_, .int v⟩
  | uint v => exact .inl ⟨_, .uint v⟩
  | string s => exact .inl ⟨_, .string s⟩
  | bytes data => exact .inl ⟨_, .bytes data⟩
  | float x => cases ha
  | bool _ | ident _ | list _ =>
    refine .inr fun b hb => ?_
    cases b <;> first | exact ⟨rfl, rfl⟩ | cases hb
  | message fields =>
    cases hmoment : (message fields).moment? with
    | some moment =>
      obtain ⟨⟨v, seconds, whole⟩, w, nanos, part⟩ := moment?_eq_some_iff.1 hmoment
      exact .inl ⟨_, .aggregate seconds whole nanos part⟩
    | none =>
      refine .inr fun b hb => ?_
      cases b with
      | message others =>
        rw [compare, compare, hmoment]
        cases (message others).moment? <;> exact ⟨rfl, rfl⟩
      | float x => cases hb
      | _ => exact ⟨rfl, rfl⟩

/-- Floats aside, literals are comparable just when they have keys that are. -/
theorem compare_eq_some_iff (ha : a.isFloat = false) (hb : b.isFloat = false) :
    a.compare b = some o ↔ ∃ k l, a.HasKey k ∧ b.HasKey l ∧ o.Compares k l := by
  constructor
  · intro h
    rcases hasKey_or_incomparable ha with ⟨k, hk⟩ | hnone
    · rcases hasKey_or_incomparable hb with ⟨l, hl⟩ | hnone
      · rw [hk.compare_eq hl, OrderKey.order?_eq_some_iff] at h
        exact ⟨k, l, hk, hl, h⟩
      · rw [(hnone a ha).2] at h
        cases h
    · rw [(hnone b hb).1] at h
      cases h
  · rintro ⟨k, l, hk, hl, h⟩
    rw [hk.compare_eq hl, OrderKey.order?_eq_some_iff]
    exact h

/-- **The order of literals.** Floats aside, two literals compare as their keys do: integers
exactly, texts and byte strings lexicographically, aggregates by their seconds and nanoseconds. Each
two of one kind are comparable, and no others. The comparison is reversed with its sides, two steps
that do not descend make one (`eq` in both gives `eq`, `lt` in one of them gives `lt`), and equal
literals compare alike with all others. -/
theorem compare_orders (ha : a.isFloat = false) (hb : b.isFloat = false) (hc : c.isFloat = false) :
    (∀ o, a.compare b = some o ↔ ∃ k l, a.HasKey k ∧ b.HasKey l ∧ o.Compares k l) ∧
      (a.compare b = none ↔ ¬ ∃ k l, a.HasKey k ∧ b.HasKey l ∧ k.Alike l) ∧
      b.compare a = (a.compare b).map Ordering.swap ∧
      (∀ o o', a.compare b = some o → b.compare c = some o' → o ≠ .gt → o' ≠ .gt →
        a.compare c = some (o.then o')) ∧
      (a.compare b = some .eq → a.compare c = b.compare c) := by
  refine ⟨fun o => compare_eq_some_iff ha hb, ?_, ?_, fun o o' hab hbc ho ho' => ?_,
    fun hab => ?_⟩
  · constructor
    · rintro h ⟨k, l, hk, hl, halike⟩
      rw [hk.compare_eq hl, OrderKey.order?_eq_none_iff] at h
      exact h halike
    · intro h
      rw [Option.eq_none_iff_forall_ne_some]
      intro o ho
      obtain ⟨k, l, hk, hl, hkl⟩ := (compare_eq_some_iff ha hb).1 ho
      exact h ⟨k, l, hk, hl, OrderKey.alike_of_compares hkl⟩
  · rcases hasKey_or_incomparable ha with ⟨k, hk⟩ | hnone
    · rcases hasKey_or_incomparable hb with ⟨l, hl⟩ | hnone
      · rw [hk.compare_eq hl, hl.compare_eq hk, OrderKey.order?_swap]
      · rw [(hnone a ha).1, (hnone a ha).2, Option.map_none]
    · rw [(hnone b hb).1, (hnone b hb).2, Option.map_none]
  · obtain ⟨k, l, hk, hl, hkl⟩ := (compare_eq_some_iff ha hb).1 hab
    obtain ⟨l', m, hl', hm, hlm⟩ := (compare_eq_some_iff hb hc).1 hbc
    rw [← hl.unique hl'] at hlm
    rw [hk.compare_eq hm]
    exact OrderKey.order?_trans (OrderKey.order?_eq_some_iff.2 hkl)
      (OrderKey.order?_eq_some_iff.2 hlm) ho ho'
  · obtain ⟨k, l, hk, hl, hkl⟩ := (compare_eq_some_iff ha hb).1 hab
    have hsame : k = l := hkl
    rcases hasKey_or_incomparable hc with ⟨m, hm⟩ | hnone
    · rw [hk.compare_eq hm, hl.compare_eq hm, hsame]
    · rw [(hnone a ha).2, (hnone b hb).2]

/-- Aggregates whose integers differ in signedness, in the order of their fields and in fields that
do not count: the nanoseconds decide inside a second, and the seconds before them. -/
theorem compare_orders_moments :
    let a : Literal := .message [("seconds", .uint 1), ("nanos", .int 5)]
    let b : Literal :=
      .message [("nanos", .uint 7), ("seconds", .int 1), ("seconds", .string "late")]
    let c : Literal := .message [("seconds", .int 2), ("nanos", .int (-1))]
    (a.isFloat = false ∧ b.isFloat = false ∧ c.isFloat = false) ∧
      a.compare b = some .lt ∧ b.compare a = some .gt ∧ b.compare c = some .lt ∧
      a.compare c = some .lt := by
  intro a b c
  have ha : a.HasKey (.moment 1 5) := .aggregate rfl rfl rfl rfl
  have hb : b.HasKey (.moment 1 7) := .aggregate rfl rfl rfl rfl
  have hc : c.HasKey (.moment 2 (-1)) := .aggregate rfl rfl rfl rfl
  obtain ⟨hkeys, -, hswap, htrans, -⟩ := compare_orders (a := a) (b := b) (c := c) rfl rfl rfl
  have hab : a.compare b = some .lt :=
    (hkeys .lt).2 ⟨_, _, ha, hb, .nano (by decide)⟩
  have hbc : b.compare c = some .lt :=
    ((compare_orders (a := b) (b := c) (c := c) rfl rfl rfl).1 .lt).2
      ⟨_, _, hb, hc, .second (by decide)⟩
  refine ⟨⟨rfl, rfl, rfl⟩, hab, ?_, hbc, htrans .lt .lt hab hbc (by decide) (by decide)⟩
  rw [hswap, hab]
  rfl

end Literal
end WireSchema

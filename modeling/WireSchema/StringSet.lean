/-!
# Sets of strings

Import paths and ignored names form sets that are read in ascending order. A set is the strictly
ascending list of its strings, so equal sets are equal values (`StringSet.ext`) and `toList` lists
each string once.
-/

namespace WireSchema

/-- A finite set of strings. -/
structure StringSet where
  toList : List String
  ascending : toList.Pairwise (· < ·)

namespace StringSet

instance : Membership String StringSet := ⟨fun s p => p ∈ s.toList⟩

theorem mem_def {s : StringSet} {p : String} : p ∈ s ↔ p ∈ s.toList := Iff.rfl

instance (p : String) (s : StringSet) : Decidable (p ∈ s) :=
  inferInstanceAs (Decidable (p ∈ s.toList))

def empty : StringSet := ⟨[], .nil⟩

instance : EmptyCollection StringSet := ⟨empty⟩
instance : Inhabited StringSet := ⟨empty⟩

def size (s : StringSet) : Nat := s.toList.length
def isEmpty (s : StringSet) : Bool := s.toList.isEmpty
def contains (s : StringSet) (p : String) : Bool := s.toList.contains p

theorem contains_iff_mem {s : StringSet} {p : String} : s.contains p = true ↔ p ∈ s :=
  List.contains_iff_mem

/-! ## Insertion -/

/-- `p` in its place in an ascending list. -/
def place (p : String) : List String → List String
  | [] => [p]
  | q :: qs => if p < q then p :: q :: qs else if p = q then q :: qs else q :: place p qs

theorem mem_place {p r : String} {l : List String} : r ∈ place p l ↔ r = p ∨ r ∈ l := by
  induction l with
  | nil => simp [place]
  | cons q qs ih =>
    unfold place
    split
    · simp
    · split
      · subst p; simp
      · simp only [List.mem_cons, ih]
        constructor
        · rintro (h | h | h) <;> simp [h]
        · rintro (h | h | h) <;> simp [h]

theorem pairwise_place {p : String} {l : List String} (h : l.Pairwise (· < ·)) :
    (place p l).Pairwise (· < ·) := by
  induction l with
  | nil => simp [place]
  | cons q qs ih =>
    obtain ⟨hq, hqs⟩ := List.pairwise_cons.1 h
    unfold place
    split
    · next hp =>
      refine List.pairwise_cons.2 ⟨fun r hr => ?_, h⟩
      rcases List.mem_cons.1 hr with rfl | hr
      · exact hp
      · exact String.lt_trans hp (hq r hr)
    · split
      · exact h
      · next hp hne =>
        have hlt : q < p := Std.lt_of_le_of_ne (Std.not_lt.mp hp) (Ne.symm hne)
        refine List.pairwise_cons.2 ⟨fun r hr => ?_, ih hqs⟩
        rcases mem_place.1 hr with rfl | hr
        · exact hlt
        · exact hq r hr

def insert (p : String) (s : StringSet) : StringSet :=
  ⟨place p s.toList, pairwise_place s.ascending⟩

def singleton (p : String) : StringSet := insert p ∅

@[simp] theorem mem_insert {p r : String} {s : StringSet} : r ∈ s.insert p ↔ r = p ∨ r ∈ s :=
  mem_place

@[simp] theorem not_mem_empty {p : String} : p ∉ (∅ : StringSet) := List.not_mem_nil

/-! ## Removal -/

def erase (p : String) (s : StringSet) : StringSet :=
  ⟨s.toList.filter (· != p), s.ascending.sublist List.filter_sublist⟩

@[simp] theorem mem_erase {p r : String} {s : StringSet} : r ∈ s.erase p ↔ r ∈ s ∧ r ≠ p := by
  simp [mem_def, erase]

/-! ## Union -/

/-- The set with every string of the list added. -/
def insertAll (s : StringSet) (strings : List String) : StringSet :=
  strings.foldl (fun t p => t.insert p) s

@[simp] theorem mem_insertAll {r : String} {s : StringSet} {strings : List String} :
    r ∈ s.insertAll strings ↔ r ∈ s ∨ r ∈ strings := by
  induction strings generalizing s with
  | nil => simp [insertAll]
  | cons p ps ih =>
    have : s.insertAll (p :: ps) = (s.insert p).insertAll ps := rfl
    rw [this, ih, mem_insert]
    simp only [List.mem_cons]
    constructor
    · rintro ((h | h) | h) <;> simp [h]
    · rintro (h | h | h) <;> simp [h]

def ofList (strings : List String) : StringSet := (∅ : StringSet).insertAll strings

@[simp] theorem mem_ofList {r : String} {strings : List String} :
    r ∈ ofList strings ↔ r ∈ strings := by
  simp [ofList]

instance : Union StringSet := ⟨fun s t => s.insertAll t.toList⟩

@[simp] theorem mem_union {r : String} {s t : StringSet} : r ∈ s ∪ t ↔ r ∈ s ∨ r ∈ t :=
  mem_insertAll

/-! ## Equality -/

private theorem eq_of_mem_iff {l m : List String} (hl : l.Pairwise (· < ·))
    (hm : m.Pairwise (· < ·)) (h : ∀ p, p ∈ l ↔ p ∈ m) : l = m := by
  induction l generalizing m with
  | nil =>
    cases m with
    | nil => rfl
    | cons q qs => exact absurd ((h q).2 List.mem_cons_self) List.not_mem_nil
  | cons p ps ih =>
    cases m with
    | nil => exact absurd ((h p).1 List.mem_cons_self) List.not_mem_nil
    | cons q qs =>
      obtain ⟨hp, hps⟩ := List.pairwise_cons.1 hl
      obtain ⟨hq, hqs⟩ := List.pairwise_cons.1 hm
      have hpq : p = q := by
        rcases List.mem_cons.1 ((h p).1 List.mem_cons_self) with e | hpm
        · exact e
        · rcases List.mem_cons.1 ((h q).2 List.mem_cons_self) with e | hqm
          · exact e.symm
          · exact absurd (String.lt_trans (hp _ hqm) (hq _ hpm)) (String.lt_irrefl p)
      subst hpq
      refine congrArg _ (ih hps hqs fun r => ?_)
      constructor
      · intro hr
        rcases List.mem_cons.1 ((h r).1 (List.mem_cons_of_mem _ hr)) with rfl | h'
        · exact absurd (hp _ hr) (String.lt_irrefl r)
        · exact h'
      · intro hr
        rcases List.mem_cons.1 ((h r).2 (List.mem_cons_of_mem _ hr)) with rfl | h'
        · exact absurd (hq _ hr) (String.lt_irrefl r)
        · exact h'

/-- Sets with the same strings are equal. -/
theorem ext {s t : StringSet} (h : ∀ p, p ∈ s ↔ p ∈ t) : s = t := by
  obtain ⟨l, hl⟩ := s
  obtain ⟨m, hm⟩ := t
  have : l = m := eq_of_mem_iff hl hm h
  subst this
  rfl

end StringSet
end WireSchema

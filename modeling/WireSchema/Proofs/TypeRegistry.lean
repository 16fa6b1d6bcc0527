import Mathlib.Data.List.Infix
import Mathlib.Data.List.Nodup
import WireSchema.Package.Types

/-!
# What the registry of a package holds

The registry answers for a name what a plain search of all declarations in their order answers
(`Registry.find?_ofFiles`), and every declaration that it does not take is reported
(`Registry.violations_ofFiles`). A reference is looked up in the longest prefix of its scope under
which the whole name is declared (`Registry.resolve?_eq_some_iff`).
-/

namespace WireSchema

/-- One violation for each declaration but the first of its name; `earlier` are those before. -/
def redeclarations (earlier : List (String × Declaration)) :
    List (String × Declaration) → List Violation
  | [] => []
  | (name, d) :: rest =>
    (match earlier.lookup name with
      | some first => [.duplicateType name first.file d.file]
      | none => [])
      ++ redeclarations (earlier ++ [(name, d)]) rest

theorem mem_declaredTypes {files : List File} {full : String} {d : Declaration} :
    (full, d) ∈ declaredTypes files ↔
      ∃ f ∈ files, d.file = f.name ∧ (full, d.kind) ∈ f.declarations := by
  obtain ⟨file, kind⟩ := d
  simp only [declaredTypes, List.mem_flatMap, List.mem_map, Prod.exists, Prod.mk.injEq,
    Declaration.mk.injEq]
  constructor
  · intro h
    obtain ⟨f, hf, _, _, hd, rfl, rfl, rfl⟩ := h
    exact ⟨f, hf, rfl, hd⟩
  · intro h
    obtain ⟨f, hf, rfl, hd⟩ := h
    exact ⟨f, hf, full, kind, hd, rfl, rfl, rfl⟩

theorem map_declaredTypes (files : List File) : (declaredTypes files).map Prod.fst =
    files.flatMap fun f => f.declarations.map Prod.fst := by
  simp [declaredTypes, List.map_flatMap, Function.comp_def]

namespace Registry

/-! ## Registration -/

theorem register_of_find?_none {r : Registry} {name : String} (d : Declaration)
    (h : r.find? name = none) :
    ∃ grown, r.register name d = .ok grown ∧
      ∀ n, grown.find? n = (r.find? n).or ([(name, d)].lookup n) := by
  unfold register
  split
  · simp_all
  · exact ⟨_, rfl, fun n => List.lookup_append⟩

theorem register_of_find?_some {r : Registry} {name : String} {first : Declaration}
    (d : Declaration) (h : r.find? name = some first) : r.register name d = .error first := by
  unfold register
  split <;> simp_all

/-- What the registry answers after registering declarations, and what is reported meanwhile, when
it answers at first like the declarations `earlier`. -/
theorem registerAll_spec (ds : List (String × Declaration)) :
    ∀ (r : Registry) (earlier : List (String × Declaration)),
      (∀ n, r.find? n = earlier.lookup n) →
      (∀ n, (r.registerAll ds).1.find? n = (earlier ++ ds).lookup n) ∧
        (r.registerAll ds).2 = redeclarations earlier ds := by
  induction ds with
  | nil => intro r earlier h; simpa [registerAll, redeclarations] using h
  | cons e rest ih =>
    obtain ⟨name, d⟩ := e
    intro r earlier h
    rw [List.append_cons earlier (name, d) rest, redeclarations, registerAll]
    cases hl : earlier.lookup name with
    | none =>
      obtain ⟨grown, hg, hfind⟩ := register_of_find?_none d ((h name).trans hl)
      rw [hg]
      simpa using ih grown (earlier ++ [(name, d)]) fun n => by
        rw [hfind, h, List.lookup_append]
    | some first =>
      rw [register_of_find?_some d ((h name).trans hl)]
      have hkeep : ∀ n, r.find? n = (earlier ++ [(name, d)]).lookup n := by
        intro n
        rw [h, List.lookup_append]
        by_cases hn : n = name
        · subst hn; simp [hl]
        · have hb : (n == name) = false := by simpa using hn
          simp [List.lookup_cons, hb]
      obtain ⟨hfind, hviol⟩ := ih r _ hkeep
      exact ⟨hfind, by simp [hviol]⟩

theorem find?_empty (name : String) : (∅ : Registry).find? name = none := rfl

/-- **The first declaration of a name counts.** -/
theorem find?_ofFiles (files : List File) (name : String) :
    (ofFiles files).1.find? name = (declaredTypes files).lookup name :=
  (registerAll_spec (declaredTypes files) ∅ [] fun n => find?_empty n).1 name

/-- **Each later declaration of a name is reported.** -/
theorem violations_ofFiles (files : List File) :
    (ofFiles files).2 = redeclarations [] (declaredTypes files) :=
  (registerAll_spec (declaredTypes files) ∅ [] fun n => find?_empty n).2

/-! ## The innermost scope -/

/-- The innermost of the scopes around `scope`, itself included, with the property `p`: the longest
prefix of its path. -/
structure Innermost (p : List String → Prop) (scope outer : List String) : Prop where
  encloses : outer <+: scope
  holds : p outer
  longest : ∀ inner, inner <+: scope → outer.length < inner.length → ¬ p inner

theorem Innermost.eq {p : List String → Prop} {scope a b : List String}
    (ha : Innermost p scope a) (hb : Innermost p scope b) : a = b := by
  have hab : ¬ a.length < b.length := fun h => ha.longest b hb.encloses h hb.holds
  have hba : ¬ b.length < a.length := fun h => hb.longest a ha.encloses h ha.holds
  exact (List.prefix_of_prefix_length_le ha.encloses hb.encloses (by omega)).eq_of_length (by omega)

theorem enclosing_nil : enclosing [] = [[]] := rfl

theorem enclosing_concat (scope : List String) (name : String) :
    enclosing (scope ++ [name]) = (scope ++ [name]) :: enclosing scope := by
  unfold enclosing
  rw [List.length_append, List.length_singleton, List.range_succ, List.reverse_append,
    List.reverse_singleton, List.singleton_append, List.map_cons]
  refine congrArg₂ List.cons (List.take_of_length_le (by simp)) ?_
  refine List.map_congr_left fun k hk => ?_
  rw [List.mem_reverse, List.mem_range] at hk
  exact List.take_append_of_le_length (by omega)

theorem mem_enclosing {scope outer : List String} : outer ∈ enclosing scope ↔ outer <+: scope := by
  induction scope using List.reverseRecOn with
  | nil => simp [enclosing_nil]
  | append_singleton scope name ih =>
    rw [enclosing_concat, List.mem_cons, ih, List.prefix_concat_iff]

/-- The search from the inside outwards finds the innermost scope. -/
theorem find?_enclosing {p : List String → Bool} {scope outer : List String} :
    (enclosing scope).find? p = some outer ↔ Innermost (fun o => p o = true) scope outer := by
  induction scope using List.reverseRecOn with
  | nil =>
    rw [enclosing_nil, List.find?_singleton]
    constructor
    · intro h
      split at h
      · next hp => cases h; exact ⟨List.prefix_rfl, hp, fun i hi hl => by simp_all⟩
      · cases h
    · intro h
      have : outer = [] := List.prefix_nil.1 h.encloses
      subst this
      exact if_pos h.holds
  | append_singleton scope name ih =>
    rw [enclosing_concat, List.find?_cons]
    split
    · next hp =>
      constructor
      · rintro ⟨⟩
        exact ⟨List.prefix_rfl, hp, fun i hi hl => absurd hi.length_le (by omega)⟩
      · intro h
        have hw : Innermost (fun o => p o = true) (scope ++ [name]) (scope ++ [name]) :=
          ⟨List.prefix_rfl, hp, fun i hi hl => absurd hi.length_le (by omega)⟩
        rw [hw.eq h]
    · next hp =>
      rw [ih]
      constructor
      · intro h
        refine ⟨h.encloses.trans (List.prefix_append _ _), h.holds, fun i hi hl => ?_⟩
        rcases List.prefix_concat_iff.1 hi with rfl | hi
        · simp [hp]
        · exact h.longest i hi hl
      · intro h
        rcases List.prefix_concat_iff.1 h.encloses with rfl | ho
        · exact absurd h.holds (by simp [hp])
        · exact ⟨ho, h.holds, fun i hi hl =>
            h.longest i (hi.trans (List.prefix_append _ _)) hl⟩

theorem find?_enclosing_eq_none {p : List String → Bool} {scope : List String} :
    (enclosing scope).find? p = none ↔ ∀ outer, outer <+: scope → ¬ p outer = true := by
  simp only [List.find?_eq_none, mem_enclosing]

/-! ## References -/

/-- A registered name. -/
def Declares (r : Registry) (name : String) : Prop := (r.find? name).isSome = true

theorem declares_ofFiles {files : List File} {name : String} :
    (ofFiles files).1.Declares name ↔ name ∈ (declaredTypes files).map Prod.fst := by
  rw [Declares, find?_ofFiles, Option.isSome_iff_ne_none, ne_eq, lookup_eq_none, not_not]

theorem resolve?_eq (r : Registry) (scope : List String) (name : String) :
    r.resolve? scope name =
      ((enclosing scope).find? fun outer => (r.find? (within outer name)).isSome).bind fun outer =>
        (r.find? (within outer name)).map fun d => (within outer name, d) := by
  unfold resolve?
  induction enclosing scope with
  | nil => rfl
  | cons outer rest ih =>
    rw [List.findSome?_cons, List.find?_cons]
    cases hf : r.find? (within outer name) with
    | some d => simp [hf]
    | none => simpa [hf] using ih

/-- **Innermost scope first.** A reference stands for the declaration of its whole name in the
longest prefix of its scope that has one. -/
theorem resolve?_eq_some_iff {r : Registry} {scope : List String} {name full : String}
    {d : Declaration} :
    r.resolve? scope name = some (full, d) ↔
      ∃ outer, Innermost (fun o => r.Declares (within o name)) scope outer ∧
        full = within outer name ∧ r.find? full = some d := by
  rw [resolve?_eq, Option.bind_eq_some_iff]
  constructor
  · intro h
    obtain ⟨outer, ho, hd⟩ := h
    obtain ⟨d', hd', he⟩ := Option.map_eq_some_iff.1 hd
    cases he
    exact ⟨outer, find?_enclosing.1 ho, rfl, hd'⟩
  · intro h
    obtain ⟨outer, ho, rfl, hd⟩ := h
    exact ⟨outer, find?_enclosing.2 ho, by rw [hd]; rfl⟩

theorem resolve?_eq_none_iff {r : Registry} {scope : List String} {name : String} :
    r.resolve? scope name = none ↔ ∀ outer, outer <+: scope → ¬ r.Declares (within outer name) := by
  rw [resolve?_eq, Option.bind_eq_none_iff]
  constructor
  · intro h outer ho hd
    cases hf : (enclosing scope).find? fun outer => (r.find? (within outer name)).isSome with
    | none => exact find?_enclosing_eq_none.1 hf outer ho hd
    | some o =>
      have hn := h o hf
      have hs := (find?_enclosing.1 hf).holds
      rw [Option.map_eq_none_iff] at hn
      rw [hn] at hs; cases hs
  · intro h outer ho
    exact absurd (find?_enclosing.1 ho).holds (h outer (find?_enclosing.1 ho).encloses)

end Registry
end WireSchema

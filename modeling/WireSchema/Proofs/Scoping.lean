import WireSchema.Proofs.DeclaredPaths

/-!
# Two ways of looking up a dotted name

The scoping of the schema language commits to the innermost scope that declares the first component
of a name. The registry searches every scope for the whole name, so it goes on outwards where that
scope lacks the rest.

* `Registry.resolve?_eq_commit?_iff`: the two differ exactly for a name that is shadowed in this
  way.
* `Registry.resolve?_falls_back`: a file without redeclarations where they differ.
-/

namespace WireSchema

namespace Registry

/-- What the scoping of the schema language picks for the name `first.rest`: the innermost scope
that declares `first` is the one that the whole name is looked up in. -/
def commit? (r : Registry) (scope : List String) (first : String) (rest : List String) :
    Option (String × Declaration) :=
  ((enclosing scope).find? fun outer => (r.find? (within outer first)).isSome).bind fun outer =>
    (r.find? (within outer (".".intercalate (first :: rest)))).map fun d =>
      (within outer (".".intercalate (first :: rest)), d)

/-- The innermost scope that declares `first` lacks the whole name, which a scope further out has.
-/
def Shadows (r : Registry) (scope : List String) (first : String) (rest : List String) : Prop :=
  ∃ inner outer, Innermost (fun o => r.Declares (within o first)) scope inner ∧
    outer <+: scope ∧ outer.length < inner.length ∧
    ¬ r.Declares (within inner (".".intercalate (first :: rest))) ∧
    r.Declares (within outer (".".intercalate (first :: rest)))

/-- The two lookups in a registry where a scope that has the whole name has its first component. -/
theorem lookups_agree_iff {r : Registry} {scope : List String} {first : String}
    {rest : List String} (hclosed : ∀ outer, outer <+: scope →
      r.Declares (within outer (".".intercalate (first :: rest))) →
        r.Declares (within outer first)) :
    r.resolve? scope (".".intercalate (first :: rest)) = r.commit? scope first rest ↔
      ¬ r.Shadows scope first rest := by
  unfold commit?
  cases hf : (enclosing scope).find? fun o => (r.find? (within o first)).isSome with
  | none =>
    have hnone := find?_enclosing_eq_none.1 hf
    rw [resolve?_eq_none_iff.2 fun outer ho h => hnone outer ho (hclosed outer ho h)]
    refine iff_of_true rfl ?_
    intro h
    obtain ⟨inner, outer, hinner, -⟩ := h
    exact hnone inner hinner.encloses hinner.holds
  | some inner =>
    have hinner := find?_enclosing.1 hf
    rw [Option.bind_some]
    cases hw : r.find? (within inner (".".intercalate (first :: rest))) with
    | some d =>
      have hwhole : r.Declares (within inner (".".intercalate (first :: rest))) := by
        rw [Declares, hw]; rfl
      have hinnermost : Innermost (fun o => r.Declares (within o (".".intercalate (first :: rest))))
          scope inner := ⟨hinner.encloses, hwhole, fun o ho hlt h =>
        hinner.longest o ho hlt (hclosed o ho h)⟩
      rw [resolve?_eq_some_iff.2 ⟨inner, hinnermost, rfl, hw⟩]
      refine iff_of_true rfl ?_
      intro h
      obtain ⟨inner', outer, hinner', -, -, hlacks, -⟩ := h
      rw [hinner.eq hinner'] at hwhole
      exact hlacks hwhole
    | none =>
      have hlacks : ¬ r.Declares (within inner (".".intercalate (first :: rest))) := by
        rw [Declares, hw]; exact Bool.false_ne_true
      rw [Option.map_none, resolve?_eq_none_iff]
      constructor
      · rintro hnone ⟨inner', outer, -, ho, -, -, hhas⟩
        exact hnone outer ho hhas
      · intro hshadow outer ho hhas
        -- a scope with the whole name has its first component, so it is not further in
        have hle : outer.length ≤ inner.length := Nat.le_of_not_lt fun hlt =>
          hinner.longest outer ho hlt (hclosed outer ho hhas)
        have hne : outer.length ≠ inner.length := fun he => hlacks <| by
          rwa [← (List.prefix_of_prefix_length_le ho hinner.encloses hle).eq_of_length he]
        exact hshadow ⟨inner, outer, hinner, ho, by omega, hlacks, hhas⟩

section

variable {files : List File} (hfiles : ∀ f ∈ files, f.Named) {scope : List String}
  (hscope : ∀ n ∈ scope, Name.isIdentifier n = true) {first : String} {rest : List String}
  (hname : ∀ n ∈ first :: rest, Name.isIdentifier n = true)

include hfiles hscope hname

/-- A scope that declares a dotted name declares the first component of it. -/
theorem declares_first
    (h : (ofFiles files).1.Declares (within scope (".".intercalate (first :: rest)))) :
    (ofFiles files).1.Declares (within scope first) := by
  have hwhole : ∀ n ∈ scope ++ first :: rest, Name.isIdentifier n = true := fun n hn =>
    (List.mem_append.1 hn).elim (hscope n) (hname n)
  have hfirst : within scope first = ".".intercalate (scope ++ [first]) := by
    rw [← within_intercalate hscope (List.cons_ne_nil first []), String.intercalate_singleton]
  have haround : scope ++ [first] <+: scope ++ first :: rest :=
    ⟨rest, by simp⟩
  rw [within_intercalate hscope (List.cons_ne_nil _ _),
    declares_intercalate hfiles (by simp) hwhole] at h
  rw [hfirst, declares_intercalate hfiles (by simp) fun n hn => hwhole n (haround.subset hn)]
  obtain ⟨f, hf, kind, hmem⟩ := h
  exact ⟨f, hf, File.mem_declaredPaths_of_prefix hmem haround (by simp)⟩

/-- **Where the two ways of looking up a name agree.** The registry picks what the scoping of the
schema language picks, except when the innermost scope that declares the first component lacks the
whole name and a scope further out has it. -/
theorem resolve?_eq_commit?_iff :
    (ofFiles files).1.resolve? scope (".".intercalate (first :: rest)) =
        (ofFiles files).1.commit? scope first rest ↔
      ¬ (ofFiles files).1.Shadows scope first rest :=
  lookups_agree_iff fun _ ho =>
    declares_first hfiles (fun n hn => hscope n (ho.subset hn)) hname

end

/-- `Outer` nests an `A` without the `B` that is nested in the `A` beside it. -/
def shadowingFile : File where
  name := "a.proto"
  messages := [{ name := "Outer", messages := [{ name := "A" }] },
    { name := "A", messages := [{ name := "B" }] }]

/-- Inside `Outer` the name `A.B` is shadowed, at package level it is not. -/
theorem resolve?_eq_commit?_iff_shadowing :
    (ofFiles [shadowingFile]).1.Shadows ["Outer"] "A" ["B"] ∧
      ¬ (ofFiles [shadowingFile]).1.Shadows [] "A" ["B"] := by
  have hnamed : ∀ f ∈ [shadowingFile], f.Named := by decide
  have hname : ∀ n ∈ ["A", "B"], Name.isIdentifier n = true := by decide
  have hinside : (ofFiles [shadowingFile]).1.resolve? ["Outer"] (".".intercalate ["A", "B"]) =
      (ofFiles [shadowingFile]).1.commit? ["Outer"] "A" ["B"] ↔ _ :=
    resolve?_eq_commit?_iff hnamed (by decide) hname
  have houtside : (ofFiles [shadowingFile]).1.resolve? [] (".".intercalate ["A", "B"]) =
      (ofFiles [shadowingFile]).1.commit? [] "A" ["B"] ↔ _ :=
    resolve?_eq_commit?_iff hnamed (by decide) hname
  exact ⟨Classical.not_not.1 fun h => absurd (hinside.2 h) (by decide), houtside.1 (by decide)⟩

/-- **The registry falls back.** Inside `Outer`, whose `A` has no `B`, the registry finds the `A.B`
at package level, although no type is declared twice; the scoping of the schema language finds none.
-/
theorem resolve?_falls_back :
    (ofFiles [shadowingFile]).2 = [] ∧ ("Outer", .message) ∈ shadowingFile.declarations ∧
      (ofFiles [shadowingFile]).1.resolve? ["Outer"] "A.B" = some ("A.B", ⟨"a.proto", .message⟩) ∧
      (ofFiles [shadowingFile]).1.commit? ["Outer"] "A" ["B"] = none := by
  decide

end Registry

end WireSchema

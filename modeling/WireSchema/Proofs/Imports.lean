import WireSchema.Proofs.Description
import WireSchema.Proofs.SharedSession

/-!
# What a file imports

A file that builds imports exactly what it needs, each path once and in ascending order
(`File.imports_exact`): the file of every type that it references, what its author names, the
validation extension if anything has rules, the options messages if it extends one, and never
itself. The induction over what is nested is in `File.described`; here the fields, methods and
messages of the file are put together.
-/

namespace WireSchema

/-- The reference needs the file at `p`: as its author says, as the home of a well-known type, or
since another file declares what the name stands for. -/
def Reference.Needs (s : Scope) (r : Reference) (p : String) : Prop :=
  match r.target with
  | .external _ path => p = path
  | .wellKnown w => p = w.importPath
  | .declared name => ∃ full d,
      s.registry.resolve? r.path name = some (full, d) ∧ d.file ≠ s.file ∧ p = d.file

/-- A resolved reference holds the import that the reference needs. -/
theorem Reference.importPath_iff {s : Scope} {r : Reference} {t : TypeRef}
    (h : r.resolve s = .ok t) {p : String} : t.importPath = some p ↔ r.Needs s p := by
  unfold Needs
  unfold resolve Scope.resolve at h
  cases hr : r.target with
  | external name path => rw [hr] at h; cases h; simp [eq_comm]
  | wellKnown w => rw [hr] at h; cases h; simp [eq_comm]
  | declared name =>
    rw [hr] at h
    cases hl : s.registry.resolve? r.path name with
    | none => simp [hl] at h
    | some e =>
      obtain ⟨full, d⟩ := e
      simp only [hl] at h ⊢
      split at h
      · cases h
        by_cases hf : d.file = s.file <;> simp [hf, eq_comm]
      · cases h

/-- The imports of built fields: those of their references, those named in the heads of the fields
they are built from, and the validation extension if one of them has rules. -/
theorem mem_imports_fields {s : Scope} {xs : List (List String × Field)} {ds : List FieldDescriptor}
    (h : List.Forall₂ (fun x d => d.Describes { s with path := x.1 } x.2) xs ds) {p : String} :
    (∃ d ∈ ds, p ∈ d.imports) ↔
      (∃ t ∈ ds.flatMap fun d => d.kind.references, t.importPath = some p) ∨
      (∃ x ∈ xs, ∃ head ∈ x.2.heads, p ∈ head.imports) ∨
      (p = s.validateImport ∧ ∃ d ∈ ds, d.rules ≠ []) := by
  induction h with
  | nil => simp
  | @cons x d xs ds hd _ ih =>
    simp only [List.mem_cons, or_and_right, exists_or, exists_eq_left, ih, hd.mem_imports p,
      List.flatMap_cons, List.mem_append]
    rw [or_or_or_comm]
    refine or_congr_right ?_
    rw [or_or_or_comm]
    exact or_congr_right and_or_left.symm

/-- Something in the built file has rules: a field, a choice, an extension, a oneof or a message. -/
def FileDescriptor.HasRules (d : FileDescriptor) : Prop :=
  (∃ g ∈ d.fields, g.rules ≠ []) ∨
    ∃ m ∈ d.flatMessages, m.rules ≠ [] ∨ ∃ o ∈ m.oneofs, o.rules ≠ []

/-- The imports of a built file, by what its descriptor holds. -/
theorem FileDescriptor.Describes.mem_imports_iff {s : Scope} {f : File} {d : FileDescriptor}
    (h : d.Describes s f) {p : String} : p ∈ d.imports ↔ p ≠ f.name ∧
      ((∃ t ∈ d.references, t.importPath = some p)
        ∨ (∃ x ∈ f.fields, ∃ head ∈ x.2.heads, p ∈ head.imports)
        ∨ p ∈ f.imports
        ∨ (p = s.validateImport ∧ d.HasRules)
        ∨ (p = descriptorImport ∧ f.extensions ≠ [])) := by
  have hrefs : (∃ t ∈ d.references, t.importPath = some p) ↔
      (∃ t ∈ d.fields.flatMap fun g => g.kind.references, t.importPath = some p) ∨
        ∃ m ∈ d.methods, ∃ t ∈ [m.input, m.output], t.importPath = some p := by
    simp only [FileDescriptor.references, List.mem_append, or_and_right, exists_or]
    refine or_congr_right ⟨?_, ?_⟩
    · intro h
      obtain ⟨t, ht, hp⟩ := h
      obtain ⟨m, hm, ht⟩ := List.mem_flatMap.1 ht
      exact ⟨m, hm, t, ht, hp⟩
    · intro h
      obtain ⟨m, hm, t, ht, hp⟩ := h
      exact ⟨t, List.mem_flatMap.2 ⟨m, hm, ht⟩, hp⟩
  rw [h.mem_imports, mem_imports_fields h.fields, hrefs]
  refine and_congr_right fun _ => ?_
  rw [HasRules, and_or_left]
  constructor
  · intro h
    rcases h with (h | h | h) | h | h | h | h
    · exact .inl (.inl h)
    · exact .inr (.inl h)
    · exact .inr (.inr (.inr (.inl (.inl h))))
    · exact .inl (.inr h)
    · exact .inr (.inr (.inr (.inl (.inr h))))
    · exact .inr (.inr (.inr (.inr h)))
    · exact .inr (.inr (.inl h))
  · intro h
    rcases h with (h | h) | h | h | (h | h) | h
    · exact .inl (.inl h)
    · exact .inr (.inl h)
    · exact .inl (.inr (.inl h))
    · exact .inr (.inr (.inr (.inr h)))
    · exact .inl (.inr (.inr h))
    · exact .inr (.inr (.inl h))
    · exact .inr (.inr (.inr (.inl h)))

/-- **Imports are exact.** A file that builds imports, in strictly ascending order, the files that
its references need, the files that its author names for it or for one of its fields, the validation
extension if something has rules, and the options messages if it extends one; but never itself. -/
theorem File.imports_exact {package : String} {registry : Registry} {validateImport : String}
    {f : File} {d : FileDescriptor} (h : f.run package registry validateImport = .ok d) :
    d.imports.toList.Pairwise (· < ·) ∧ ∀ p, p ∈ d.imports.toList ↔ p ≠ f.name ∧
      ((∃ r ∈ f.references, r.Needs (f.scope registry validateImport) p)
        ∨ (∃ x ∈ f.fields, ∃ head ∈ x.2.heads, p ∈ head.imports)
        ∨ p ∈ f.imports
        ∨ (p = validateImport ∧ d.HasRules)
        ∨ (p = descriptorImport ∧ f.extensions ≠ [])) := by
  have hbuilt := (run_eq package registry validateImport f).symm.trans h
  have hd := described (Built.result_eq_ok_iff.1 hbuilt)
  refine ⟨d.imports.ascending, fun p => ?_⟩
  have hneeds : (∃ r ∈ f.references, r.Needs (f.scope registry validateImport) p) ↔
      ∃ t ∈ d.references, t.importPath = some p :=
    exists_mem_congr_of_forall₂ (hd.references rfl) fun r t hr => (r.importPath_iff hr).symm
  rw [← StringSet.mem_def, hd.mem_imports_iff, hneeds]
  rfl

/-- A file whose only reference is to the well-known time stamp imports its file, but not itself. -/
theorem File.imports_exact_timestamp :
    let f : File := { name := "a.proto", messages := [{ name := "Event", fields :=
      [(1, .leaf { head := { name := "at" }, type := .timestamp {} })] }] }
    ∃ d, f.run "events" ∅ "validate.proto" = .ok d ∧ d.imports.toList.Pairwise (· < ·) ∧
      WellKnown.timestamp.importPath ∈ d.imports.toList ∧ f.name ∉ d.imports.toList := by
  intro f
  have hrun : ∃ d, f.run "events" ∅ "validate.proto" = .ok d := ⟨_, rfl⟩
  obtain ⟨d, hd⟩ := hrun
  obtain ⟨hsorted, hmem⟩ := File.imports_exact hd
  have hstamp : ⟨["Event"], .message, .wellKnown .timestamp⟩ ∈ f.references := by decide
  exact ⟨d, hd, hsorted, (hmem _).2 ⟨by decide, .inl ⟨_, hstamp, rfl⟩⟩,
    fun h => ((hmem _).1 h).1 rfl⟩

end WireSchema

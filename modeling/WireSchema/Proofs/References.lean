import WireSchema.Proofs.Imports
import WireSchema.Proofs.PackageOutcome
import WireSchema.Proofs.Unresolved

/-!
# What references stand for

Where a reference to a type of the package leads, in a package that builds and in one that does not.

* `Package.closes_of_describes`: in a package that builds, it stands for the one declaration of its
  name in the innermost scope that has one; this is of the kind that the reference expects, and its
  file is imported unless it is the file of the reference.
* `Package.resolve_eq_error_iff`: in any package, it fails just when no scope around it declares its
  name, or the innermost one that does has a type of another kind first.
* `Package.references_closed`: both for all references of a package, with what its report names.
-/

namespace WireSchema

namespace Package

/-- Some file of the package declares a type of this full name. -/
def Declares (p : Package) (full : String) : Prop :=
  ∃ f ∈ p.files, ∃ kind, (full, kind) ∈ f.declarations

/-- The first declaration of a full name, in the order of the files. -/
def firstDeclaration (p : Package) (full : String) : Option Declaration :=
  (declaredTypes p.files).lookup full

/-- The file declares the full name as a type of this kind, and nothing else in the package does. -/
structure DeclaresOnce (p : Package) (g : File) (full : String) (kind : DeclKind) : Prop where
  mem_files : g ∈ p.files
  declares : (full, kind) ∈ g.declarations
  unique : ∀ g' ∈ p.files, ∀ k, (full, k) ∈ g'.declarations → g' = g ∧ k = kind

end Package

/-! ## Declarations of a package -/

namespace Package

theorem declares_iff {p : Package} {full : String} :
    p.Declares full ↔ (Registry.ofFiles p.files).1.Declares full := by
  rw [Registry.declares_ofFiles, List.mem_map]
  constructor
  · intro h
    obtain ⟨f, hf, kind, hd⟩ := h
    exact ⟨(full, ⟨f.name, kind⟩), mem_declaredTypes.2 ⟨f, hf, rfl, hd⟩, rfl⟩
  · intro h
    obtain ⟨⟨_, d⟩, hd, rfl⟩ := h
    obtain ⟨f, hf, _, hkind⟩ := mem_declaredTypes.1 hd
    exact ⟨f, hf, d.kind, hkind⟩

/-- A package that builds declares no type twice, gives no file name twice, and is built from files
that build. -/
theorem files_of_build {p : Package} {d : PackageDescriptor} (h : p.build = .ok d) :
    ((declaredTypes p.files).map Prod.fst).Nodup ∧ (p.files.map File.name).Nodup ∧
      List.Forall₂ (fun f fd => fd.Describes (p.fileScope f) f) p.files d.files := by
  obtain ⟨htypes, hnames, -⟩ := build_eq_ok_iff.1 h
  exact ⟨htypes, hnames, (value_files h).2.imp fun f fd hfd => File.described hfd⟩

end Package

/-! ## Resolution in a package -/

/-- A reference to a type of the package resolves when the innermost scope that declares its name
has a declaration of the expected kind; the reference then holds the full name, and the file if it
is another one. -/
theorem Reference.resolve_declared {s : Scope} {r : Reference} {name : String} {t : TypeRef}
    (hr : r.target = .declared name) (h : r.resolve s = .ok t) :
    ∃ outer d,
      Registry.Innermost (fun o => s.registry.Declares (Registry.within o name)) r.path outer ∧
      s.registry.find? (Registry.within outer name) = some d ∧ d.kind = r.expected ∧
      t = ⟨name, Registry.within outer name, none,
        if d.file = s.file then none else some d.file⟩ := by
  simp only [resolve, Scope.resolve, hr] at h
  split at h
  · next full d hl =>
    obtain ⟨outer, hinner, rfl, hfind⟩ := Registry.resolve?_eq_some_iff.1 hl
    split at h
    · next hk => cases h; exact ⟨outer, d, hinner, hfind, hk, rfl⟩
    · cases h
  · cases h

namespace Package

/-- A declaration of a package that declares no type twice is the only one of its name. -/
theorem declaresOnce_of_lookup {p : Package} (hnodup : ((declaredTypes p.files).map Prod.fst).Nodup)
    (hnames : (p.files.map File.name).Nodup) {full : String} {d : Declaration}
    (h : (declaredTypes p.files).lookup full = some d) :
    ∃ g, p.DeclaresOnce g full d.kind ∧ d.file = g.name := by
  obtain ⟨before, after, hsplit, -⟩ := List.lookup_eq_some_iff.1 h
  have hmem : (full, d) ∈ declaredTypes p.files := by rw [hsplit]; simp
  obtain ⟨g, hg, hfile, hkind⟩ := mem_declaredTypes.1 hmem
  refine ⟨g, ⟨hg, hkind, fun g' hg' k hk => ?_⟩, hfile⟩
  have hmem' : (full, ⟨g'.name, k⟩) ∈ declaredTypes p.files :=
    mem_declaredTypes.2 ⟨g', hg', rfl, hk⟩
  have hsame := List.inj_on_of_nodup_map hnodup hmem' hmem rfl
  cases hsame
  exact ⟨List.inj_on_of_nodup_map hnames hg' hg hfile, rfl⟩

/-- What the reference `r` to `name` in the file `f` stands for in a package, where `fd` is the
descriptor of `f`: the name in the innermost scope that declares it, which one file declares as a
type of the expected kind; this file is imported if it is not `f`. -/
structure Closes (p : Package) (f : File) (fd : FileDescriptor) (r : Reference) (name : String)
    (t : TypeRef) : Prop where
  innermost : ∃ outer, t.fullName = Registry.within outer name ∧
    Registry.Innermost (fun o => p.Declares (Registry.within o name)) r.path outer
  home : ∃ g, p.DeclaresOnce g t.fullName r.expected ∧ (g = f → t.importPath = none) ∧
    (g ≠ f → t.importPath = some g.name ∧ g.name ∈ fd.imports)

theorem closes_of_describes {p : Package} (hnodup : ((declaredTypes p.files).map Prod.fst).Nodup)
    (hnames : (p.files.map File.name).Nodup) {f : File} {fd : FileDescriptor} (hf : f ∈ p.files)
    (hfd : fd.Describes (p.fileScope f) f) {r : Reference} {t : TypeRef}
    (hrt : (r, t) ∈ f.references.zip fd.references) {name : String}
    (hr : r.target = .declared name) : p.Closes f fd r name t := by
  have hres : r.resolve (p.fileScope f) = .ok t := List.forall₂_zip (hfd.references rfl) hrt
  obtain ⟨outer, d, hinner, hfind, hkind, rfl⟩ := r.resolve_declared hr hres
  refine ⟨⟨outer, rfl, ?_⟩, ?_⟩
  · simp only [declares_iff]
    exact hinner
  · have hlookup := (Registry.find?_ofFiles p.files _).symm.trans hfind
    obtain ⟨g, honce, hfile⟩ := declaresOnce_of_lookup hnodup hnames hlookup
    refine ⟨g, hkind ▸ honce, ?_, fun hne => ?_⟩
    · rintro rfl
      exact if_pos hfile
    · have hname : g.name ≠ f.name :=
        fun he => hne (List.inj_on_of_nodup_map hnames honce.mem_files hf he)
      have himport : (if d.file = f.name then none else some d.file) = some g.name := by
        rw [hfile, if_neg hname]
      exact ⟨himport, hfd.mem_imports_iff.2 ⟨hname, .inl ⟨_, (List.of_mem_zip hrt).2, himport⟩⟩⟩

/-- The result of looking up a name, once the registry has answered. -/
theorem resolve_of_lookup {s : Scope} {r : Reference} {name : String}
    (hr : r.target = .declared name) :
    (s.registry.resolve? r.path name = none → r.resolve s = .error (.unresolvedType name)) ∧
    ∀ full d, s.registry.resolve? r.path name = some (full, d) →
      (d.kind ≠ r.expected → r.resolve s = .error (.unresolvedType name)) ∧
      (d.kind = r.expected → ∃ t, r.resolve s = .ok t) := by
  refine ⟨fun h => ?_, fun full d h => ⟨fun hk => ?_, fun hk => ?_⟩⟩
  · simp [Reference.resolve, Scope.resolve, hr, h]
  · simp [Reference.resolve, Scope.resolve, hr, h, hk]
  · simp [Reference.resolve, Scope.resolve, hr, h, hk]

/-- No scope around the reference declares its name, or the innermost one that does has a type of
another kind first. -/
def Misses (p : Package) (r : Reference) (name : String) : Prop :=
  (∀ outer, outer <+: r.path → ¬ p.Declares (Registry.within outer name)) ∨
    ∃ outer d,
      Registry.Innermost (fun o => p.Declares (Registry.within o name)) r.path outer ∧
      p.firstDeclaration (Registry.within outer name) = some d ∧ d.kind ≠ r.expected

/-- A reference to a type of the package fails just when it misses, with its name. -/
theorem resolve_eq_error_iff (p : Package) (f : File) {r : Reference} {name : String}
    {v : Violation} (hr : r.target = .declared name) :
    r.resolve (p.fileScope f) = .error v ↔ v = .unresolvedType name ∧ p.Misses r name := by
  obtain ⟨hmissing, hfound⟩ := resolve_of_lookup (s := p.fileScope f) hr
  have hfirst : ∀ full, p.firstDeclaration full = (p.fileScope f).registry.find? full :=
    fun full => (Registry.find?_ofFiles p.files full).symm
  simp only [Misses, declares_iff, hfirst]
  cases hl : (p.fileScope f).registry.resolve? r.path name with
  | none =>
    have hnone := Registry.resolve?_eq_none_iff.1 hl
    rw [hmissing hl]
    simp only [Except.error.injEq]
    exact ⟨fun h => ⟨h.symm, .inl hnone⟩, fun h => h.1.symm⟩
  | some e =>
    obtain ⟨full, d⟩ := e
    obtain ⟨hother, hsame⟩ := hfound full d hl
    obtain ⟨outer, hinner, rfl, hfind⟩ := Registry.resolve?_eq_some_iff.1 hl
    constructor
    · intro h
      have hk : d.kind ≠ r.expected := fun hk => by
        obtain ⟨t, ht⟩ := hsame hk
        rw [ht] at h; cases h
      rw [hother hk] at h
      cases h
      exact ⟨rfl, .inr ⟨outer, d, hinner, hfind, hk⟩⟩
    · intro h
      rcases h with ⟨rfl, hnone | ⟨outer', d', hinner', hfind', hk⟩⟩
      · exact absurd hinner.holds (hnone outer hinner.encloses)
      · obtain rfl := hinner.eq hinner'
        rw [hfind] at hfind'
        cases hfind'
        exact hother hk

/-- **References are closed.** In a package that builds, each reference to one of its types stands
for the one declaration that closes it. In any package, such a reference fails just when it misses;
a report names the references that miss when they are looked up, in order and each once. -/
theorem references_closed (p : Package) :
    (∀ d, p.build = .ok d → (p.files.map File.name).Nodup ∧
      List.Forall₂ (fun f fd => List.Forall₂ (fun r t => ∀ name, r.target = .declared name →
        p.Closes f fd r name t) f.references fd.references) p.files d.files) ∧
    (∀ f ∈ p.files, ∀ r ∈ f.references, ∀ name, r.target = .declared name → ∀ v,
      r.resolve (p.fileScope f) = .error v ↔ v = .unresolvedType name ∧ p.Misses r name) ∧
    (∀ report, p.build = .error report → report.unresolved =
      p.files.flatMap fun f => f.lookups.filterMap (Reference.failure? (p.fileScope f))) := by
  refine ⟨fun d h => ?_, fun f _ r _ name hr v => p.resolve_eq_error_iff f hr, fun report h => ?_⟩
  · obtain ⟨hnodup, hnames, hfiles⟩ := files_of_build h
    refine ⟨hnames, List.forall₂_iff_zip.2 ⟨hfiles.length_eq, fun {f fd} hmem => ?_⟩⟩
    have hfd : fd.Describes (p.fileScope f) f := List.forall₂_zip hfiles hmem
    refine List.forall₂_iff_zip.2 ⟨(hfd.references rfl).length_eq, fun {r t} hrt name hr => ?_⟩
    exact closes_of_describes hnodup hnames (List.of_mem_zip hmem).1 hfd hrt hr
  · have hne : p.built.report ≠ [] := fun hnil => by
      obtain ⟨d, hd⟩ := Built.report_eq_nil_iff.1 hnil
      rw [build_eq, Built.result_of_value hd] at h
      cases h
    rw [build_eq, Built.result_of_report hne] at h
    cases h
    exact p.unresolved_built

/-- Inside `Order`, which nests a `Line`, the reference `Line` is closed although the package
declares another `Line`. -/
theorem references_closed_nested :
    let order : File := { name := "order.proto", messages := [
      { name := "Order", messages := [{ name := "Line" }], fields := [
        (1, .leaf { head := { name := "line" }, type := .message (.declared "Line") })] },
      { name := "Line" }] }
    let p : Package := { config := { package := "shop" }, files := [order] }
    ∃ d fd t, p.build = .ok d ∧
      p.Closes order fd ⟨["Order"], .message, .declared "Line"⟩ "Line" t := by
  intro order p
  have hbuild : ∃ d, p.build = .ok d := ⟨_, rfl⟩
  obtain ⟨d, hd⟩ := hbuild
  have hclosed := ((references_closed p).1 d hd).2
  have hfiles : p.files = [order] := rfl
  have hrefs : order.references = [⟨["Order"], .message, .declared "Line"⟩] := by decide
  rw [hfiles] at hclosed
  obtain ⟨fd, _, hfile, -, -⟩ := List.forall₂_cons_left_iff.1 hclosed
  rw [hrefs] at hfile
  obtain ⟨t, _, hline, -, -⟩ := List.forall₂_cons_left_iff.1 hfile
  exact ⟨d, fd, t, hd, hline "Line" rfl⟩

end Package

end WireSchema

import Mathlib.Data.List.Forall2
import WireSchema.Proofs.FieldNumbers
import WireSchema.Proofs.Sources

/-!
# When a package builds

A package builds just when no type and no file name is given twice and every file builds
(`Package.build_eq_ok_iff`). The registry then holds each declaration under its name, wherever it
stands (`Registry.find?_ofFiles_iff`).
-/

namespace WireSchema

/-! ## Names given once -/

theorem repeatsAfter_eq_nil_iff (names : List String) : ∀ earlier,
    repeatsAfter earlier names = [] ↔ NewAfter earlier names := by
  induction names with
  | nil => intro earlier; simp [repeatsAfter, NewAfter]
  | cons name names ih =>
    intro earlier
    rw [repeatsAfter, List.append_eq_nil_iff, ih, newAfter_cons]
    refine and_congr_left fun _ => ?_
    by_cases hmem : name ∈ earlier <;> simp [hmem]

/-- Nothing is repeated in a list of distinct names. -/
theorem repeats_eq_nil_iff {names : List String} : repeats names = [] ↔ names.Nodup := by
  rw [repeats, repeatsAfter_eq_nil_iff, newAfter_nil]

theorem redeclarations_eq_nil_iff (ds : List (String × Declaration)) : ∀ earlier,
    redeclarations earlier ds = [] ↔ NewAfter (earlier.map Prod.fst) (ds.map Prod.fst) := by
  induction ds with
  | nil => intro earlier; simp [redeclarations, NewAfter]
  | cons e rest ih =>
    obtain ⟨name, d⟩ := e
    intro earlier
    simp only [redeclarations, List.append_eq_nil_iff, ih, List.map_append, List.map_cons,
      List.map_nil, newAfter_cons]
    refine and_congr_left fun _ => ?_
    rw [← Registry.lookup_eq_none]
    cases earlier.lookup name <;> simp

/-- Among distinct keys, looking one up is finding its entry. -/
theorem lookup_eq_some_iff_mem {α : Type} {l : List (String × α)} (h : (l.map Prod.fst).Nodup)
    {key : String} {a : α} : l.lookup key = some a ↔ (key, a) ∈ l := by
  constructor
  · intro hl
    obtain ⟨before, after, rfl, -⟩ := List.lookup_eq_some_iff.1 hl
    simp
  · intro hmem
    cases hl : l.lookup key with
    | none => exact absurd (List.mem_map_of_mem hmem) (Registry.lookup_eq_none.1 hl)
    | some b =>
      obtain ⟨before, after, rfl, -⟩ := List.lookup_eq_some_iff.1 hl
      have hsame := List.inj_on_of_nodup_map h (show (key, b) ∈ _ by simp) hmem rfl
      rw [(Prod.mk.inj hsame).2]

/-- Where no type is declared twice, the registry holds just the declarations of the files. -/
theorem Registry.find?_ofFiles_iff {files : List File}
    (h : ((declaredTypes files).map Prod.fst).Nodup) {full : String} {d : Declaration} :
    (ofFiles files).1.find? full = some d ↔
      ∃ f ∈ files, d.file = f.name ∧ (full, d.kind) ∈ f.declarations := by
  rw [find?_ofFiles, lookup_eq_some_iff_mem h, mem_declaredTypes]

/-! ## Packages that build -/

namespace Package

theorem nameViolations_eq_nil_iff {p : Package} :
    p.nameViolations = [] ↔ (p.files.map File.name).Nodup := by
  rw [nameViolations, List.map_eq_nil_iff, repeats_eq_nil_iff]

theorem violations_ofFiles_eq_nil_iff {files : List File} :
    (Registry.ofFiles files).2 = [] ↔ ((declaredTypes files).map Prod.fst).Nodup := by
  rw [Registry.violations_ofFiles, redeclarations_eq_nil_iff, List.map_nil, newAfter_nil]

/-- **When a package builds.** No type and no file name is given twice, every file builds, and the
descriptor is made of those of the files. -/
theorem build_eq_ok_iff {p : Package} {d : PackageDescriptor} : p.build = .ok d ↔
    ((declaredTypes p.files).map Prod.fst).Nodup ∧ (p.files.map File.name).Nodup ∧
      ∃ files, List.Forall₂ (fun f fd => (f.build p.config.package (Registry.ofFiles p.files).1
        p.config.validateImport).value = some fd) p.files files ∧ d = p.descriptor files := by
  constructor
  · intro h
    obtain ⟨htypes, hnames⟩ := clear_of_build h
    obtain ⟨hd, hfiles⟩ := value_files h
    exact ⟨violations_ofFiles_eq_nil_iff.1 htypes, nameViolations_eq_nil_iff.1 hnames, d.files,
      hfiles, hd⟩
  · rintro ⟨htypes, hnames, files, hfiles, rfl⟩
    have hchecks : (Built.check
        (.ofViolations ((Registry.ofFiles p.files).2 ++ p.nameViolations))).value = some () := by
      rw [violations_ofFiles_eq_nil_iff.2 htypes, nameViolations_eq_nil_iff.2 hnames]; rfl
    have hbuilt : (p.buildFiles (Registry.ofFiles p.files).1).value = some files :=
      Built.value_list_eq_some_iff.2 (List.forall₂_map_left_iff.2 hfiles)
    rw [build_eq, Built.result_eq_ok_iff]
    exact Built.seq_eq_some_iff.2 ⟨_, files, congrArg (Option.map _) hchecks, hbuilt, rfl⟩

end Package
end WireSchema

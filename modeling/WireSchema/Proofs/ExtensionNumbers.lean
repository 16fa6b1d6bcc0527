import WireSchema.Proofs.FieldNumbers
import WireSchema.Proofs.Sources

/-!
# Numbers of extensions

The fields that extend one target are numbered like the fields of a message, so no two of them may
have one number. The pass over a block of extensions knows what stands in this block: each file has
a block of its own for each target, and files are not compared with each other.

* `File.numbers_of_buildExtending`: the numbers of a block that builds are valid and distinct, by
  induction over its fields; the step is `numberViolations_eq_nil_iff`.
* `Package.extensionNumbers_nodup_iff`: in a package that builds, the numbers that extend a target
  are valid, and distinct in each file. They are distinct in the whole package just when no two
  files have one of them in common.
* `Package.extensionNumbers_shared`: a package that builds although two files do.
-/

namespace WireSchema

namespace File

/-- The numbers of the fields by which the file extends the target. -/
def extensionNumbers (f : File) (target : ExtensionTarget) : List Nat :=
  (f.extensions.filter (·.target = target)).map Extension.number

theorem numbers_of_buildExtending {s : Scope} (fields : List (Nat × Field)) :
    ∀ (earlier : List (Nat × String)) (ds : List FieldDescriptor),
      (buildExtending s earlier fields).value = some ds →
        (∀ x ∈ fields, isValidFieldNumber x.1 = true) ∧
          NewAfter (earlier.map Prod.fst) (fields.map Prod.fst) := by
  induction fields with
  | nil => exact fun _ _ _ => ⟨by simp, by simp, .nil⟩
  | cons x rest ih =>
    obtain ⟨n, f⟩ := x
    intro earlier ds h
    rw [buildExtending] at h
    obtain ⟨_, gs, hhead, hgs, rfl⟩ := Built.seq_eq_some_iff.1 h
    obtain ⟨_, g, hcheck, hg, rfl⟩ := Built.seq_eq_some_iff.1 hhead
    obtain ⟨_, hclear, rfl⟩ := Option.map_eq_some_iff.1 hcheck
    have hnil := Built.report_of_value hclear
    rw [Built.report_under, Report.under_eq_nil_iff, Built.report_check,
      Report.ofViolations_eq_nil_iff, numberViolations_eq_nil_iff] at hnil
    obtain ⟨hvalid, hrest⟩ := ih _ gs hgs
    rw [List.map_append] at hrest
    rw [List.map_cons, newAfter_cons]
    exact ⟨List.forall_mem_cons.2 ⟨hnil.1, hvalid⟩, hnil.2, hrest⟩

variable {f : File} {package : String} {registry : Registry} {validateImport : String}
  {d : FileDescriptor}

/-- Every block of a file that builds has a value, an empty one included. -/
theorem exists_extending (h : (f.build package registry validateImport).value = some d)
    (target : ExtensionTarget) : ∃ ds, (buildExtending (f.scope registry validateImport) []
      (f.extending target)).value = some ds := by
  by_cases hmem : target ∈ f.extended
  · obtain ⟨e, he, -⟩ := Option.map_eq_some_iff.1 h
    have hblocks := Built.forall₂_of_value_list (value_buildDeclarations he).2.2.2
    obtain ⟨x, -, hx⟩ := exists_of_forall₂_left hblocks hmem
    rw [Built.value_under, buildExtension, Built.value_importing] at hx
    obtain ⟨ds, hds, -⟩ := Option.map_eq_some_iff.1 hx
    exact ⟨ds, hds⟩
  · have hnone : f.extending target = [] := by
      refine List.eq_nil_iff_forall_not_mem.2 fun x hx => hmem (mem_extended.2 ?_)
      obtain ⟨e, he, htarget, -⟩ := mem_extending.1 hx
      exact ⟨e, he, htarget⟩
    exact ⟨[], by rw [hnone]; rfl⟩

/-- **Extensions of one file.** The numbers by which a file that builds extends a target are valid
and distinct. -/
theorem numbers_of_value (h : (f.build package registry validateImport).value = some d)
    (target : ExtensionTarget) :
    (∀ n ∈ f.extensionNumbers target, isValidFieldNumber n = true) ∧
      (f.extensionNumbers target).Nodup := by
  obtain ⟨ds, hds⟩ := exists_extending h target
  obtain ⟨hvalid, -, hnodup⟩ := numbers_of_buildExtending _ [] ds hds
  have hperm : ((f.extending target).map Prod.fst).Perm (f.extensionNumbers target) := by
    have hsorted := (stableSort_perm (fun a b : Nat × Field => decide (a.1 ≤ b.1))
      ((f.extensions.filter (·.target = target)).map fun e => (e.number, e.field))).map Prod.fst
    rwa [List.map_map] at hsorted
  refine ⟨fun n hn => ?_, hperm.nodup_iff.1 hnodup⟩
  obtain ⟨x, hx, rfl⟩ := List.mem_map.1 (hperm.mem_iff.2 hn)
  exact hvalid x hx

end File

namespace Package

/-- The numbers of the fields that extend the target, file by file. -/
def extensionNumbers (p : Package) (target : ExtensionTarget) : List Nat :=
  p.files.flatMap fun f => f.extensionNumbers target

/-- **Extensions of a package.** In a package that builds, the numbers that extend a target are
valid, and distinct in each file; they are distinct in the package just when no two of its files
give one number to the target. -/
theorem extensionNumbers_nodup_iff {p : Package} {d : PackageDescriptor} (h : p.build = .ok d)
    (target : ExtensionTarget) :
    (∀ n ∈ p.extensionNumbers target,
      (1 ≤ n ∧ n ≤ 536870911) ∧ ¬ (19000 ≤ n ∧ n ≤ 19999)) ∧
    (∀ f ∈ p.files, (f.extensionNumbers target).Nodup) ∧
    ((p.extensionNumbers target).Nodup ↔ p.files.Pairwise fun f g =>
      ∀ n ∈ f.extensionNumbers target, n ∉ g.extensionNumbers target) := by
  have hfiles : ∀ f ∈ p.files, (∀ n ∈ f.extensionNumbers target, isValidFieldNumber n = true) ∧
      (f.extensionNumbers target).Nodup := fun f hf => by
    obtain ⟨fd, -, hfd⟩ := exists_of_forall₂_left (value_files h).2 hf
    exact File.numbers_of_value hfd target
  have hnodup : ∀ f ∈ p.files, (f.extensionNumbers target).Nodup := fun f hf => (hfiles f hf).2
  refine ⟨fun n hn => ?_, hnodup, ?_⟩
  · obtain ⟨f, hf, hn⟩ := List.mem_flatMap.1 hn
    exact isValidFieldNumber_iff.1 ((hfiles f hf).1 n hn)
  · rw [extensionNumbers, List.nodup_flatMap, and_iff_right hnodup]
    rfl

/-- Two files that extend fields by different numbers, and messages by a number that one of them
also gives to a field: the numbers of each target are distinct. -/
theorem extensionNumbers_nodup_iff_apart :
    let flag (name : String) : Field := .leaf { head := { name }, type := .bool {} }
    let p : Package := { config := { package := "shop" }, files := [
      { name := "a.proto", extensions := [⟨.field, 50002, flag "hidden"⟩,
        ⟨.field, 50001, flag "sensitive"⟩] },
      { name := "b.proto", extensions := [⟨.message, 50001, flag "audited"⟩,
        ⟨.field, 50003, flag "label"⟩] }] }
    ∃ d, p.build = .ok d ∧ p.extensionNumbers .field = [50002, 50001, 50003] ∧
      (p.extensionNumbers .field).Nodup ∧ (p.extensionNumbers .message).Nodup := by
  intro flag p
  obtain ⟨d, hd⟩ : ∃ d, p.build = .ok d := exists_ok_of_isSome (by decide +kernel)
  exact ⟨d, hd, by decide, (extensionNumbers_nodup_iff hd .field).2.2.2 (by decide),
    (extensionNumbers_nodup_iff hd .message).2.2.2 (by decide)⟩

/-- **Shared numbers.** This package builds although both of its files give the number 50001 to a
field that extends fields. -/
theorem extensionNumbers_shared :
    let flag (name : String) : Field := .leaf { head := { name }, type := .bool {} }
    let p : Package := { config := { package := "shop" }, files := [
      { name := "a.proto", extensions := [⟨.field, 50001, flag "sensitive"⟩] },
      { name := "b.proto", extensions := [⟨.field, 50001, flag "label"⟩] }] }
    (∃ d, p.build = .ok d) ∧ p.extensionNumbers .field = [50001, 50001] ∧
      ¬ (p.extensionNumbers .field).Nodup := by
  intro flag p
  exact ⟨exists_ok_of_isSome (by decide +kernel), by decide, by decide⟩

end Package

end WireSchema

import WireSchema.Proofs.SharedSession
import WireSchema.Proofs.StableSort
import WireSchema.Proofs.TypeRegistry

/-!
# What a build reports

The report of a package is the concatenation of what its parts report on their own, in a fixed order
and each beneath its scope. `findings` writes that list down for every kind of declaration; its
leaves are runs of single declarations in sessions of their own (`Builder.alone`).

* `Session.run_results`: whatever was built before, and whether it failed, a declaration yields what
  it yields in a session of its own.
* `repeats_eq`: which names are given again, read off the places in the list.
* `Message.alone_run`: a message reports its findings, by induction over what is nested in it.
* `byNumber_ascendingStably`: fields come in ascending order of their numbers, equal numbers as
  declared.
* `Package.build_findings`: a package fails with its findings, and builds if there are none.
-/

namespace WireSchema

/-! ## Declarations on their own -/

/-- What is reported when there is no value. -/
def Report.ofResult {α : Type} : Except Report α → Report
  | .ok _ => []
  | .error r => r

/-- What a builder reports in a session of its own. -/
def Builder.alone {α : Type} (x : Builder α) (s : Scope) : Report := .ofResult (x { scope := s }).1

@[simp] theorem Built.ofResult_result {α : Type} (x : Built α) : .ofResult x.result = x.report := by
  cases hv : x.value with
  | some a => rw [result_of_value hv, report_of_value hv]; rfl
  | none =>
    have hr : x.report ≠ [] := fun h => by
      obtain ⟨a, ha⟩ := report_eq_nil_iff.1 h; rw [hv] at ha; cases ha
    rw [result_of_report hr]; rfl

/-- A builder that records an outcome reports on its own what the outcome reports. -/
theorem Builder.alone_of_record {α : Type} {run : Builder α} {x : Built α} {s : Scope}
    (h : run { scope := s } = x.record { scope := s }) : run.alone s = x.report := by
  rw [alone, h, Built.record, Built.ofResult_result]

theorem Field.alone_eq (n : Nat) (f : Field) (s : Scope) :
    (f.run n).alone s = (f.build s n).report := Builder.alone_of_record (f.run_eq n _)

theorem Oneof.alone_choice (oneof : String) (n : Nat) (f : Field) (s : Scope) :
    (runChoice oneof n f).alone s = (buildChoice s oneof n f).report :=
  Builder.alone_of_record (runChoice_eq oneof n f _)

theorem Oneof.alone_eq (o : Oneof) (s : Scope) : o.run.alone s = (o.build s).report :=
  Builder.alone_of_record (o.run_eq _)

theorem Enum.alone_eq (e : Enum) (s : Scope) : e.run.alone s = (e.build s).report :=
  Builder.alone_of_record (e.run_eq _)

theorem Message.alone_eq (m : Message) (s : Scope) : m.run.alone s = (m.build s).report :=
  Builder.alone_of_record (m.run_eq _)

theorem Method.alone_eq (m : Method) (s : Scope) : m.run.alone s = (m.build s).report :=
  Builder.alone_of_record (m.run_eq _)

theorem Service.alone_eq (v : Service) (s : Scope) : v.run.alone s = (v.build s).report :=
  Builder.alone_of_record (v.run_eq _)

theorem File.alone_extension (f : File) (target : ExtensionTarget) (s : Scope) :
    (f.runExtension target).alone s = (buildExtension s f target).report :=
  Builder.alone_of_record (f.runExtension_eq target _)

/-- **Siblings do not matter.** Each step of a session yields what it yields in a session of its
own, whatever ran before it and whether that failed, and the session stays in its scope. -/
theorem Session.run_results (steps : List Step) : ∀ s : Session,
    (s.run steps).1 = steps.map (fun next => (next.run { scope := s.scope }).1) ∧
      (s.run steps).2.scope = s.scope := by
  induction steps with
  | nil => exact fun s => ⟨rfl, rfl⟩
  | cons next rest ih =>
    intro s
    have hstep : s.step next = (next.build s.scope).record s := next.run_eq s
    obtain ⟨hresults, hscope⟩ := ih (s.step next).2
    have hkeep : (s.step next).2.scope = s.scope := by rw [hstep]; rfl
    rw [hkeep] at hresults hscope
    have hone : (s.step next).1 = (next.run { scope := s.scope }).1 := by
      rw [hstep, next.run_eq]; rfl
    exact ⟨congrArg₂ List.cons hone hresults, hscope⟩

/-! ## Repeated names -/

/-- The names, by their places in the list, that stand at a place before as well. -/
def namedBefore (names : List String) : List String :=
  (List.finRange names.length).filterMap fun i : Fin names.length =>
    if names[i] ∈ names.take i then some names[i] else none

theorem repeatsAfter_eq (names : List String) : ∀ earlier, repeatsAfter earlier names =
    (List.finRange names.length).filterMap fun i : Fin names.length =>
      if names[i] ∈ earlier ++ names.take i then some names[i] else none := by
  induction names with
  | nil => exact fun _ => rfl
  | cons name names ih =>
    intro earlier
    have hplaces : List.finRange (name :: names).length =
        0 :: (List.finRange names.length).map Fin.succ := List.finRange_succ
    rw [repeatsAfter, ih, hplaces, List.filterMap_cons, List.filterMap_map]
    by_cases hfirst : name ∈ earlier <;> simp [hfirst]

theorem repeats_eq (names : List String) : repeats names = namedBefore names :=
  repeatsAfter_eq names []

/-! ## Findings of the parts of a file -/

/-- What the choices of a oneof report, in ascending order of their numbers. -/
def Oneof.findings (s : Scope) (o : Oneof) : Report :=
  (byNumber o.choices).flatMap fun (n, f) =>
    ((runChoice o.name n f).alone s).under (scopeOf "field" f.name)

/-- What a service reports about its method names, then what its methods report. -/
def Service.findings (s : Scope) (v : Service) : Report :=
  .ofViolations ((namedBefore (v.methods.map Method.name)).map .duplicateMethod)
    ++ (stableSort Method.precedes v.methods).flatMap fun m =>
      (m.run.alone s).under (scopeOf "method" m.name)

def FlatMessage.enumFindings (s : Scope) (enums : List Enum) : Report :=
  enums.flatMap fun e => (e.run.alone s).under (scopeOf "enum" e.name)

namespace Message

mutual

/-- What a message reports: its drift, its numbers and names, its fields in ascending order of their
numbers, its oneofs, the messages and the enums nested in it. -/
def findings (s : Scope) : Message → Report
  | ⟨m, nested⟩ =>
    let inner := s.enter m.name
    .ofViolations (m.drift ++ m.numberingViolations)
      ++ ((byNumber m.fields).flatMap fun (n, f) =>
        ((f.run n).alone inner).under (scopeOf "field" f.name))
      ++ (m.oneofs.flatMap fun o => (o.run.alone inner).under (scopeOf "oneof" o.name))
      ++ findingsAll inner nested
      ++ FlatMessage.enumFindings inner m.enums

def findingsAll (s : Scope) : List Message → Report
  | [] => []
  | m :: ms => (findings s m).under (scopeOf "message" m.name) ++ findingsAll s ms

end

end Message

namespace File

/-- What the fields of an extension block report that follow `earlier`, each after its number. -/
def extendingFindings (s : Scope) (earlier : List (Nat × String)) : List (Nat × Field) → Report
  | [] => []
  | (n, f) :: rest =>
    (Report.ofViolations (numberViolations earlier n f.name) ++ (f.run n).alone s).under
        (scopeOf "field" f.name)
      ++ extendingFindings s (earlier ++ [(n, f.name)]) rest

/-- What a file reports: its messages, enums and services, then the targets it extends. -/
def findings (s : Scope) (f : File) : Report :=
  Message.findingsAll s f.messages
    ++ FlatMessage.enumFindings s f.enums
    ++ (f.services.flatMap fun v => (v.run.alone s).under (scopeOf "service" v.name))
    ++ f.extended.flatMap fun target =>
      (extendingFindings s [] (f.extending target)).under ("extend " ++ target.extendee)

end File

/-- What a package reports: types declared again, file names given again, then its files. -/
def Package.findings (p : Package) : Report :=
  let registry := (Registry.ofFiles p.files).1
  (Report.ofViolations (redeclarations [] (declaredTypes p.files)
      ++ (namedBefore (p.files.map File.name)).map .duplicateName)
    ++ p.files.flatMap fun f =>
      (f.findings (f.scope registry p.config.validateImport)).under
        (scopeOf "file" f.name)).under (scopeOf "package" p.config.package)

/-! ## Each part reports its findings -/

theorem Oneof.alone_run (s : Scope) (o : Oneof) : o.run.alone s = o.findings s := by
  simp only [alone_eq, build, findings, Built.report_importing, Built.report_map,
    Built.report_list, List.flatMap_map, Built.report_under, alone_choice]

theorem Service.alone_run (s : Scope) (v : Service) : v.run.alone s = v.findings s := by
  simp only [alone_eq, build, buildMethods, findings, Built.report_seq, Built.report_map,
    Built.report_check, Built.report_list, List.flatMap_map, Built.report_under, Method.alone_eq,
    violations, repeats_eq]

namespace FlatMessage

theorem report_buildFields (s : Scope) (m : FlatMessage) :
    (m.buildFields s).report = (byNumber m.fields).flatMap fun (n, f) =>
      ((f.run n).alone s).under (scopeOf "field" f.name) := by
  simp only [buildFields, Built.report_list, List.flatMap_map, Built.report_under, Field.alone_eq]

theorem report_buildOneofs (s : Scope) (m : FlatMessage) :
    (m.buildOneofs s).report = m.oneofs.flatMap fun o =>
      (o.run.alone s).under (scopeOf "oneof" o.name) := by
  simp only [buildOneofs, Built.report_list, List.flatMap_map, Built.report_under, Oneof.alone_eq]

theorem report_buildEnums (s : Scope) (enums : List Enum) :
    (buildEnums s enums).report = enumFindings s enums := by
  simp only [buildEnums, enumFindings, Built.report_list, List.flatMap_map, Built.report_under,
    Enum.alone_eq]

end FlatMessage

namespace Message

mutual

theorem report_build (s : Scope) : ∀ m : Message, (m.build s).report = m.findings s
  | ⟨m, nested⟩ => by
    rw [build, findings]
    simp only [Built.report_importing, Built.report_seq, Built.report_map,
      FlatMessage.report_buildFields, FlatMessage.report_buildOneofs,
      FlatMessage.report_buildEnums, report_buildAll (s.enter m.name) nested]
    rfl

theorem report_buildAll (s : Scope) : ∀ ms : List Message,
    (buildAll s ms).report = findingsAll s ms
  | [] => rfl
  | m :: ms => by
    rw [buildAll, findingsAll, Built.report_seq, Built.report_map, Built.report_under,
      report_build s m, report_buildAll s ms]

end

/-- **A message reports its findings**, however deep its messages nest. -/
theorem alone_run (s : Scope) (m : Message) : m.run.alone s = m.findings s := by
  rw [alone_eq, report_build]

end Message

namespace File

theorem report_buildExtending (s : Scope) (fields : List (Nat × Field)) : ∀ earlier,
    (buildExtending s earlier fields).report = extendingFindings s earlier fields := by
  induction fields with
  | nil => exact fun _ => rfl
  | cons x rest ih =>
    obtain ⟨n, f⟩ := x
    intro earlier
    simp only [buildExtending, extendingFindings, Field.alone_eq, Built.report_seq,
      Built.report_map, Built.report_under, Built.report_check, ih, Report.under_append]

theorem alone_runExtension (s : Scope) (f : File) (target : ExtensionTarget) :
    (f.runExtension target).alone s = extendingFindings s [] (f.extending target) := by
  rw [alone_extension, buildExtension, Built.report_importing, Built.report_map,
    report_buildExtending]

theorem report_buildDeclarations (s : Scope) (f : File) :
    (f.buildDeclarations s).report = f.findings s := by
  simp only [buildDeclarations, findings, Built.report_seq, Built.report_map,
    Message.report_buildAll, FlatMessage.report_buildEnums, Built.report_list, List.flatMap_map,
    Built.report_under, Service.alone_eq, ← alone_extension, alone_runExtension]

theorem report_build (package : String) (registry : Registry) (validateImport : String)
    (f : File) : (f.build package registry validateImport).report =
      f.findings (f.scope registry validateImport) := by
  rw [build, Built.report_map, report_buildDeclarations]

/-- **A file reports its findings.** -/
theorem ofResult_run (package : String) (registry : Registry) (validateImport : String)
    (f : File) : .ofResult (f.run package registry validateImport) =
      f.findings (f.scope registry validateImport) := by
  rw [run_eq, Built.ofResult_result, report_build]

end File

/-! ## The order of fields -/

/-- `sorted` has the entries of `l` in ascending order of their numbers, those of one number in the
order that they have in `l`. -/
structure AscendingStably {α : Type} (l sorted : List (Nat × α)) : Prop where
  ascending : sorted.Pairwise fun a b => a.1 ≤ b.1
  stable : ∀ n, sorted.filter (·.1 == n) = l.filter (·.1 == n)

theorem byNumber_ascendingStably {α : Type} (l : List (Nat × α)) :
    AscendingStably l (byNumber l) where
  ascending := (pairwise_stableSort sortsBy_number l).imp of_decide_eq_true
  stable n := filter_stableSort (fun a b ha hb => by
    rw [beq_iff_eq] at ha hb
    exact decide_eq_true (ha.trans hb.symm).le) l

/-! ## The report of a package -/

namespace Package

theorem report_built (p : Package) : p.built.report = p.findings := by
  simp only [built, findings, Built.report_under, Built.report_seq, Built.report_map,
    Built.report_check, Registry.violations_ofFiles, nameViolations, repeats_eq, buildFiles,
    Built.report_list, List.flatMap_map, File.report_build]

/-- **Compositional report.** A package fails with its findings, and builds just when there are
none. They are what its declarations report on their own, whatever their siblings do. -/
theorem build_findings (p : Package) :
    (∀ r, p.build = .error r ↔ p.findings ≠ [] ∧ r = p.findings)
      ∧ ((∃ d, p.build = .ok d) ↔ p.findings = [])
      ∧ (∀ (package : String) (registry : Registry) (validateImport : String) (f : File),
        .ofResult (f.run package registry validateImport) =
          f.findings (f.scope registry validateImport))
      ∧ (∀ (s : Scope) (m : Message), m.run.alone s = m.findings s)
      ∧ (∀ (s : Scope) (o : Oneof), o.run.alone s = o.findings s)
      ∧ (∀ (s : Scope) (v : Service), v.run.alone s = v.findings s)
      ∧ (∀ (s : Scope) (f : File) (target : ExtensionTarget),
        (f.runExtension target).alone s = File.extendingFindings s [] (f.extending target))
      ∧ (∀ (s : Session) (steps : List Step),
        (s.run steps).1 = steps.map fun next => (next.run { scope := s.scope }).1)
      ∧ ∀ m : FlatMessage, AscendingStably m.fields (byNumber m.fields) := by
  have hok : (∃ d, p.build = .ok d) ↔ p.findings = [] := by
    rw [build_eq, ← report_built, Built.report_eq_nil_iff]
    simp only [Built.result_eq_ok_iff]
  refine ⟨fun r => ?_, hok, File.ofResult_run, Message.alone_run, Oneof.alone_run,
    Service.alone_run, File.alone_runExtension, fun s steps => (Session.run_results steps s).1,
    fun m => byNumber_ascendingStably m.fields⟩
  by_cases hf : p.findings = []
  · obtain ⟨d, hd⟩ := hok.2 hf
    simp [hd, hf]
  · have hr : p.built.report ≠ [] := by rwa [report_built]
    rw [build_eq, Built.result_of_report hr, report_built]
    simp [hf, eq_comm]

end Package
end WireSchema

import WireSchema.Package
import WireSchema.Proofs.Outcome
import WireSchema.Session

/-!
# One session for all declarations

Running a declaration in a session gives exactly the outcome of building it in the scope of the
session alone, and changes nothing about the session but the imports, which grow by those of that
outcome (`Built.record`). So no builder sees what was gathered before it, a message leaves the scope
as it found it whether its parts failed or not, and the imports of a file are the union of what its
declarations ask for.

* `Field.run_eq`, `Oneof.run_eq`, `Enum.run_eq`, `Message.run_eq`, `Service.run_eq`: one lemma for
  each kind of declaration.
* `Builder.gather_eq`: the same for declarations that run one after another.
* `File.run_eq`, `Package.build_eq`: what runs is what the compositional outcome says.
-/

namespace WireSchema

/-! ## What an outcome does to a session -/

namespace Session

theorem importing_importing (s : Session) (a b : StringSet) :
    (s.importing a).importing b = s.importing (a ∪ b) := by
  simp [importing, StringSet.union_assoc]

@[simp] theorem importing_empty (s : Session) : s.importing ∅ = s := by simp [importing]

/-- What is gathered inside a message stays when the message is left. -/
@[simp] theorem leave_importing_enter (s : Session) (name : String) (i : StringSet) :
    ((s.enter name).importing i).leave = s.importing i := by
  simp [importing, enter, leave]

end Session

namespace Built

variable {α β : Type}

/-- The result of an outcome, and the session with its imports. -/
def record (x : Built α) (s : Session) : Except Report α × Session :=
  (x.result, s.importing x.imports)

/-- The reports and the values of several outcomes, and the session with all their imports. -/
def recordAll (xs : List (Built α)) (s : Session) : Gathered α × Session :=
  (⟨(list xs).report, xs.filterMap value⟩, s.importing (list xs).imports)

theorem record_map (f : α → β) (x : Built α) (s : Session) :
    (f <$> x).record s = ((x.record s).1.map f, (x.record s).2) := by
  simp only [record, result, value_map, report_map, imports_map]
  cases x.value <;> rfl

theorem record_reject (r : Report) (h : r ≠ []) (s : Session) :
    (reject r h : Built α).record s = (.error r, s) := by
  rw [record, result_of_report (by simpa using h)]; simp

/-- An outcome with its value written out, in a session. -/
theorem Yields.record_eq {x : Built α} {a : α} (h : x.Yields a) (s : Session) :
    x.record s = (x.report.toExcept a, s.importing x.imports) := by
  rw [record, h.result_eq]

theorem result_under (scope : String) (x : Built α) :
    (x.under scope).result =
      match x.result with
      | .ok a => .ok a
      | .error r => .error (r.under scope) := by
  simp only [result, value_under, report_under]
  cases x.value <;> rfl

/-- Two outcomes side by side: both values, or the reports of those that fail. -/
theorem result_pair (x : Built α) (y : Built β) :
    (Prod.mk <$> x <*> y).result =
      match x.result, y.result with
      | .ok a, .ok b => .ok (a, b)
      | .ok _, .error r => .error r
      | .error r, .ok _ => .error r
      | .error q, .error r => .error (q ++ r) := by
  simp only [result, value_seq, value_map, report_seq, report_map]
  cases hx : x.value with
  | none =>
    cases hy : y.value with
    | none => rfl
    | some b => simp [report_of_value hy]
  | some a =>
    cases hy : y.value with
    | none => simp [report_of_value hx]
    | some b => rfl

theorem record_andThen (x : Built α) (f : α → Built β) (s : Session) :
    (x.andThen f).record s =
      (match x.result with
        | .ok a => (f a).record (s.importing x.imports)
        | .error r => (.error r, s.importing x.imports)) := by
  cases hv : x.value with
  | some a =>
    rw [andThen_of_value hv, result_of_value hv]
    simp only [record, Session.importing_importing]; rfl
  | none =>
    have hr : x.report ≠ [] := fun h => by
      obtain ⟨a, ha⟩ := report_eq_nil_iff.1 h; rw [hv] at ha; cases ha
    rw [andThen_of_none hv, result_of_report hr]; rfl

end Built

namespace Gathered

variable {α : Type}

/-- Noting the result of one outcome before those of others. -/
theorem add_result (scope : String) (x : Built α) (xs : List (Built α)) :
    Gathered.add scope x.result ⟨(Built.list xs).report, xs.filterMap Built.value⟩ =
      ⟨(Built.list (x.under scope :: xs)).report,
        (x.under scope :: xs).filterMap Built.value⟩ := by
  cases hv : x.value with
  | some a =>
    rw [Built.result_of_value hv]
    simp [add, hv, Built.report_of_value hv]
  | none =>
    have hr : x.report ≠ [] := fun h => by
      obtain ⟨a, ha⟩ := Built.report_eq_nil_iff.1 h; rw [hv] at ha; cases ha
    rw [Built.result_of_report hr]
    simp [add, hv]

end Gathered

/-- Builders that run one after another do not see each other. -/
theorem Builder.gather_eq {α ι : Type} (scope : ι → String) (run : ι → Builder α)
    (build : Scope → ι → Built α) (h : ∀ i s, run i s = (build s.scope i).record s) (l : List ι)
    (s : Session) :
    gather (l.map fun i => (scope i, run i)) s =
      Built.recordAll (l.map fun i => (build s.scope i).under (scope i)) s := by
  induction l generalizing s with
  | nil => simp [gather, Built.recordAll]
  | cons i l ih =>
    simp only [List.map_cons, gather, h, Built.record]
    rw [ih]
    simp only [Built.recordAll, Session.scope_importing, Gathered.add_result,
      Session.importing_importing]
    rfl

/-! ## Fields and oneofs -/

theorem FieldContent.run_eq (c : FieldContent) (number : Nat) (h : FieldHead) (s : Session) :
    c.run number h s = (c.build s.scope number h).record s := by
  unfold build
  rw [(((Built.yields_check _).map fun _ => c.descriptor s.scope number h).importing _).record_eq]
  simp [run]

theorem LeafField.run_eq (number : Nat) (f : LeafField) (s : Session) :
    f.run number s = (f.build s.scope number).record s := by
  unfold run build
  cases f.type.wireKind s.scope with
  | error v => simp only [Built.record_reject]
  | ok kind => exact FieldContent.run_eq _ number f.head s

namespace Field

theorem runElement_eq (number : Nat) (outer : String) (f : Field) (s : Session) :
    runElement number outer f s = (buildElement s.scope number outer f).record s := by
  cases f with
  | leaf f => exact LeafField.run_eq number _ s
  | repeated h item count unique => simp only [runElement, buildElement, Built.record_reject]
  | map h key value pairs => simp only [runElement, buildElement, Built.record_reject]

theorem run_eq (number : Nat) (f : Field) (s : Session) :
    f.run number s = (f.build s.scope number).record s := by
  cases f with
  | leaf f => exact f.run_eq number s
  | repeated head item count unique =>
    simp only [run, build]
    by_cases hv : repeatedViolations item count unique = []
    · have hr : Report.ofViolations (repeatedViolations item count unique) = [] := by simp [hv]
      rw [if_pos hv, Built.ifClear, dif_pos hr, Built.record_andThen, runElement_eq]
      simp only [Built.record, Built.result_under, Built.imports_under]
      cases (buildElement s.scope number "repeated" item).result with
      | ok d => exact FieldContent.run_eq _ number head _
      | error r => rfl
    · have hr : Report.ofViolations (repeatedViolations item count unique) ≠ [] := by simp [hv]
      rw [if_neg hv, Built.ifClear, dif_neg hr, Built.record_reject]
  | map head key value pairs =>
    simp only [run, build]
    by_cases hv : mapViolations key value pairs = []
    · have hr : Report.ofViolations (mapViolations key value pairs) = [] := by simp [hv]
      rw [if_pos hv, Built.ifClear, dif_pos hr, Built.record_andThen]
      simp only [runElement_eq, Built.record, Session.scope_importing,
        Session.importing_importing, Built.result_pair, Built.result_under, Built.imports_seq,
        Built.imports_map, Built.imports_under]
      cases (buildElement s.scope 1 "map" key).result with
      | ok k =>
        cases (buildElement s.scope 2 "map" value).result with
        | ok w =>
          show (mapContent pairs k w).run number head _ = _
          rw [FieldContent.run_eq, Built.record, Session.importing_importing]; rfl
        | error r => rfl
      | error q => cases (buildElement s.scope 2 "map" value).result <;> rfl
    · have hr : Report.ofViolations (mapViolations key value pairs) ≠ [] := by simp [hv]
      rw [if_neg hv, Built.ifClear, dif_neg hr, Built.record_reject]

end Field

namespace Oneof

theorem runChoice_eq (oneof : String) (number : Nat) (f : Field) (s : Session) :
    runChoice oneof number f s = (buildChoice s.scope oneof number f).record s := by
  unfold runChoice buildChoice
  split
  · rw [Built.record_reject]
  · rw [Built.record_map, Builder.map, Field.run_eq]

/-- The descriptor of a oneof around the descriptors of its choices. -/
theorem yields_build (o : Oneof) (s : Scope) :
    (o.build s).Yields ⟨o.name, ((byNumber o.choices).map fun (n, f) =>
      (buildChoice s o.name n f).under (scopeOf "field" f.name)).filterMap Built.value,
      o.rules, o.options⟩ :=
  ((Built.yields_list _).map _).importing _

theorem run_eq (o : Oneof) (s : Session) : o.run s = (o.build s.scope).record s := by
  rw [(yields_build o s.scope).record_eq]
  have hg := Builder.gather_eq (fun x : Nat × Field => scopeOf "field" x.2.name)
    (fun x => runChoice o.name x.1 x.2) (fun s x => buildChoice s o.name x.1 x.2)
    (fun x s => runChoice_eq o.name x.1 x.2 s) (byNumber o.choices) s
  unfold run build
  simp only [hg]
  cases hr : o.required with
  | true => simp [Built.recordAll, rules, hr, Session.importing_importing]
  | false => simp [Built.recordAll, rules, hr]

end Oneof

/-! ## Enums and messages -/

theorem Enum.run_eq (e : Enum) (s : Session) : e.run s = (e.build s.scope).record s := by
  unfold build
  rw [((Built.yields_check _).map fun _ => e.descriptor s.scope).record_eq]
  simp [run]

namespace FlatMessage

theorem runFields_eq (m : FlatMessage) (s : Session) :
    m.runFields s = Built.recordAll ((byNumber m.fields).map fun (n, f) =>
      (f.build s.scope n).under (scopeOf "field" f.name)) s :=
  Builder.gather_eq (fun x : Nat × Field => scopeOf "field" x.2.name) (fun x => x.2.run x.1)
    (fun s x => x.2.build s x.1) (fun x s => x.2.run_eq x.1 s) (byNumber m.fields) s

theorem runOneofs_eq (m : FlatMessage) (s : Session) :
    m.runOneofs s = Built.recordAll (m.oneofs.map fun o =>
      (o.build s.scope).under (scopeOf "oneof" o.name)) s :=
  Builder.gather_eq (fun o : Oneof => scopeOf "oneof" o.name) Oneof.run
    (fun s (o : Oneof) => o.build s) Oneof.run_eq m.oneofs s

theorem runEnums_eq (enums : List Enum) (s : Session) :
    runEnums enums s = Built.recordAll (enums.map fun e =>
      (e.build s.scope).under (scopeOf "enum" e.name)) s :=
  Builder.gather_eq (fun e : Enum => scopeOf "enum" e.name) Enum.run
    (fun s (e : Enum) => e.build s) Enum.run_eq enums s

end FlatMessage

namespace Message

/-- Messages side by side, as outcomes in a row. -/
theorem buildAll_eq (s : Scope) (ms : List Message) :
    buildAll s ms = .list (ms.map fun m => (m.build s).under (scopeOf "message" m.name)) := by
  induction ms with
  | nil => rfl
  | cons m ms ih => rw [buildAll, ih]; rfl

/-- The descriptor of a message around the descriptors of its parts. -/
theorem yields_build (m : FlatMessage) (nested : List Message) (s : Scope) :
    (build s ⟨m, nested⟩).Yields (m.assemble s
      (((byNumber m.fields).map fun (n, f) =>
        (f.build (s.enter m.name) n).under (scopeOf "field" f.name)).filterMap Built.value)
      ((m.oneofs.map fun o =>
        (o.build (s.enter m.name)).under (scopeOf "oneof" o.name)).filterMap Built.value)
      ((nested.map fun n =>
        (n.build (s.enter m.name)).under (scopeOf "message" n.name)).filterMap Built.value)
      ((m.enums.map fun e =>
        (e.build (s.enter m.name)).under (scopeOf "enum" e.name)).filterMap Built.value)) := by
  rw [build, buildAll_eq]
  exact ((((((Built.yields_check _).map _).seq (Built.yields_list _)).seq
    (Built.yields_list _)).seq (Built.yields_list _)).seq (Built.yields_list _)).importing _

mutual

theorem run_eq : ∀ (m : Message) (s : Session), m.run s = (m.build s.scope).record s
  | ⟨m, nested⟩, s => by
    rw [(yields_build m nested s.scope).record_eq, run, build, buildAll_eq]
    simp only [FlatMessage.runFields_eq, FlatMessage.runOneofs_eq, runAll_eq nested,
      FlatMessage.runEnums_eq, Built.recordAll, Session.scope_importing, Session.scope_enter,
      Session.importing_importing, Session.leave_importing_enter]
    unfold FlatMessage.ownImports FlatMessage.checks
    split
    · simp only [Built.report_importing, Built.report_seq, Built.report_map, Built.report_check,
        Built.imports_importing, Built.imports_seq, Built.imports_map, Built.imports_check,
        StringSet.empty_union, StringSet.union_empty]
      rfl
    · simp only [Built.report_importing, Built.report_seq, Built.report_map, Built.report_check,
        Built.imports_importing, Built.imports_seq, Built.imports_map, Built.imports_check,
        StringSet.empty_union]
      rfl

theorem runAll_eq : ∀ (ms : List Message) (s : Session), runAll ms s =
    Built.recordAll (ms.map fun m => (m.build s.scope).under (scopeOf "message" m.name)) s
  | [], s => by simp [runAll, Built.recordAll]
  | m :: ms, s => by
    simp only [runAll, run_eq m, Built.record, runAll_eq ms]
    simp only [Built.recordAll, Session.scope_importing, List.map_cons, Gathered.add_result,
      Session.importing_importing]
    rfl

end

end Message

/-! ## Services -/

theorem Method.run_eq (m : Method) (s : Session) : m.run s = (m.build s.scope).record s := by
  unfold run build buildReference
  cases s.scope.resolve .message m.input with
  | ok i =>
    cases s.scope.resolve .message m.output with
    | ok o => simp [referenceImports, Built.record, Built.result]
    | error v => simp [referenceImports, Built.record, Built.result]
  | error v =>
    cases s.scope.resolve .message m.output with
    | ok o => simp [referenceImports, Built.record, Built.result]
    | error w => simp [referenceImports, Built.record, Built.result, Report.ofViolations]

theorem Service.run_eq (v : Service) (s : Session) : v.run s = (v.build s.scope).record s := by
  have hg := Builder.gather_eq (fun m : Method => scopeOf "method" m.name) Method.run
    (fun s (m : Method) => m.build s) Method.run_eq (stableSort Method.precedes v.methods) s
  unfold run build buildMethods
  rw [(((Built.yields_check _).map _).seq (Built.yields_list _)).record_eq]
  simp only [hg]
  simp [Built.recordAll]

/-! ## Files -/

namespace File

theorem yields_buildExtending (s : Scope) (fields : List (Nat × Field)) :
    ∀ earlier, (buildExtending s earlier fields).Yields
      (fields.filterMap fun (n, f) => (f.build s n).value) := by
  induction fields with
  | nil => exact fun _ _ => rfl
  | cons x rest ih =>
    obtain ⟨n, f⟩ := x
    intro earlier hr
    simp only [buildExtending, Built.report_seq, Built.report_map, Built.report_under,
      Built.report_check, List.append_eq_nil_iff, Report.under_eq_nil_iff] at hr
    obtain ⟨a, ha⟩ := Built.report_eq_nil_iff.1 hr.1.2
    simp [buildExtending, hr.1.1, ha, ih _ hr.2]

theorem runExtending_eq (fields : List (Nat × Field)) :
    ∀ (earlier : List (Nat × String)) (s : Session), runExtending earlier fields s =
      (⟨(buildExtending s.scope earlier fields).report,
        fields.filterMap fun (n, f) => (f.build s.scope n).value⟩,
        s.importing (buildExtending s.scope earlier fields).imports) := by
  induction fields with
  | nil => intro earlier s; simp [runExtending, buildExtending]
  | cons x rest ih =>
    obtain ⟨n, f⟩ := x
    intro earlier s
    simp only [runExtending, f.run_eq, Built.record, ih, Session.scope_importing,
      Session.importing_importing]
    cases hv : (f.build s.scope n).value with
    | some d =>
      simp [Built.result_of_value hv, Gathered.add, buildExtending, hv, Built.report_of_value hv]
    | none =>
      have hr : (f.build s.scope n).report ≠ [] := fun h => by
        obtain ⟨a, ha⟩ := Built.report_eq_nil_iff.1 h; rw [hv] at ha; cases ha
      simp [Built.result_of_report hr, Gathered.add, buildExtending, hv]

/-- The block of one target around the descriptors of its fields. -/
theorem yields_buildExtension (s : Scope) (f : File) (target : ExtensionTarget) :
    (buildExtension s f target).Yields
      ⟨target, (f.extending target).filterMap fun (n, g) => (g.build s n).value⟩ :=
  ((yields_buildExtending s (f.extending target) []).map _).importing _

theorem runExtension_eq (f : File) (target : ExtensionTarget) (s : Session) :
    f.runExtension target s = (buildExtension s.scope f target).record s := by
  rw [(yields_buildExtension s.scope f target).record_eq]
  simp only [runExtension, runExtending_eq, Session.scope_importing, Session.importing_importing]
  rw [StringSet.union_comm]; rfl

theorem runExtensions_eq (f : File) (s : Session) :
    Builder.gather (f.extended.map fun target =>
        ("extend " ++ target.extendee, f.runExtension target)) s =
      Built.recordAll (f.extended.map fun target =>
        (buildExtension s.scope f target).under ("extend " ++ target.extendee)) s :=
  Builder.gather_eq (fun target : ExtensionTarget => "extend " ++ target.extendee) f.runExtension
    (fun s target => buildExtension s f target) (runExtension_eq f) f.extended s

theorem runServices_eq (f : File) (s : Session) :
    Builder.gather (f.services.map fun v => (scopeOf "service" v.name, v.run)) s =
      Built.recordAll (f.services.map fun v =>
        (v.build s.scope).under (scopeOf "service" v.name)) s :=
  Builder.gather_eq (fun v : Service => scopeOf "service" v.name) Service.run
    (fun s (v : Service) => v.build s) Service.run_eq f.services s

/-- The built declarations of a file, part by part. -/
theorem yields_buildDeclarations (s : Scope) (f : File) :
    (f.buildDeclarations s).Yields
      { messages := (f.messages.map fun m =>
          (m.build s).under (scopeOf "message" m.name)).filterMap Built.value
        enums := (f.enums.map fun e =>
          (e.build s).under (scopeOf "enum" e.name)).filterMap Built.value
        services := (f.services.map fun v =>
          (v.build s).under (scopeOf "service" v.name)).filterMap Built.value
        extensions := (f.extended.map fun target =>
          (buildExtension s f target).under ("extend " ++ target.extendee)).filterMap
            Built.value } := by
  unfold buildDeclarations
  rw [Message.buildAll_eq]
  exact ((((Built.yields_list _).map _).seq (Built.yields_list _)).seq
    (Built.yields_list _)).seq (Built.yields_list _)

/-- **A file runs as it builds.** The one session of a file yields the outcome that the parts have
on their own, with the union of their imports. -/
theorem run_eq (package : String) (registry : Registry) (validateImport : String) (f : File) :
    f.run package registry validateImport =
      (f.build package registry validateImport).result := by
  unfold build
  rw [((yields_buildDeclarations _ f).map _).result_eq]
  simp only [run, Message.runAll_eq, FlatMessage.runEnums_eq, runServices_eq,
    runExtensions_eq, Built.recordAll, Session.scope_importing, Session.importing_importing,
    Session.imports_importing]
  simp only [buildDeclarations, Message.buildAll_eq, FlatMessage.buildEnums, Built.report_map,
    Built.report_seq, Built.imports_seq, Built.imports_map, StringSet.empty_union]

end File

/-! ## Packages -/

namespace Package

/-- The outcomes of the files under their scopes. -/
def fileOutcomes (p : Package) (registry : Registry) : List (Built FileDescriptor) :=
  p.files.map fun f =>
    (f.build p.config.package registry p.config.validateImport).under (scopeOf "file" f.name)

theorem runFiles_eq (p : Package) (registry : Registry) :
    p.runFiles registry = ⟨(Built.list (p.fileOutcomes registry)).report,
      (p.fileOutcomes registry).filterMap Built.value⟩ := by
  unfold runFiles fileOutcomes
  induction p.files with
  | nil => rfl
  | cons f fs ih =>
    rw [List.foldr_cons, ih, File.run_eq]
    exact Gathered.add_result _ _ _

/-- The descriptor of a package around those of its files. -/
theorem yields_built (p : Package) : p.built.Yields
    (p.descriptor ((p.fileOutcomes (Registry.ofFiles p.files).1).filterMap Built.value)) :=
  (((Built.yields_check _).map _).seq (Built.yields_list _)).under _

/-- **A package builds as its parts do.** -/
theorem build_eq (p : Package) : p.build = p.built.result := by
  rw [p.yields_built.result_eq]
  unfold build built
  simp only [runFiles_eq, Built.report_under, Built.report_seq, Built.report_map,
    Built.report_check]
  rfl

end Package

/-! ## Steps -/

theorem Step.run_eq (next : Step) (s : Session) : next.run s = (next.build s.scope).record s := by
  cases next with
  | field number f => rw [run, build, Built.record_map, Builder.map, f.run_eq]
  | oneof o => rw [run, build, Built.record_map, Builder.map, o.run_eq]
  | enum e => rw [run, build, Built.record_map, Builder.map, e.run_eq]
  | message m => rw [run, build, Built.record_map, Builder.map, m.run_eq]
  | service v => rw [run, build, Built.record_map, Builder.map, v.run_eq]

end WireSchema

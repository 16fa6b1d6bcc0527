import WireSchema.Proofs.Nesting
import WireSchema.Proofs.TypeRegistry

/-!
# Unresolved references in reports

A build looks up the references of a file in a fixed order, `File.lookups`, and names each one that
it does not find. A collection of a wrong shape is reported before its elements are looked up, and so
is a collection inside a oneof; every other check leaves the lookups alone.

* `Field.unresolved_build`: a field names the references that it looks up in vain.
* `Message.unresolved_build`: the same for a message, by induction over what is nested in it.
* `File.unresolved_build`, `Package.unresolved_built`: the same for a file and a package, so no
  failure hides another.
-/

namespace WireSchema

/-- The name that could not be resolved, if that is what is wrong. -/
@[simp] def Violation.unresolved? : Violation → Option String
  | .unresolvedType name => some name
  | _ => none

/-- The names among violations that could not be resolved, in order. -/
def Violation.unresolved (vs : List Violation) : List String := vs.filterMap unresolved?

/-- The names that a report says could not be resolved, in order. -/
def Report.unresolved (r : Report) : List String := r.filterMap fun f => f.violation.unresolved?

namespace Violation

@[simp] theorem unresolved_nil : unresolved [] = [] := rfl

@[simp] theorem unresolved_cons (v : Violation) (vs : List Violation) :
    unresolved (v :: vs) = v.unresolved?.toList ++ unresolved vs := by
  simp only [unresolved, List.filterMap_cons]
  cases v.unresolved? <;> rfl

@[simp] theorem unresolved_append (v w : List Violation) :
    unresolved (v ++ w) = unresolved v ++ unresolved w := List.filterMap_append

@[simp] theorem unresolved_flatMap {α : Type} (l : List α) (f : α → List Violation) :
    unresolved (l.flatMap f) = l.flatMap fun a => unresolved (f a) := by
  induction l with
  | nil => rfl
  | cons a l ih => simp [ih]

@[simp] theorem unresolved_map {α : Type} (l : List α) (f : α → Violation) :
    unresolved (l.map f) = l.flatMap fun a => (f a).unresolved?.toList := by
  induction l with
  | nil => rfl
  | cons a l ih => rw [List.map_cons, unresolved_cons, ih, List.flatMap_cons]

@[simp] theorem unresolved_ite {c : Prop} [Decidable c] {v w : List Violation} :
    unresolved (if c then v else w) = if c then unresolved v else unresolved w := by
  split <;> rfl

end Violation

open Violation (unresolved)

/-! ## Checks about no reference -/

@[simp] theorem Bounds.unresolved_violations (b : Bounds Literal) :
    unresolved b.violations = [] := by
  have hinv : unresolved b.inverted = [] := by
    unfold inverted
    split
    · split <;> rfl
    · rfl
  simp [violations, hinv]

@[simp] theorem Members.unresolved_violations (m : Members Literal) :
    unresolved m.violations = [] := by
  simp [violations]

@[simp] theorem Size.unresolved_violations (names : SizeNames) (s : Size) :
    unresolved (s.violations names) = [] := by
  unfold violations
  split <;> simp

@[simp] theorem Length.unresolved_violations (names : LengthNames) (l : Length) :
    unresolved (l.violations names) = [] := by
  simp [violations]

@[simp] theorem Affixes.unresolved_violations {α : Type} (a : Affixes α) :
    unresolved a.violations = [] := by
  unfold violations
  split
  · rfl
  · rename_i p _
    cases p.refusal? <;> rfl

@[simp] theorem Format.unresolved_violations (l : List Format) :
    unresolved (Format.violations l) = [] := by
  simp [violations]

theorem TimestampRules.unresolved_violations (r : TimestampRules) :
    unresolved r.violations = [] := by
  have hwithin : ∀ v, unresolved (durationViolation "within" v) = [] := fun v => by
    simp [durationViolation]
  unfold violations
  cases r.within <;> simp [hwithin]

@[simp] theorem LeafType.unresolved_violations (t : LeafType) : unresolved t.violations = [] := by
  cases t with
  | number k r => simp [violations, NumberRules.violations]
  | bool _ | message _ => rfl
  | string r => simp [violations, StringRules.violations]
  | bytes r => simp [violations, BytesRules.violations]
  | enum _ r => simp [violations, EnumRules.violations]
  | timestamp r => exact r.unresolved_violations
  | duration r => simp [violations, DurationRules.violations, durationViolation]
  | any m => simp [violations]

@[simp] theorem FieldContent.unresolved_constantViolations (c : FieldContent) (h : FieldHead) :
    unresolved (c.constantViolations h) = [] := by
  simp [constantViolations]

@[simp] theorem Field.unresolved_repeatedViolations (item : Field) (count : Size) (unique : Bool) :
    unresolved (repeatedViolations item count unique) = [] := by
  simp [repeatedViolations, nestingViolations]

@[simp] theorem Field.unresolved_mapViolations (key value : Field) (pairs : Size) :
    unresolved (mapViolations key value pairs) = [] := by
  simp [mapViolations, nestingViolations]

@[simp] theorem unresolved_numberViolations (earlier : List (Nat × String)) (n : Nat)
    (name : String) : unresolved (numberViolations earlier n name) = [] := by
  unfold numberViolations
  cases holder? earlier n <;> simp

namespace FlatMessage

@[simp] theorem unresolved_drift (m : FlatMessage) : unresolved m.drift = [] := by
  have hfield : ∀ expected f, unresolved (hostFieldDrift expected f) = [] := fun expected f => by
    unfold hostFieldDrift
    split <;> simp
  unfold drift
  split
  · simp [driftFrom, hfield]
  · rfl

theorem unresolved_slotViolations (slots : List (Nat × String)) :
    ∀ earlier, unresolved (slotViolations earlier slots) = [] := by
  induction slots with
  | nil => exact fun _ => rfl
  | cons x rest ih => intro earlier; simp [slotViolations, ih]

@[simp] theorem unresolved_numberingViolations (m : FlatMessage) :
    unresolved m.numberingViolations = [] := by
  simp [numberingViolations, unresolved_slotViolations, rangeViolations, reservedNameViolations]

end FlatMessage

@[simp] theorem Enum.unresolved_violations (e : Enum) : unresolved e.violations = [] := by
  have hvalues : ∀ vs earlier, unresolved (valuesViolations e.allowAlias earlier vs) = [] := by
    intro vs
    induction vs with
    | nil => exact fun _ => rfl
    | cons v vs ih =>
      intro earlier
      rw [valuesViolations, Violation.unresolved_append, ih, valueViolations]
      cases earlier.find? (·.number == v.number) <;> simp
  simp [violations, hvalues, reservedRangeViolations, reservedNameViolations]

@[simp] theorem Service.unresolved_violations (v : Service) : unresolved v.violations = [] := by
  simp [violations]

/-! ## Lookups -/

/-- The name that a result could not be resolved for. -/
def unresolvedOf? {α : Type} : Except Violation α → Option String
  | .ok _ => none
  | .error v => v.unresolved?

theorem unresolvedOf?_map {α β : Type} (x : Except Violation α) (f : α → β) :
    unresolvedOf? (x.map f) = unresolvedOf? x := by
  cases x <;> rfl

/-- The name of a reference that does not resolve where it stands. -/
def Reference.failure? (s : Scope) (r : Reference) : Option String := unresolvedOf? (r.resolve s)

/-- The references that are looked up when a field is built: none in a collection of a wrong shape.
-/
def Field.lookups (path : List String) : Field → List Reference
  | leaf f => (leaf f).references path
  | repeated _ item count unique =>
    if repeatedViolations item count unique = [] then item.references path else []
  | map _ key value pairs =>
    if mapViolations key value pairs = [] then key.references path ++ value.references path else []

namespace Report

@[simp] theorem unresolved_nil : unresolved [] = [] := rfl

@[simp] theorem unresolved_append (q r : Report) :
    unresolved (q ++ r) = unresolved q ++ unresolved r := List.filterMap_append

@[simp] theorem unresolved_under (scope : String) (r : Report) :
    (r.under scope).unresolved = r.unresolved := by
  simp [unresolved, under, Finding.under, List.filterMap_map, Function.comp_def]

@[simp] theorem unresolved_ofViolations (vs : List Violation) :
    (ofViolations vs).unresolved = Violation.unresolved vs := by
  simp only [unresolved, ofViolations, Violation.unresolved, List.filterMap_map]
  rfl

@[simp] theorem unresolved_flatMap {α : Type} (l : List α) (f : α → Report) :
    unresolved (l.flatMap f) = l.flatMap fun a => (f a).unresolved := by
  induction l with
  | nil => rfl
  | cons a l ih => simp [ih]

end Report

@[simp] theorem FieldContent.unresolved_build (c : FieldContent) (s : Scope) (n : Nat)
    (h : FieldHead) : (c.build s n h).report.unresolved = Violation.unresolved c.violations := by
  simp [build]

/-- The layout of a leaf type fails just when its reference does not resolve. -/
theorem LeafField.unresolvedOf?_wireKind (s : Scope) (f : LeafField) :
    (unresolvedOf? (f.type.wireKind s)).toList =
      ((Field.leaf f).references s.path).filterMap (Reference.failure? s) := by
  have hone : ∀ expected target, (unresolvedOf? (s.resolve expected target)).toList =
      [⟨s.path, expected, target⟩].filterMap (Reference.failure? s) := by
    intro expected target
    rw [List.filterMap_cons, List.filterMap_nil, Reference.failure?, Reference.resolve]
    cases unresolvedOf? (s.resolve expected target) <;> rfl
  unfold Field.references
  cases f.type with
  | enum t _ => exact (congrArg Option.toList (unresolvedOf?_map _ _)).trans (hone .enum t)
  | message t => exact (congrArg Option.toList (unresolvedOf?_map _ _)).trans (hone .message t)
  | _ => rfl

theorem LeafField.unresolved_build (s : Scope) (n : Nat) (f : LeafField) :
    (f.build s n).report.unresolved =
      ((Field.leaf f).references s.path).filterMap (Reference.failure? s) := by
  rw [← unresolvedOf?_wireKind, build]
  cases f.type.wireKind s with
  | ok kind => simp [unresolvedOf?]
  | error v => simp [unresolvedOf?]

namespace Field

/-- An element of a collection is looked up if it is a leaf. -/
theorem unresolved_element (s : Scope) (n : Nat) (outer : String) {f : Field}
    (h : f.isCollection = false) : (buildElement s n outer f).report.unresolved =
      (f.references s.path).filterMap (Reference.failure? s) := by
  cases f with
  | leaf f => exact LeafField.unresolved_build s n _
  | repeated _ _ _ _ => cases h
  | map _ _ _ _ => cases h

theorem isCollection_of_scalar? {f : Field} (h : f.scalar?.any ScalarKind.isMapKey = true) :
    f.isCollection = false := by
  cases f <;> first | rfl | cases h

theorem nestingViolations_eq_nil {outer : String} {f : Field} (h : nestingViolations outer f = []) :
    f.isCollection = false := by
  unfold nestingViolations at h
  split at h
  · cases h
  · simpa using ‹¬ f.isCollection = true›

/-- **A field reports the references that it looks up in vain.** -/
theorem unresolved_build (s : Scope) (n : Nat) (f : Field) :
    (f.build s n).report.unresolved = (f.lookups s.path).filterMap (Reference.failure? s) := by
  cases f with
  | leaf f => exact f.unresolved_build s n
  | repeated head item count unique =>
    rw [build, Built.report_ifClear, lookups]
    by_cases hv : repeatedViolations item count unique = []
    · have hleaf : item.isCollection = false := by
        simp only [repeatedViolations, List.append_eq_nil_iff] at hv
        exact nestingViolations_eq_nil hv.1.1
      rw [if_pos (by simp [hv]), if_pos hv,
        Built.report_andThen_of_clear fun i => rfl, Built.report_under,
        Report.unresolved_under, unresolved_element s n _ hleaf]
    · rw [if_neg (by simpa using hv), if_neg hv]
      simp
  | map head key value pairs =>
    rw [build, Built.report_ifClear, lookups]
    by_cases hv : mapViolations key value pairs = []
    · have hleaves : key.isCollection = false ∧ value.isCollection = false := by
        simp only [mapViolations, List.append_eq_nil_iff] at hv
        refine ⟨isCollection_of_scalar? ?_, nestingViolations_eq_nil hv.1.2⟩
        by_contra hkey
        simp [hkey] at hv
      rw [if_pos (by simp [hv]), if_pos hv, Built.report_andThen_of_clear fun i => rfl]
      simp [unresolved_element s _ _ hleaves.1, unresolved_element s _ _ hleaves.2]
    · rw [if_neg (by simpa using hv), if_neg hv]
      simp

end Field

/-! ## Lookups of a file -/

/-- The references that are looked up when a oneof is built: those of the choices that are leaves.
-/
def Oneof.lookups (path : List String) (o : Oneof) : List Reference :=
  (byNumber o.choices).flatMap fun (_, f) => if f.isCollection then [] else f.references path

def FlatMessage.lookups (path : List String) (m : FlatMessage) : List Reference :=
  ((byNumber m.fields).flatMap fun (_, f) => f.lookups path)
    ++ m.oneofs.flatMap (Oneof.lookups path)

/-- The references that are looked up when a file is built, in the order of its report. -/
def File.lookups (f : File) : List Reference :=
  ((Message.flattenAll [] f.messages).flatMap fun (path, m) => m.lookups path)
    ++ f.methods.flatMap Method.references
    ++ f.extended.flatMap fun target => (f.extending target).flatMap fun (_, g) => g.lookups []

theorem Oneof.unresolved_choice (s : Scope) (oneof : String) (n : Nat) (f : Field) :
    (buildChoice s oneof n f).report.unresolved =
      (if f.isCollection then [] else f.references s.path).filterMap (Reference.failure? s) := by
  unfold buildChoice
  cases f with
  | leaf f => exact LeafField.unresolved_build s n _
  | repeated _ _ _ _ => rfl
  | map _ _ _ _ => rfl

theorem Oneof.unresolved_build (s : Scope) (o : Oneof) :
    (o.build s).report.unresolved = (o.lookups s.path).filterMap (Reference.failure? s) := by
  simp [build, lookups, Built.report_list, List.flatMap_map, List.filterMap_flatMap,
    unresolved_choice]

namespace FlatMessage

theorem unresolved_build (s : Scope) (m : FlatMessage) :
    (m.buildFields s).report.unresolved ++ (m.buildOneofs s).report.unresolved =
      (m.lookups s.path).filterMap (Reference.failure? s) := by
  simp [buildFields, buildOneofs, lookups, Built.report_list, List.flatMap_map,
    List.filterMap_flatMap, Field.unresolved_build, Oneof.unresolved_build]

theorem unresolved_buildEnums (s : Scope) (enums : List Enum) :
    (buildEnums s enums).report.unresolved = [] := by
  simp [buildEnums, Enum.build, Built.report_list, List.flatMap_map]

end FlatMessage

namespace Message

mutual

theorem unresolved_build (s : Scope) : ∀ m : Message, (m.build s).report.unresolved =
    ((m.flatten s.path).flatMap fun (path, m) => m.lookups path).filterMap (Reference.failure? s)
  | ⟨m, nested⟩ => by
    have hown := m.unresolved_build (s.enter m.name)
    have hnested := unresolved_buildAll (s.enter m.name) nested
    simp only [build, FlatMessage.checks, Built.report_importing, Built.report_seq,
      Built.report_map, Built.report_check, Report.unresolved_append,
      Report.unresolved_ofViolations, Violation.unresolved_append, FlatMessage.unresolved_drift,
      FlatMessage.unresolved_numberingViolations, FlatMessage.unresolved_buildEnums,
      List.nil_append, List.append_nil, hown, hnested, flatten, List.flatMap_cons,
      List.filterMap_append]
    rfl

theorem unresolved_buildAll (s : Scope) : ∀ ms : List Message, (buildAll s ms).report.unresolved =
    ((flattenAll s.path ms).flatMap fun (path, m) => m.lookups path).filterMap
      (Reference.failure? s)
  | [] => rfl
  | m :: ms => by
    simp [buildAll, flattenAll, unresolved_build s m, unresolved_buildAll s ms]

end

end Message

/-! ## Lookups of a package -/

theorem Method.unresolved_build {s : Scope} (hs : s.path = []) (m : Method) :
    (m.build s).report.unresolved = m.references.filterMap (Reference.failure? s) := by
  have htop : { s with path := [] } = s := by rw [← hs]
  have hone : ∀ target, (buildReference s target).report.unresolved =
      (unresolvedOf? (s.resolve .message target)).toList := by
    intro target
    unfold buildReference
    cases s.resolve .message target with
    | ok t => rfl
    | error v => simp [unresolvedOf?]
  simp only [build, Built.report_seq, Built.report_map, Report.unresolved_append, hone, references,
    List.filterMap_cons, List.filterMap_nil, Reference.failure?, Reference.resolve, htop]
  cases unresolvedOf? (s.resolve .message m.input) <;>
    cases unresolvedOf? (s.resolve .message m.output) <;> rfl

namespace File

theorem unresolved_buildExtending (s : Scope) (fields : List (Nat × Field)) : ∀ earlier,
    (buildExtending s earlier fields).report.unresolved =
      (fields.flatMap fun (_, f) => f.lookups s.path).filterMap (Reference.failure? s) := by
  induction fields with
  | nil => exact fun _ => rfl
  | cons x rest ih =>
    obtain ⟨n, f⟩ := x
    intro earlier
    simp [buildExtending, ih, f.unresolved_build]

/-- **A file reports the references that it looks up in vain.** -/
theorem unresolved_build (package : String) (registry : Registry) (validateImport : String)
    (f : File) : (f.build package registry validateImport).report.unresolved =
      f.lookups.filterMap (Reference.failure? (f.scope registry validateImport)) := by
  have hpath : (f.scope registry validateImport).path = [] := rfl
  simp only [build, buildDeclarations, lookups, methods, buildExtension, Service.build,
    Service.buildMethods, Built.report_map, Built.report_seq, Built.report_list,
    Built.report_under, Built.report_check, Built.report_importing, Report.unresolved_append,
    Report.unresolved_flatMap, Report.unresolved_under, Report.unresolved_ofViolations,
    List.flatMap_map, Message.unresolved_buildAll, FlatMessage.unresolved_buildEnums,
    unresolved_buildExtending, Method.unresolved_build hpath, Service.unresolved_violations,
    List.append_nil, List.nil_append, hpath, List.filterMap_append, List.filterMap_flatMap,
    List.flatMap_assoc]

end File

theorem unresolved_redeclarations (ds : List (String × Declaration)) : ∀ earlier,
    unresolved (redeclarations earlier ds) = [] := by
  induction ds with
  | nil => exact fun _ => rfl
  | cons e rest ih =>
    intro earlier
    rw [redeclarations, Violation.unresolved_append, ih, List.append_nil]
    cases earlier.lookup e.1 <;> rfl

/-- **A package reports the references that its files look up in vain**, each time that one does. -/
theorem Package.unresolved_built (p : Package) : p.built.report.unresolved =
    p.files.flatMap fun f => f.lookups.filterMap (Reference.failure? (p.fileScope f)) := by
  have htypes : unresolved (Registry.ofFiles p.files).2 = [] := by
    rw [Registry.violations_ofFiles, unresolved_redeclarations]
  have hnames : unresolved p.nameViolations = [] := by simp [nameViolations]
  simp [built, buildFiles, Built.report_list, List.flatMap_map, File.unresolved_build, htypes,
    hnames, fileScope]

end WireSchema

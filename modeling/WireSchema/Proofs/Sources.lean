import WireSchema.Proofs.Description
import WireSchema.Proofs.SharedSession

/-!
# What built declarations come from

A value that comes out of a build, taken apart: the declaration that it was built from, the checks
that this passed, and the values of its parts.

* `LeafField.value_build`, `Field.value_repeated`, `Field.value_map`, `Oneof.value_choice`: what a
  field descriptor is made of, one lemma for each way to make one.
* `FlatMessageDescriptor.BuiltFrom`: what a built message says about its source; `File.builtFrom`
  says it of all messages of a file, by induction over what is nested.
* `Package.value_files`: a package that builds is made of files that build.
-/

namespace WireSchema

/-! ## References -/

/-- A resolved reference keeps the name that was written, and is well-known if that was. -/
theorem Scope.resolve_ok {s : Scope} {expected : DeclKind} {target : TypeName} {t : TypeRef}
    (h : s.resolve expected target = .ok t) :
    t.protoName = target.name ∧ t.wellKnown = target.wellKnown? := by
  unfold resolve at h
  cases target with
  | external name path => cases h; exact ⟨rfl, rfl⟩
  | wellKnown w => cases h; exact ⟨rfl, rfl⟩
  | declared name =>
    simp only at h
    split at h
    · split at h
      · cases h; exact ⟨rfl, rfl⟩
      · cases h
    · cases h

/-- A kind around a reference holds what the reference resolves to. -/
theorem WireKind.of_resolve {s : Scope} {expected : DeclKind} {target : TypeName}
    {make : TypeRef → WireKind} {kind : WireKind}
    (h : (s.resolve expected target).map make = .ok kind) :
    ∃ t, kind = make t ∧ t.protoName = target.name ∧ t.wellKnown = target.wellKnown? := by
  cases hr : s.resolve expected target with
  | error v => rw [hr] at h; cases h
  | ok t => rw [hr] at h; cases h; exact ⟨t, rfl, Scope.resolve_ok hr⟩

/-! ## Fields -/

variable {s : Scope} {n : Nat} {d : FieldDescriptor}

/-- A value passed the checks of its content. -/
theorem FieldContent.clear_of_value {c : FieldContent} {h : FieldHead}
    (hv : (c.build s n h).value = some d) : c.violations = [] ∧ c.constantViolations h = [] := by
  have hr := Built.report_of_value hv
  rwa [build, Built.report_importing, Built.report_map, Built.report_check,
    Report.ofViolations_eq_nil_iff, List.append_eq_nil_iff] at hr

/-- What a leaf contributes to its descriptor once its layout is known. -/
def LeafField.content (f : LeafField) (kind : WireKind) : FieldContent where
  kind := kind
  optional := f.optional
  violations := f.type.violations
  rules := f.type.rules
  constant := f.type.constantRule?
  examples := f.type.exampleRules

theorem LeafField.value_build {f : LeafField} (h : (f.build s n).value = some d) :
    ∃ kind, f.type.wireKind s = .ok kind ∧
      ((f.content kind).build s n f.head).value = some d := by
  unfold build at h
  cases hk : f.type.wireKind s with
  | error v => rw [hk] at h; cases h
  | ok kind => rw [hk] at h; exact ⟨kind, rfl, h⟩

namespace Field

/-- An element of a collection is a leaf, built without presence. -/
theorem value_element {outer : String} {f : Field} (h : (buildElement s n outer f).value = some d) :
    ∃ g, f = .leaf g ∧ ({ g with optional := false : LeafField }.build s n).value = some d := by
  cases f with
  | leaf g => exact ⟨g, rfl, h⟩
  | repeated _ _ _ _ => cases h
  | map _ _ _ _ => cases h

theorem value_repeated {head : FieldHead} {item : Field} {count : Size} {unique : Bool}
    (h : ((repeated head item count unique).build s n).value = some d) :
    ∃ i, repeatedViolations item count unique = [] ∧
      (buildElement s n "repeated" item).value = some i ∧
      ((repeatedContent count unique i).build s n head).value = some d := by
  rw [build] at h
  have hclear := Report.ofViolations_eq_nil_iff.1 (Built.clear_of_ifClear h)
  rw [Built.ifClear_of_value h] at h
  obtain ⟨i, hi, hd, -⟩ := Built.value_andThen h
  exact ⟨i, hclear, hi, hd⟩

theorem value_map {head : FieldHead} {key value : Field} {pairs : Size}
    (h : ((map head key value pairs).build s n).value = some d) :
    ∃ k v, mapViolations key value pairs = [] ∧
      (buildElement s 1 "map" key).value = some k ∧
      (buildElement s 2 "map" value).value = some v ∧
      ((mapContent pairs k v).build s n head).value = some d := by
  rw [build] at h
  have hclear := Report.ofViolations_eq_nil_iff.1 (Built.clear_of_ifClear h)
  rw [Built.ifClear_of_value h] at h
  obtain ⟨⟨k, v⟩, hkv, hd, -⟩ := Built.value_andThen h
  obtain ⟨_, _, hpair, hv, he⟩ := Built.seq_eq_some_iff.1 hkv
  obtain ⟨_, hk, rfl⟩ := Option.map_eq_some_iff.1 hpair
  cases he
  exact ⟨k, v, hclear, hk, hv, hd⟩

/-- Whatever is built from a field keeps its name and has the number that it is built at. -/
theorem name_number_of_value {f : Field} (h : (f.build s n).value = some d) :
    d.name = f.name ∧ d.number = n := by
  cases f with
  | leaf f =>
    obtain ⟨kind, -, hc⟩ := LeafField.value_build h
    rw [FieldContent.value_build hc]; exact ⟨rfl, rfl⟩
  | repeated head item count unique =>
    obtain ⟨i, -, -, hc⟩ := value_repeated h
    rw [FieldContent.value_build hc]; exact ⟨rfl, rfl⟩
  | map head key value pairs =>
    obtain ⟨k, v, -, -, -, hc⟩ := value_map h
    rw [FieldContent.value_build hc]; exact ⟨rfl, rfl⟩

end Field

/-- A choice of a oneof is a leaf, built without presence and marked with the oneof. -/
theorem Oneof.value_choice {oneof : String} {f : Field}
    (h : (buildChoice s oneof n f).value = some d) : ∃ g e, f = .leaf g ∧
      ({ g with optional := false : LeafField }.build s n).value = some e ∧
      d = { e with oneof := some oneof } := by
  unfold buildChoice at h
  split at h
  · cases h
  · next hleaf =>
    obtain ⟨e, he, rfl⟩ := Option.map_eq_some_iff.1 h
    cases f with
    | leaf g => exact ⟨g, e, rfl, he, rfl⟩
    | repeated _ _ _ _ => exact absurd rfl hleaf
    | map _ _ _ _ => exact absurd rfl hleaf

/-! ## Places -/

/-- A field with its number and the oneof that it is a choice of, if any. -/
structure PlacedField where
  oneof : Option String
  number : Nat
  field : Field

namespace PlacedField

/-- The outcome of the field at its place. -/
def build (s : Scope) (x : PlacedField) : Built FieldDescriptor :=
  match x.oneof with
  | none => x.field.build s x.number
  | some oneof => Oneof.buildChoice s oneof x.number x.field

theorem name_number_of_value {x : PlacedField} (h : (x.build s).value = some d) :
    d.name = x.field.name ∧ d.number = x.number := by
  obtain ⟨place, number, f⟩ := x
  cases place with
  | none => exact Field.name_number_of_value h
  | some oneof =>
    obtain ⟨g, e, rfl, he, rfl⟩ := Oneof.value_choice h
    have hleaf : ((Field.leaf { g with optional := false }).build s number).value = some e := he
    obtain ⟨hname, hnumber⟩ := Field.name_number_of_value hleaf
    exact ⟨hname, hnumber⟩

end PlacedField

/-- The fields of a message in the order of its descriptor, each at its place. -/
def FlatMessage.placedFields (m : FlatMessage) : List PlacedField :=
  (byNumber m.fields).map (fun (n, f) => ⟨none, n, f⟩)
    ++ m.oneofs.flatMap fun o => (byNumber o.choices).map fun (n, f) => ⟨some o.name, n, f⟩

/-- The fields of a built message, each with the oneof that it is a choice of. -/
def FlatMessageDescriptor.placedFields (d : FlatMessageDescriptor) :
    List (Option String × FieldDescriptor) :=
  d.fields.map (none, ·) ++ d.oneofs.flatMap fun o => o.fields.map (some o.name, ·)

theorem FlatMessage.map_placedFields (m : FlatMessage) :
    m.placedFields.map (fun x => (x.number, x.field)) = m.orderedFields := by
  simp [placedFields, orderedFields, List.map_flatMap, Function.comp_def]

theorem FlatMessageDescriptor.map_placedFields (d : FlatMessageDescriptor) :
    d.placedFields.map Prod.snd = d.allFields := by
  simp [placedFields, allFields, List.map_flatMap, Function.comp_def]

/-! ## Messages -/

/-- What a built message says about the message that it is built from, where `s` is the scope
inside the message. -/
structure FlatMessageDescriptor.BuiltFrom (s : Scope) (m : FlatMessage)
    (d : FlatMessageDescriptor) : Prop where
  fullName : d.fullName = ".".intercalate s.path
  host : d.host = m.host
  drift : m.drift = []
  numbering : m.numberingViolations = []
  fields : (m.buildFields s).value = some d.fields
  oneofs : (m.buildOneofs s).value = some d.oneofs
  enums : (FlatMessage.buildEnums s m.enums).value = some d.enums

theorem Oneof.value_build {o : Oneof} {d : OneofDescriptor} (h : (o.build s).value = some d) :
    d.name = o.name ∧ List.Forall₂ (fun x g => (buildChoice s o.name x.1 x.2).value = some g)
      (byNumber o.choices) d.fields := by
  simp only [build, Built.value_importing, Built.value_map] at h
  obtain ⟨fields, hfields, rfl⟩ := Option.map_eq_some_iff.1 h
  have hchoices := Built.forall₂_of_value_list hfields
  exact ⟨rfl, hchoices.imp fun x g hg => hg⟩

/-- The fields of a built message are the outcomes of the fields at their places. -/
theorem FlatMessageDescriptor.BuiltFrom.placedFields {m : FlatMessage}
    {d : FlatMessageDescriptor} (h : d.BuiltFrom s m) :
    List.Forall₂ (fun x g => g.1 = x.oneof ∧ (x.build s).value = some g.2)
      m.placedFields d.placedFields := by
  have hregular := Built.forall₂_of_value_list h.fields
  have honeofs := Built.forall₂_of_value_list h.oneofs
  refine List.rel_append ?_ (List.rel_flatMap honeofs fun o e he => ?_)
  · exact List.forall₂_map_left_iff.2 (List.forall₂_map_right_iff.2
      (hregular.imp fun x g hg => ⟨rfl, hg⟩))
  · obtain ⟨hname, hchoices⟩ := Oneof.value_build he
    rw [hname]
    exact List.forall₂_map_left_iff.2 (List.forall₂_map_right_iff.2
      (hchoices.imp fun x g hg => ⟨rfl, hg⟩))

namespace Message

/-- The checks of a message that builds found nothing. -/
theorem clear_of_value {m : FlatMessage} {nested : List Message} {d : MessageDescriptor}
    (h : (build s ⟨m, nested⟩).value = some d) : m.drift = [] ∧ m.numberingViolations = [] := by
  have hr := Built.report_of_value h
  simp only [build, FlatMessage.checks, Built.report_importing, Built.report_seq,
    Built.report_map, Built.report_check, List.append_eq_nil_iff,
    Report.ofViolations_eq_nil_iff] at hr
  exact hr.1.1.1.1

mutual

theorem builtFrom : ∀ (m : Message) (s : Scope) (d : MessageDescriptor),
    (m.build s).value = some d →
      List.Forall₂ (fun x e => e.BuiltFrom { s with path := x.1 } x.2) (m.flatten s.path) d.flatten
  | ⟨m, nested⟩, s, d, h => by
    obtain ⟨hdrift, hnumbering⟩ := clear_of_value h
    obtain ⟨fields, oneofs, messages, enums, hfields, honeofs, hmessages, henums, rfl⟩ :=
      value_build h
    exact .cons ⟨rfl, rfl, hdrift, hnumbering, hfields, honeofs, henums⟩
      (builtFromAll nested (s.enter m.name) messages hmessages)

theorem builtFromAll : ∀ (ms : List Message) (s : Scope) (ds : List MessageDescriptor),
    (buildAll s ms).value = some ds →
      List.Forall₂ (fun x e => e.BuiltFrom { s with path := x.1 } x.2) (flattenAll s.path ms)
        (MessageDescriptor.flattenAll ds)
  | [], s, ds, h => by
    cases h
    exact .nil
  | m :: ms, s, ds, h => by
    rw [buildAll] at h
    obtain ⟨_, rest, hcons, hrest, rfl⟩ := Built.seq_eq_some_iff.1 h
    obtain ⟨d, hd, rfl⟩ := Option.map_eq_some_iff.1 hcons
    exact List.rel_append (builtFrom m s d hd) (builtFromAll ms s rest hrest)

end

end Message

/-! ## Files and packages -/

namespace File

theorem value_extending (fields : List (Nat × Field)) :
    ∀ (earlier : List (Nat × String)) (ds : List FieldDescriptor),
      (buildExtending s earlier fields).value = some ds →
        List.Forall₂ (fun x g => (x.2.build s x.1).value = some g) fields ds := by
  induction fields with
  | nil =>
    intro earlier ds h
    cases h
    exact .nil
  | cons x rest ih =>
    obtain ⟨n, f⟩ := x
    intro earlier ds h
    rw [buildExtending] at h
    obtain ⟨_, gs, hhead, hgs, rfl⟩ := Built.seq_eq_some_iff.1 h
    obtain ⟨_, g, hcheck, hg, rfl⟩ := Built.seq_eq_some_iff.1 hhead
    obtain ⟨_, _, rfl⟩ := Option.map_eq_some_iff.1 hcheck
    exact .cons hg (ih _ gs hgs)

variable {package : String} {registry : Registry} {validateImport : String} {f : File}
  {d : FileDescriptor}

/-- The messages of a built file are built from those of the file one by one. -/
theorem builtFrom (h : (f.build package registry validateImport).value = some d) :
    List.Forall₂ (fun x e =>
        e.BuiltFrom { f.scope registry validateImport with path := x.1 } x.2)
      (Message.flattenAll [] f.messages) d.flatMessages := by
  obtain ⟨e, he, rfl⟩ := Option.map_eq_some_iff.1 h
  exact Message.builtFromAll f.messages _ e.messages (value_buildDeclarations he).1

/-- The extension blocks of a built file hold the outcomes of the fields that extend each target. -/
theorem value_extensions (h : (f.build package registry validateImport).value = some d) :
    List.Forall₂ (fun target e => List.Forall₂
        (fun x g => (x.2.build (f.scope registry validateImport) x.1).value = some g)
        (f.extending target) e.fields)
      f.extended d.extensions := by
  obtain ⟨e, he, rfl⟩ := Option.map_eq_some_iff.1 h
  refine (Built.forall₂_of_value_list (value_buildDeclarations he).2.2.2).imp fun target x hx => ?_
  rw [Built.value_under, buildExtension, Built.value_importing] at hx
  obtain ⟨fields, hfields, rfl⟩ := Option.map_eq_some_iff.1 hx
  exact value_extending _ [] fields hfields

end File

namespace Package

/-- A package that builds found no type and no file name twice. -/
theorem clear_of_build {p : Package} {d : PackageDescriptor} (h : p.build = .ok d) :
    (Registry.ofFiles p.files).2 = [] ∧ p.nameViolations = [] := by
  rw [build_eq, Built.result_eq_ok_iff] at h
  have hr := Built.report_of_value h
  rw [built, Built.report_under, Report.under_eq_nil_iff, Built.report_seq, Built.report_map,
    Built.report_check, List.append_eq_nil_iff, Report.ofViolations_eq_nil_iff,
    List.append_eq_nil_iff] at hr
  exact hr.1

/-- A package that builds is made of the values of its files. -/
theorem value_files {p : Package} {d : PackageDescriptor} (h : p.build = .ok d) :
    d = p.descriptor d.files ∧
      List.Forall₂ (fun f fd => (f.build p.config.package (Registry.ofFiles p.files).1
        p.config.validateImport).value = some fd) p.files d.files := by
  rw [build_eq, Built.result_eq_ok_iff] at h
  obtain ⟨_, files, hcheck, hfiles, rfl⟩ := Built.seq_eq_some_iff.1 h
  obtain ⟨_, _, rfl⟩ := Option.map_eq_some_iff.1 hcheck
  have hall := Built.forall₂_of_value_list hfiles
  exact ⟨rfl, hall.imp fun f fd hfd => hfd⟩

end Package

end WireSchema

import WireSchema.ProtoText
import WireSchema.Proofs.RulePaths
import WireSchema.Proofs.Spelling

/-!
# What a descriptor writes

The text of a descriptor consists of fixed words, names, numbers, quoted strings and the literals of
its options and rules. In what a package builds, the names follow their grammars, as they did in the
declarations; the literals are the author's, so a property of them is carried along as a parameter.

* `FileDescriptor.entries`: the assignments that a file writes, rules included, at every depth.
* `FileDescriptor.Writable`: the names in a descriptor follow their grammars, and its literals have
  the property.
* `Message.writable_of_value`, `Package.writable`: what a package builds is writable, by induction
  over what is nested.
-/

namespace WireSchema

/-! ## Assignments -/

/-- The assignments that state a rule beneath an extension: one for each value of a list. -/
def Rule.entries (extension : String) (r : Rule) : List OptionEntry :=
  let name := "(" ++ extension ++ ")." ++ r.dotted
  match r.value with
  | .list items => items.map fun v => ⟨name, v⟩
  | v => [⟨name, v⟩]

def OptionEntry.text (e : OptionEntry) : String := ProtoText.assignment e.name e.value

theorem ProtoText.ruleAssignments_eq (extension : String) (r : Rule) :
    ruleAssignments extension r = (r.entries extension).map OptionEntry.text := by
  obtain ⟨path, v⟩ := r
  cases v <;> simp [ruleAssignments, Rule.entries, OptionEntry.text, Rule.dotted]

/-- Options and rules are written as assignments alike. -/
theorem ProtoText.assignments_eq (extension : String) (options : List OptionEntry)
    (rules : List Rule) : assignments extension options rules =
      (options ++ rules.flatMap (Rule.entries extension)).map OptionEntry.text := by
  have hrules : ruleAssignments extension = fun r => (r.entries extension).map OptionEntry.text :=
    funext (ruleAssignments_eq extension)
  rw [assignments, List.map_append, List.map_flatMap, hrules]
  rfl

def FieldDescriptor.assigned (d : FieldDescriptor) : List OptionEntry :=
  d.options ++ d.rules.flatMap (Rule.entries "buf.validate.field")

def OneofDescriptor.assigned (d : OneofDescriptor) : List OptionEntry :=
  d.options ++ d.rules.flatMap (Rule.entries "buf.validate.oneof")

def FlatMessageDescriptor.assigned (d : FlatMessageDescriptor) : List OptionEntry :=
  d.options ++ d.rules.flatMap (Rule.entries "buf.validate.message")

def OneofDescriptor.entries (d : OneofDescriptor) : List OptionEntry :=
  d.assigned ++ d.fields.flatMap FieldDescriptor.assigned

def EnumDescriptor.entries (d : EnumDescriptor) : List OptionEntry :=
  d.options ++ d.values.flatMap EnumValueDescriptor.options

def FlatMessageDescriptor.entries (d : FlatMessageDescriptor) : List OptionEntry :=
  d.assigned ++ d.fields.flatMap FieldDescriptor.assigned ++ d.oneofs.flatMap OneofDescriptor.entries
    ++ d.enums.flatMap EnumDescriptor.entries

def ServiceDescriptor.entries (d : ServiceDescriptor) : List OptionEntry :=
  d.options ++ d.methods.flatMap MethodDescriptor.options

def ExtensionDescriptor.entries (d : ExtensionDescriptor) : List OptionEntry :=
  d.fields.flatMap FieldDescriptor.assigned

/-- The assignments that a file writes, at every depth. -/
def FileDescriptor.entries (d : FileDescriptor) : List OptionEntry :=
  d.options ++ d.enums.flatMap EnumDescriptor.entries
    ++ d.flatMessages.flatMap FlatMessageDescriptor.entries
    ++ d.services.flatMap ServiceDescriptor.entries
    ++ d.extensions.flatMap ExtensionDescriptor.entries

/-- The literals that a file writes. -/
def FileDescriptor.literals (d : FileDescriptor) : List Literal :=
  d.entries.map OptionEntry.value

/-! ## Writable descriptors -/

/-- The token in front of the name of a field: a dotted name, or a map of two, which has no label. -/
inductive FieldDescriptor.TypeToken (d : FieldDescriptor) : Prop where
  | name (h : Name.isDotted d.protoType = true)
  | map (key value : String) (h : d.protoType = "map<" ++ key ++ ", " ++ value ++ ">")
    (hkey : Name.isDotted key = true) (hvalue : Name.isDotted value = true)
    (hlabel : ProtoText.label d = "")

section Writable

variable (Q : Literal → Prop)

/-- Assignments to option names of literals with the property. -/
def OptionEntry.AllWritable (entries : List OptionEntry) : Prop :=
  ∀ e ∈ entries, Name.isOptionName e.name = true ∧ Q e.value

structure FieldDescriptor.Writable (d : FieldDescriptor) : Prop where
  name : Name.isIdentifier d.name = true
  type : d.TypeToken
  assigned : OptionEntry.AllWritable Q d.assigned

structure OneofDescriptor.Writable (d : OneofDescriptor) : Prop where
  name : Name.isIdentifier d.name = true
  fields : ∀ f ∈ d.fields, f.Writable Q
  assigned : OptionEntry.AllWritable Q d.assigned

structure EnumValueDescriptor.Writable (d : EnumValueDescriptor) : Prop where
  name : Name.isIdentifier d.name = true
  options : OptionEntry.AllWritable Q d.options

structure EnumDescriptor.Writable (d : EnumDescriptor) : Prop where
  name : Name.isIdentifier d.name = true
  values : ∀ v ∈ d.values, v.Writable Q
  options : OptionEntry.AllWritable Q d.options

structure FlatMessageDescriptor.Writable (d : FlatMessageDescriptor) : Prop where
  name : Name.isIdentifier d.name = true
  fields : ∀ f ∈ d.fields, f.Writable Q
  oneofs : ∀ o ∈ d.oneofs, o.Writable Q
  enums : ∀ e ∈ d.enums, e.Writable Q
  assigned : OptionEntry.AllWritable Q d.assigned

def MessageDescriptor.Writable (d : MessageDescriptor) : Prop := ∀ m ∈ d.flatten, m.Writable Q

structure MethodDescriptor.Writable (d : MethodDescriptor) : Prop where
  name : Name.isIdentifier d.name = true
  input : Name.isDotted d.input.protoName = true
  output : Name.isDotted d.output.protoName = true
  options : OptionEntry.AllWritable Q d.options

structure ServiceDescriptor.Writable (d : ServiceDescriptor) : Prop where
  name : Name.isIdentifier d.name = true
  methods : ∀ m ∈ d.methods, m.Writable Q
  options : OptionEntry.AllWritable Q d.options

structure FileDescriptor.Writable (d : FileDescriptor) : Prop where
  name : Name.isProtoPath d.name = true
  package : Name.isDotted d.package = true
  options : OptionEntry.AllWritable Q d.options
  enums : ∀ e ∈ d.enums, e.Writable Q
  messages : ∀ m ∈ d.messages, m.Writable Q
  services : ∀ v ∈ d.services, v.Writable Q
  extensions : ∀ e ∈ d.extensions, ∀ f ∈ e.fields, f.Writable Q

end Writable

namespace MessageDescriptor

variable {P : FlatMessageDescriptor → Prop}

theorem forall_flattenAll_iff {ds : List MessageDescriptor} :
    (∀ x ∈ flattenAll ds, P x) ↔ ∀ d ∈ ds, ∀ x ∈ d.flatten, P x := by
  induction ds with
  | nil => simp [flattenAll]
  | cons d ds ih => rw [flattenAll, List.forall_mem_append, List.forall_mem_cons, ih]

theorem writable_iff {Q : Literal → Prop} {d : FlatMessageDescriptor}
    {nested : List MessageDescriptor} :
    Writable Q ⟨d, nested⟩ ↔ d.Writable Q ∧ ∀ n ∈ nested, n.Writable Q := by
  rw [Writable, flatten, List.forall_mem_cons, forall_flattenAll_iff]
  rfl

end MessageDescriptor

/-! ## Built fields -/

variable {Q : Literal → Prop}

theorem OptionEntry.allWritable_of_spelled {options : List OptionEntry}
    (h : AllSpelled options) (hq : ∀ e ∈ options, Q e.value) : AllWritable Q options :=
  fun e he => ⟨h e he, hq e he⟩

/-- Options with option names, and rules with addresses beneath an extension, are assigned to option
names. -/
theorem OptionEntry.allWritable_of_rules {extension : String} {options : List OptionEntry}
    {rules : List Rule} (hext : Name.extensionChars extension.toList = true)
    (hoptions : AllSpelled options) (hrules : ∀ r ∈ rules, r.Addressed)
    (hq : ∀ e ∈ options ++ rules.flatMap (Rule.entries extension), Q e.value) :
    AllWritable Q (options ++ rules.flatMap (Rule.entries extension)) := by
  intro e he
  refine ⟨?_, hq e he⟩
  rcases List.mem_append.1 he with he | he
  · exact hoptions e he
  · obtain ⟨r, hr, he⟩ := List.mem_flatMap.1 he
    have hname : e.name = "(" ++ extension ++ ")." ++ r.dotted := by
      unfold Rule.entries at he
      split at he
      · obtain ⟨v, -, rfl⟩ := List.mem_map.1 he; rfl
      · rw [List.mem_singleton.1 he]
    rw [hname]
    exact Rule.isOptionName_dotted (hrules r hr) hext

section Fields

variable {s : Scope} {n : Nat} {d : FieldDescriptor}

/-- A leaf is written with the name of its type. -/
theorem LeafType.isDotted_protoType {t : LeafType} {kind : WireKind} (ht : t.Spelled)
    (h : t.wireKind s = .ok kind) : Name.isDotted kind.protoType = true := by
  cases t with
  | number k _ => cases h; exact Name.isDotted_of_isIdentifier k.isIdentifier_protoName
  | bool _ => cases h; decide
  | string _ => cases h; decide
  | bytes _ => cases h; decide
  | enum target _ =>
    obtain ⟨t, rfl, hname, -⟩ := WireKind.of_resolve h
    rw [WireKind.protoType, hname]
    exact ht _ rfl
  | message target =>
    obtain ⟨t, rfl, hname, -⟩ := WireKind.of_resolve h
    rw [WireKind.protoType, hname]
    exact ht _ rfl
  | timestamp _ => cases h; exact TypeName.named_wellKnown .timestamp
  | duration _ => cases h; exact TypeName.named_wellKnown .duration
  | any _ => cases h; exact TypeName.named_wellKnown .any

theorem LeafField.isDotted_protoType {f : LeafField} (hf : f.type.Spelled)
    (h : (f.build s n).value = some d) : Name.isDotted d.protoType = true := by
  obtain ⟨kind, hkind, hc⟩ := value_build h
  rw [FieldContent.value_build hc]
  exact LeafType.isDotted_protoType hf hkind

namespace WireKind

theorem protoType_repeated (item : FieldDescriptor) :
    (repeated item).protoType = item.protoType := by
  cases item; rfl

theorem protoType_map (key value : FieldDescriptor) : (map key value).protoType =
    "map<" ++ key.protoType ++ ", " ++ value.protoType ++ ">" := by
  cases key; cases value; rfl

end WireKind

namespace Field

theorem isDotted_of_element {outer : String} {f : Field} (hf : f.Spelled)
    (h : (buildElement s n outer f).value = some d) : Name.isDotted d.protoType = true := by
  obtain ⟨g, rfl, hg⟩ := value_element h
  exact LeafField.isDotted_protoType (f := { g with optional := false }) hf.2 hg

/-- A built field is written with a type token. -/
theorem typeToken_of_value {f : Field} (hf : f.Spelled) (h : (f.build s n).value = some d) :
    d.TypeToken := by
  cases f with
  | leaf f => exact .name (LeafField.isDotted_protoType (f := f) hf.2 h)
  | repeated head item count unique =>
    obtain ⟨i, -, hi, hc⟩ := value_repeated h
    have hitem := isDotted_of_element hf.2 hi
    rw [FieldContent.value_build hc]
    exact .name ((congrArg _ (WireKind.protoType_repeated i)).trans hitem)
  | map head key value pairs =>
    obtain ⟨k, v, -, hk, hv, hc⟩ := value_map h
    have hkey := isDotted_of_element hf.2.1 hk
    have hvalue := isDotted_of_element hf.2.2 hv
    rw [FieldContent.value_build hc]
    exact .map k.protoType v.protoType (WireKind.protoType_map k v) hkey hvalue rfl

theorem options_of_value {f : Field} (h : (f.build s n).value = some d) :
    d.options = f.head.options := by
  cases f with
  | leaf f =>
    obtain ⟨kind, -, hc⟩ := LeafField.value_build h
    rw [FieldContent.value_build hc]; rfl
  | repeated head item count unique =>
    obtain ⟨i, -, -, hc⟩ := value_repeated h
    rw [FieldContent.value_build hc]; rfl
  | map head key value pairs =>
    obtain ⟨k, v, -, -, -, hc⟩ := value_map h
    rw [FieldContent.value_build hc]; rfl

/-- **A built field is writable**, as the field was spelled. -/
theorem writable_of_value {f : Field} (hf : f.Spelled) (h : (f.build s n).value = some d)
    (hq : ∀ e ∈ d.assigned, Q e.value) : d.Writable Q where
  name := (name_number_of_value h).1 ▸ hf.head.name
  type := typeToken_of_value hf h
  assigned := OptionEntry.allWritable_of_rules (by decide +kernel)
    (options_of_value h ▸ hf.head.options) (addressed_of_value h) hq

end Field

/-- A choice is written as the leaf that it is. -/
theorem Oneof.writable_of_choice {oneof : String} {f : Field} (hf : f.Spelled)
    (h : (buildChoice s oneof n f).value = some d) (hq : ∀ e ∈ d.assigned, Q e.value) :
    d.Writable Q := by
  obtain ⟨g, e, rfl, he, rfl⟩ := value_choice h
  have hleaf : (Field.leaf { g with optional := false }).Spelled := hf
  have hwritable : e.Writable Q := Field.writable_of_value hleaf he hq
  have hdotted : Name.isDotted e.protoType = true :=
    LeafField.isDotted_protoType (f := { g with optional := false }) hf.2 he
  exact ⟨hwritable.name, .name hdotted, hwritable.assigned⟩

end Fields

/-! ## Built declarations -/

section Declarations

variable {s : Scope}

/-- Whatever is built part by part has a property when each part has it. -/
theorem Built.forall_of_value_list {ι α : Type} {l : List ι} {build : ι → Built α} {as : List α}
    {P : α → Prop} (h : (list (l.map build)).value = some as)
    (hp : ∀ i ∈ l, ∀ a ∈ as, (build i).value = some a → P a) : ∀ a ∈ as, P a := by
  have hall := forall₂_of_value_list h
  intro a ha
  obtain ⟨i, hi, hb⟩ := exists_of_forall₂_right hall ha
  exact hp i hi a ha hb

theorem Oneof.writable_of_value {o : Oneof} {d : OneofDescriptor} (ho : o.Spelled)
    (h : (o.build s).value = some d) (hq : ∀ e ∈ d.entries, Q e.value) : d.Writable Q := by
  simp only [build, Built.value_importing, Built.value_map] at h
  obtain ⟨fields, hfields, rfl⟩ := Option.map_eq_some_iff.1 h
  refine ⟨ho.name, Built.forall_of_value_list hfields fun x hx g hg hb => ?_, ?_⟩
  · exact writable_of_choice (ho.choices x (mem_byNumber.1 hx)) hb fun e he =>
      hq e (List.mem_append_right _ (List.mem_flatMap.2 ⟨g, hg, he⟩))
  · exact OptionEntry.allWritable_of_rules (by decide +kernel) ho.options
      (addressed_flag (List.cons_ne_nil _ _) (by decide)) fun e he =>
        hq e (List.mem_append_left _ he)

theorem Enum.writable_of_value {e : Enum} {d : EnumDescriptor} (he : e.Spelled)
    (h : (e.build s).value = some d) (hq : ∀ x ∈ d.entries, Q x.value) : d.Writable Q := by
  obtain ⟨_, -, rfl⟩ := Option.map_eq_some_iff.1 h
  refine ⟨he.name, fun v hv => ?_, OptionEntry.allWritable_of_spelled he.options fun x hx =>
    hq x (List.mem_append_left _ hx)⟩
  obtain ⟨w, hw, rfl⟩ := List.mem_map.1 ((stableSort_perm _ _).mem_iff.1 hv)
  exact ⟨(he.values w hw).name, OptionEntry.allWritable_of_spelled (he.values w hw).options
    fun x hx => hq x (List.mem_append_right _ (List.mem_flatMap.2 ⟨_, hv, hx⟩))⟩

theorem FlatMessage.writable_enums {enums : List Enum} {ds : List EnumDescriptor}
    (he : ∀ e ∈ enums, e.Spelled) (h : (buildEnums s enums).value = some ds)
    (hq : ∀ d ∈ ds, ∀ x ∈ d.entries, Q x.value) : ∀ d ∈ ds, d.Writable Q :=
  Built.forall_of_value_list h fun e hmem d hd hb =>
    Enum.writable_of_value (he e hmem) hb (hq d hd)

/-- A message is writable but for what is nested in it. -/
theorem FlatMessage.writable_assemble {m : FlatMessage} (hm : m.Spelled)
    {fields : List FieldDescriptor} {oneofs : List OneofDescriptor}
    (messages : List MessageDescriptor) {enums : List EnumDescriptor}
    (hfields : (m.buildFields (s.enter m.name)).value = some fields)
    (honeofs : (m.buildOneofs (s.enter m.name)).value = some oneofs)
    (henums : (buildEnums (s.enter m.name) m.enums).value = some enums)
    (hq : ∀ e ∈ (m.assemble s fields oneofs messages enums).toFlatMessageDescriptor.entries,
      Q e.value) :
    (m.assemble s fields oneofs messages enums).toFlatMessageDescriptor.Writable Q := by
  have hown := fun e he => hq e (List.mem_append_left _ (List.mem_append_left _
    (List.mem_append_left _ he)))
  have hregular := fun e he => hq e (List.mem_append_left _ (List.mem_append_left _
    (List.mem_append_right _ he)))
  have hchoices := fun e he => hq e (List.mem_append_left _ (List.mem_append_right _ he))
  have hvalues := fun e he => hq e (List.mem_append_right _ he)
  refine ⟨hm.name, ?_, ?_, ?_, ?_⟩
  · exact Built.forall_of_value_list hfields fun x hx g hg hb =>
      Field.writable_of_value (hm.fields x (mem_byNumber.1 hx)) hb fun e he =>
        hregular e (List.mem_flatMap.2 ⟨g, hg, he⟩)
  · exact Built.forall_of_value_list honeofs fun o ho g hg hb =>
      Oneof.writable_of_value (hm.oneofs o ho) hb fun e he =>
        hchoices e (List.mem_flatMap.2 ⟨g, hg, he⟩)
  · exact writable_enums hm.enums henums fun g hg e he =>
      hvalues e (List.mem_flatMap.2 ⟨g, hg, he⟩)
  · refine OptionEntry.allWritable_of_rules (by decide +kernel) hm.options (fun r hr => ?_) hown
    obtain ⟨c, -, rfl⟩ := List.mem_map.1 hr
    exact c.addressed_rule

namespace Message

mutual

/-- **A built message is writable** with everything nested in it. -/
theorem writable_of_value : ∀ (m : Message) (s : Scope) (d : MessageDescriptor), m.Spelled →
    (m.build s).value = some d → (∀ x ∈ d.flatten, ∀ e ∈ x.entries, Q e.value) → d.Writable Q
  | ⟨m, nested⟩, s, d, hm, h, hq => by
    obtain ⟨hflat, hnested⟩ := spelled_iff.1 hm
    obtain ⟨fields, oneofs, messages, enums, hfields, honeofs, hmessages, henums, rfl⟩ :=
      value_build h
    have hown := hq _ List.mem_cons_self
    refine MessageDescriptor.writable_iff.2
      ⟨FlatMessage.writable_assemble hflat messages hfields honeofs henums hown, ?_⟩
    exact writableAll_of_value nested _ messages hnested hmessages fun x hx =>
      hq x (List.mem_cons_of_mem _ hx)

theorem writableAll_of_value : ∀ (ms : List Message) (s : Scope) (ds : List MessageDescriptor),
    (∀ m ∈ ms, m.Spelled) → (buildAll s ms).value = some ds →
      (∀ x ∈ MessageDescriptor.flattenAll ds, ∀ e ∈ x.entries, Q e.value) →
        ∀ d ∈ ds, d.Writable Q
  | [], s, ds, _, h, _ => by
    cases h
    exact nofun
  | m :: ms, s, ds, hms, h, hq => by
    rw [buildAll] at h
    obtain ⟨_, rest, hcons, hrest, rfl⟩ := Built.seq_eq_some_iff.1 h
    obtain ⟨d, hd, rfl⟩ := Option.map_eq_some_iff.1 hcons
    obtain ⟨hm, hms⟩ := List.forall_mem_cons.1 hms
    have hone := writable_of_value m s d hm hd fun x hx => hq x (List.mem_append_left _ hx)
    have hall := writableAll_of_value ms s rest hms hrest fun x hx =>
      hq x (List.mem_append_right _ hx)
    exact List.forall_mem_cons.2 ⟨hone, hall⟩

end

end Message

theorem Method.writable_of_value {m : Method} {d : MethodDescriptor} (hm : m.Spelled)
    (h : (m.build s).value = some d) (hq : ∀ e ∈ d.options, Q e.value) : d.Writable Q := by
  obtain ⟨⟨hin, hout⟩, -⟩ := described h
  obtain ⟨_, output, hmap, -, rfl⟩ := Built.seq_eq_some_iff.1 h
  obtain ⟨input, -, rfl⟩ := Option.map_eq_some_iff.1 hmap
  refine ⟨hm.name, ?_, ?_, OptionEntry.allWritable_of_spelled hm.options hq⟩
  · rw [(Scope.resolve_ok hin).1]; exact hm.input
  · rw [(Scope.resolve_ok hout).1]; exact hm.output

theorem Service.writable_of_value {v : Service} {d : ServiceDescriptor} (hv : v.Spelled)
    (h : (v.build s).value = some d) (hq : ∀ e ∈ d.entries, Q e.value) : d.Writable Q := by
  obtain ⟨_, methods, hchecks, hmethods, rfl⟩ := Built.seq_eq_some_iff.1 h
  obtain ⟨_, _, rfl⟩ := Option.map_eq_some_iff.1 hchecks
  refine ⟨hv.name, Built.forall_of_value_list hmethods fun m hm g hg hb => ?_,
    OptionEntry.allWritable_of_spelled hv.options fun e he => hq e (List.mem_append_left _ he)⟩
  exact Method.writable_of_value (hv.methods m ((stableSort_perm _ _).mem_iff.1 hm)) hb
    fun e he => hq e (List.mem_append_right _ (List.mem_flatMap.2 ⟨g, hg, he⟩))

end Declarations

/-! ## Built files -/

/-- **A built file is writable.** -/
theorem File.writable_of_value {package : String} {registry : Registry} {validateImport : String}
    {f : File} {d : FileDescriptor} (hf : f.Spelled) (hpackage : Name.isDotted package = true)
    (h : (f.build package registry validateImport).value = some d)
    (hq : ∀ v ∈ d.literals, Q v) : d.Writable Q := by
  have hblocks := value_extensions h
  have hentries : ∀ e ∈ d.entries, Q e.value := List.forall_mem_map.1 hq
  obtain ⟨e, he, rfl⟩ := Option.map_eq_some_iff.1 h
  obtain ⟨hmessages, henums, hservices, -⟩ := value_buildDeclarations he
  simp only [FileDescriptor.entries, List.forall_mem_append, List.forall_mem_flatMap] at hentries
  obtain ⟨⟨⟨⟨hoptions, hvalues⟩, hnested⟩, hmethods⟩, hextensions⟩ := hentries
  refine ⟨hf.name, hpackage, OptionEntry.allWritable_of_spelled hf.options hoptions, ?_, ?_, ?_, ?_⟩
  · exact FlatMessage.writable_enums hf.enums henums hvalues
  · exact Message.writableAll_of_value f.messages _ e.messages hf.messages hmessages hnested
  · exact Built.forall_of_value_list hservices fun v hv g hg hb =>
      Service.writable_of_value (hf.services v hv) hb (hmethods g hg)
  · intro x hx g hg
    obtain ⟨target, -, hblock⟩ := exists_of_forall₂_right hblocks hx
    obtain ⟨⟨n, field⟩, hfield, hb⟩ := exists_of_forall₂_right hblock hg
    obtain ⟨ext, hext, -, -, rfl⟩ := mem_extending.1 hfield
    exact Field.writable_of_value (hf.extensions ext hext) hb fun a ha =>
      hextensions x hx a (List.mem_flatMap.2 ⟨g, hg, ha⟩)

/-- **What a package builds is writable**, when the names of the package passed their checks and the
literals of the file have the property. -/
theorem Package.writable {p : Package} {d : PackageDescriptor} (hp : p.Spelled)
    (h : p.build = .ok d) {fd : FileDescriptor} (hfd : fd ∈ d.files)
    (hq : ∀ v ∈ fd.literals, Q v) : fd.Writable Q := by
  obtain ⟨f, hf, hvalue⟩ := exists_of_forall₂_right (value_files h).2 hfd
  exact File.writable_of_value (hp.files f hf) hp.package hvalue hq

end WireSchema

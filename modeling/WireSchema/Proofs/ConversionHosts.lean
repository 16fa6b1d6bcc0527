import WireSchema.Proofs.Conservativity
import WireSchema.Proofs.ConversionSources

/-!
# The hosts that conversions name

The conversion of a message names the host record that the message is bound to, so that its values
are converted in turn. It looks the record up by the full name of the type. That is relative to the
package for its own types, and whatever was written for a type outside of it: such a type is taken
for a message of the package that has this name.

* `Field.core_ofKind_iff`: beneath the wrappers of its kind, a field has the conversion of a message
  just when its values are messages and none of the well-known ones.
* `Package.find?_hosts_iff`: the record found for a name is the one of the message of this name.
* `Package.conversion_hosts`: a conversion names the host of the type that its field refers to,
  except when a type outside of the package has the name of a bound message.
* `Package.conversion_hosts_captured`: a package that builds where one has.
-/

namespace WireSchema

/-! ## Conversions of messages -/

/-- The conversion beneath all wrappers. -/
def Conversion.core : Conversion → Conversion
  | optional c | repeated c | map c => core c
  | c => c

/-- The references are one to a message that is not well-known. It stands for the type that host
code has at this path, and this host is found under the full name of it. -/
def Reference.FindsHost (s : Scope) (module : String) (hosts : Hosts) (references : List Reference)
    (path : String) (host : Option String) : Prop :=
  ∃ target t, references = [⟨s.path, .message, target⟩] ∧ target.wellKnown? = none ∧
    s.resolve .message target = .ok t ∧ path = HostCode.typePath module t.fullName ∧
    host = hosts.find? t.fullName

section

variable {s : Scope} {n : Nat} {d : FieldDescriptor} {module : String} {hosts : Hosts}
  {path : String} {host : Option String}

theorem Conversion.core_ofField (module : String) (hosts : Hosts) (d : FieldDescriptor) :
    (ofField module hosts d).core = (ofKind module hosts d.kind).core := by
  unfold ofField
  split <;> rfl

theorem Conversion.ofKind_wellKnown_ne {t : TypeRef} {w : WellKnown} (h : t.wellKnown = some w) :
    (ofKind module hosts (.message t)).core ≠ .message path host := by
  rw [ofKind, h]
  cases w <;> simp [core]

theorem Conversion.ofKind_message_iff {t : TypeRef} :
    (ofKind module hosts (.message t)).core = .message path host ↔
      t.wellKnown = none ∧ path = HostCode.typePath module t.fullName ∧
        host = hosts.find? t.fullName := by
  cases hw : t.wellKnown with
  | some w => simp [ofKind_wellKnown_ne hw]
  | none =>
    rw [ofKind, hw]
    simp only [core, message.injEq, true_and, eq_comm]

/-- A leaf that refers to a message is laid out as what this resolves to. -/
theorem LeafType.wireKind_of_reference? {t : LeafType} {target : TypeName}
    (h : t.reference? = some (.message, target)) :
    t.wireKind s = (s.resolve .message target).map WireKind.message := by
  cases t <;> cases h <;> rfl

theorem LeafType.reference?_of_wireKind {t : LeafType} {r : TypeRef}
    (h : t.wireKind s = .ok (.message r)) : ∃ target, t.reference? = some (.message, target) := by
  cases t with
  | number _ _ | bool _ | string _ | bytes _ => cases h
  | enum target _ =>
    obtain ⟨_, hkind, -⟩ := WireKind.of_resolve h
    cases hkind
  | message _ | timestamp _ | duration _ | any _ => exact ⟨_, rfl⟩

/-- Scalars refer to no type. -/
theorem LeafType.reference?_of_scalar? {t : LeafType} {scalar : ScalarKind}
    (h : t.scalar? = some scalar) : t.reference? = none := by
  cases t with
  | number _ _ | bool _ | string _ | bytes _ => rfl
  | enum _ _ | message _ | timestamp _ | duration _ | any _ => cases h

/-- A leaf that refers to a message makes this reference only. -/
theorem Field.references_leaf_iff {f : LeafField} {scope : List String} {expected : DeclKind}
    {target : TypeName} : (leaf f).references scope = [⟨scope, expected, target⟩] ↔
      f.type.reference? = some (expected, target) := by
  rw [references]
  cases f.type.reference? with
  | none => simp
  | some r =>
    obtain ⟨kind, name⟩ := r
    simp

/-- **Conversions of leaves.** -/
theorem LeafField.core_ofKind_iff {f : LeafField} (h : (f.build s n).value = some d) :
    (Conversion.ofKind module hosts d.kind).core = .message path host ↔
      Reference.FindsHost s module hosts ((Field.leaf f).references s.path) path host := by
  obtain ⟨kind, hkind, hc⟩ := value_build h
  have hd : d.kind = kind := congrArg FieldDescriptor.kind (FieldContent.value_build hc)
  rw [hd]
  constructor
  · intro hcore
    have hleaf := LeafType.isLeaf_wireKind hkind
    cases kind with
    | scalar _ | enum _ => cases hcore
    | repeated _ | map _ _ => cases hleaf
    | message t =>
      obtain ⟨hwellKnown, hnames⟩ := Conversion.ofKind_message_iff.1 hcore
      obtain ⟨target, href⟩ := LeafType.reference?_of_wireKind hkind
      rw [LeafType.wireKind_of_reference? href] at hkind
      cases hresolve : s.resolve .message target with
      | error v => rw [hresolve] at hkind; cases hkind
      | ok r =>
        rw [hresolve] at hkind
        cases hkind
        exact ⟨target, t, Field.references_leaf_iff.2 href,
          (Scope.resolve_ok hresolve).2 ▸ hwellKnown, hresolve, hnames⟩
  · rintro ⟨target, t, hrefs, hwellKnown, hresolve, hnames⟩
    rw [LeafType.wireKind_of_reference? (Field.references_leaf_iff.1 hrefs), hresolve] at hkind
    cases hkind
    exact Conversion.ofKind_message_iff.2
      ⟨(Scope.resolve_ok hresolve).2.trans hwellKnown, hnames⟩

namespace Field

/-- The key of a map that passes its checks refers to no type. -/
theorem references_map {head : FieldHead} {key value : Field} {pairs : Size}
    (h : mapViolations key value pairs = []) (scope : List String) :
    (map head key value pairs).references scope = value.references scope := by
  have hkey : key.references scope = [] := by
    obtain ⟨scalar, hscalar, -⟩ := scalar?_of_mapViolations h
    cases key with
    | leaf f => rw [references, LeafType.reference?_of_scalar? hscalar]; rfl
    | repeated _ _ _ _ | map _ _ _ _ => cases hscalar
  rw [references, hkey, List.nil_append]

/-- An element of a collection is a leaf, whose presence plays no role here. -/
theorem core_ofKind_element {outer : String} {f : Field}
    (h : (buildElement s n outer f).value = some d) :
    (Conversion.ofKind module hosts d.kind).core = .message path host ↔
      Reference.FindsHost s module hosts (f.references s.path) path host := by
  obtain ⟨g, rfl, hg⟩ := value_element h
  exact (LeafField.core_ofKind_iff hg :)

/-- **Conversions of messages.** Beneath its wrappers a field is converted as a message just when
its values are messages; the conversion then goes to the type that they are resolved to, and to the
host found under the full name of it. -/
theorem core_ofKind_iff {f : Field} (h : (f.build s n).value = some d) :
    (Conversion.ofKind module hosts d.kind).core = .message path host ↔
      Reference.FindsHost s module hosts (f.references s.path) path host := by
  cases f with
  | leaf f => exact LeafField.core_ofKind_iff h
  | repeated head item count unique =>
    obtain ⟨i, -, hi, hc⟩ := value_repeated h
    have hd : d.kind = .repeated i := congrArg FieldDescriptor.kind (FieldContent.value_build hc)
    rw [hd, Conversion.ofKind_repeated, Conversion.core, core_ofKind_element hi]
    rfl
  | map head key value pairs =>
    obtain ⟨k, v, hclear, -, hv, hc⟩ := value_map h
    have hd : d.kind = .map k v := congrArg FieldDescriptor.kind (FieldContent.value_build hc)
    rw [hd, Conversion.ofKind_map, Conversion.core, core_ofKind_element hv,
      references_map hclear]

end Field

theorem PlacedField.core_ofField_iff {x : PlacedField} (h : (x.build s).value = some d) :
    (Conversion.ofField module hosts d).core = .message path host ↔
      Reference.FindsHost s module hosts (x.field.references s.path) path host := by
  obtain ⟨place, number, f⟩ := x
  rw [Conversion.core_ofField]
  cases place with
  | none => exact Field.core_ofKind_iff h
  | some oneof =>
    obtain ⟨g, e, rfl, he, rfl⟩ := Oneof.value_choice h
    exact (LeafField.core_ofKind_iff he :)

theorem PlacedField.describes {x : PlacedField} (h : (x.build s).value = some d) :
    d.Describes s x.field := by
  obtain ⟨place, number, f⟩ := x
  cases place with
  | none => exact (Field.describes s number f d h).1
  | some oneof => exact (Oneof.describes_choice s oneof number f d h).1

/-- The reference of a field that builds resolves. -/
theorem PlacedField.exists_resolve {x : PlacedField} (h : (x.build s).value = some d)
    {target : TypeName} (hholds : x.field.references s.path = [⟨s.path, .message, target⟩]) :
    ∃ t, s.resolve .message target = .ok t := by
  have hrefs := (describes h).references
  rw [hholds] at hrefs
  obtain ⟨t, -, ht⟩ := exists_of_forall₂_left hrefs List.mem_cons_self
  exact ⟨t, ht⟩

end

/-! ## The hosts of a package -/

/-- The values of the field, at any depth of its collections, are messages of a type that is not
well-known; the field refers to no other type. -/
structure Field.HoldsMessages (f : Field) (path : List String) (target : TypeName) : Prop where
  references : f.references path = [⟨path, .message, target⟩]
  notWellKnown : target.wellKnown? = none

namespace Package

/-- The package has a message of this full name that is bound to a host record of this type. -/
def Binds (p : Package) (full host : String) : Prop :=
  ∃ x ∈ p.messages, ".".intercalate x.1 = full ∧
    ∃ record, x.2.host = some record ∧ record.typePath = host

/-- The target is outside of the package and has the name of a bound message of the package. -/
def Captures (p : Package) (target : TypeName) : Prop :=
  ∃ name file host, target = .external name file ∧ p.Binds name host

/-- The host is the one that the message of the package is bound to which the target stands for,
and there is none for a target outside of the package. -/
def NamesHost (p : Package) (target : TypeName) (t : TypeRef) (host : Option String) : Prop :=
  ∀ type, host = some type ↔ (∃ name, target = .declared name) ∧ p.Binds t.fullName type

variable {p : Package} {d : PackageDescriptor}

theorem mem_hosts_iff (h : p.build = .ok d) {full host : String} :
    (full, host) ∈ ConverterDescriptor.hosts d.messages ↔ p.Binds full host := by
  have hbuilt := builtFrom h
  constructor
  · intro hmem
    obtain ⟨e, he, hhost⟩ := List.mem_filterMap.1 hmem
    obtain ⟨record, hrecord, heq⟩ := Option.map_eq_some_iff.1 hhost
    obtain ⟨x, hx, s, hpath, hs⟩ := exists_of_forall₂_right hbuilt he
    cases heq
    exact ⟨x, hx, hpath ▸ hs.fullName.symm, record, hs.host ▸ hrecord, rfl⟩
  · rintro ⟨x, hx, rfl, record, hrecord, rfl⟩
    obtain ⟨e, he, s, hpath, hs⟩ := exists_of_forall₂_left hbuilt hx
    refine List.mem_filterMap.2 ⟨e, he, ?_⟩
    rw [hs.host, hrecord, hs.fullName, hpath]
    rfl

/-- The record found under a full name is the one of the message that has it. -/
theorem find?_hosts_iff (h : p.build = .ok d) {full host : String} :
    (ConverterDescriptor.hosts d.messages).find? full = some host ↔ p.Binds full host := by
  have hkeys : ((ConverterDescriptor.hosts d.messages).map Prod.fst).Nodup :=
    (fullName_nodup h).sublist (ConverterDescriptor.hosts_keys_sublist _)
  rw [ConverterDescriptor.find?_hosts_eq_some_iff hkeys, mem_hosts_iff h]

/-- Where the host is found under the full name of a target, it is the right one unless the target
is captured. -/
theorem namesHost_iff {s : Scope} {target : TypeName} {t : TypeRef} {host : Option String}
    (hwellKnown : target.wellKnown? = none) (hresolve : s.resolve .message target = .ok t)
    (hhost : ∀ type, host = some type ↔ p.Binds t.fullName type) :
    p.NamesHost target t host ↔ ¬ p.Captures target := by
  cases target with
  | wellKnown w => cases hwellKnown
  | declared name =>
    refine iff_of_true (fun type => ?_) nofun
    rw [hhost, iff_and_self]
    exact fun _ => ⟨name, rfl⟩
  | external name file =>
    cases hresolve
    constructor
    · rintro hnames ⟨_, _, type, ⟨⟩, hbinds⟩
      obtain ⟨⟨_, hdeclared⟩, -⟩ := (hnames type).1 ((hhost type).2 hbinds)
      cases hdeclared
    · intro hcaptures type
      refine iff_of_false (fun hsome => hcaptures ?_) nofun
      exact ⟨name, file, type, rfl, (hhost type).1 hsome⟩

/-- What the conversion `c` of the field `g` says of messages, where the field stands in the message
at `path` of the file `f`: the type and its host, which is the right one unless the target is
captured. No other conversion is one of messages. -/
structure ConvertsMessages (p : Package) (f : File) (path : List String) (g : Field)
    (c : Conversion) : Prop where
  converts : ∀ target, g.HoldsMessages path target → ∃ t host,
    (⟨path, .message, target⟩ : Reference).resolve (p.fileScope f) = .ok t ∧
    c.core = .message (HostCode.typePath p.config.generatedModule t.fullName) host ∧
    (∀ type, host = some type ↔ p.Binds t.fullName type) ∧
    (p.NamesHost target t host ↔ ¬ p.Captures target)
  only : ∀ generated host, c.core = .message generated host →
    ∃ target, g.HoldsMessages path target

/-- **Hosts of conversions.** In a package that builds, every converter belongs to a bound message,
and every conversion in it joins a field of the message with one of its record. Where the values of
the field are messages, it names the host that the message of the package is bound to which they are
resolved to; it names none for a type outside of the package, unless that has the full name of a
bound message. -/
theorem conversion_hosts (h : p.build = .ok d) :
    ∀ c ∈ d.converters.messages, ∃ f ∈ p.files, ∃ x ∈ Message.flattenAll [] f.messages, ∃ host,
      c.BelongsTo p.config.generatedModule x host ∧ ∀ fc ∈ c.fields, ∃ y,
        fc.Joins x.2 host y ∧ p.ConvertsMessages f x.1 y.field fc.conversion := by
  intro c hc
  obtain ⟨f, hf, x, hx, host, hbelongs, -, -, hfields⟩ := exists_joins h hc
  refine ⟨f, hf, x, hx, host, hbelongs, fun fc hfc => ?_⟩
  obtain ⟨y, hjoins, g, hvalue, hconversion⟩ := hfields fc hfc
  refine ⟨y, hjoins, ?_, ?_⟩
  · intro target hholds
    obtain ⟨t, ht⟩ := PlacedField.exists_resolve hvalue hholds.references
    have hhost : ∀ type, (ConverterDescriptor.hosts d.messages).find? t.fullName = some type ↔
        p.Binds t.fullName type := fun _ => find?_hosts_iff h
    refine ⟨t, _, ht, ?_, hhost, namesHost_iff hholds.notWellKnown ht hhost⟩
    rw [hconversion, PlacedField.core_ofField_iff hvalue]
    exact ⟨target, t, hholds.references, hholds.notWellKnown, ht, rfl, rfl⟩
  · intro generated host hcore
    rw [hconversion, PlacedField.core_ofField_iff hvalue] at hcore
    obtain ⟨target, -, hrefs, hwellKnown, -⟩ := hcore
    exact ⟨target, hrefs, hwellKnown⟩

/-- Items of a bound message and a type from elsewhere with a name of its own: the conversion of the
items names the host record, the other one none. -/
theorem conversion_hosts_apart :
    let ref (name : String) (target : TypeName) : Field :=
      .leaf { head := { name }, type := .message target }
    let user : Message := {
      name := "User", fields := [(1, .leaf { head := { name := "id" }, type := .string {} })],
      host := some { typePath := "shop::User", fields := [⟨"id", "String"⟩] } }
    let order : Message := {
      name := "Order",
      fields := [(1, .repeated { name := "buyers" } (ref "buyer" (.declared "User")) {} false),
        (2, ref "maker" (.external "vendor.User" "vendor/user.proto"))],
      host := some { typePath := "shop::Order", fields := [⟨"buyers", "Vec<User>"⟩,
        ⟨"maker", "User"⟩] } }
    let p : Package := {
      config := { package := "shop" }, files := [{ name := "a.proto", messages := [user, order] }] }
    ∃ d, p.build = .ok d ∧
      d.converters.messages.map (fun c => c.fields.map (·.conversion)) =
        [[.direct], [.repeated (.message "crate::pb::User" (some "shop::User")),
          .message "crate::pb::vendor::User" none]] ∧
      ∀ c ∈ d.converters.messages, ∃ f ∈ p.files, ∃ x ∈ Message.flattenAll [] f.messages, ∃ host,
        c.BelongsTo p.config.generatedModule x host ∧ ∀ fc ∈ c.fields, ∃ y,
          fc.Joins x.2 host y ∧ p.ConvertsMessages f x.1 y.field fc.conversion := by
  intro ref user order p
  obtain ⟨d, hd, hconversions⟩ : ∃ d, p.build = .ok d ∧
      d.converters.messages.map (fun c => c.fields.map (·.conversion)) =
        [[.direct], [.repeated (.message "crate::pb::User" (some "shop::User")),
          .message "crate::pb::vendor::User" none]] := exists_ok_of_summary (by decide +kernel)
  exact ⟨d, hd, hconversions, conversion_hosts hd⟩

/-- **A captured name.** The buyer of an order has a type from elsewhere, which is called `User` as
a bound message of the package is: the conversion names the host of that message. -/
theorem conversion_hosts_captured :
    let target : TypeName := .external "User" "vendor/user.proto"
    let buyer : Field := .leaf { head := { name := "buyer" }, type := .message target }
    let user : Message := {
      name := "User", fields := [(1, .leaf { head := { name := "id" }, type := .string {} })],
      host := some { typePath := "shop::User", fields := [⟨"id", "String"⟩] } }
    let order : Message := {
      name := "Order", fields := [(1, buyer)],
      host := some { typePath := "shop::Order", fields := [⟨"buyer", "User"⟩] } }
    let f : File := { name := "a.proto", messages := [user, order] }
    let p : Package := { config := { package := "shop" }, files := [f] }
    (∃ d, p.build = .ok d ∧
      d.converters.messages.map (fun c => c.fields.map (·.conversion)) =
        [[.direct], [.message "crate::pb::User" (some "shop::User")]]) ∧
    buyer.HoldsMessages ["Order"] target ∧ p.Captures target ∧
    ∃ t, (⟨["Order"], .message, target⟩ : Reference).resolve (p.fileScope f) = .ok t ∧
      ¬ p.NamesHost target t (some "shop::User") := by
  intro target buyer user order f p
  refine ⟨exists_ok_of_summary (by decide +kernel), ⟨rfl, rfl⟩, ?_, _, rfl, fun hnames => ?_⟩
  · exact ⟨"User", "vendor/user.proto", "shop::User", rfl, (["User"], user.toFlatMessage),
      List.mem_cons_self, rfl, _, rfl, rfl⟩
  · obtain ⟨⟨_, hdeclared⟩, -⟩ := (hnames "shop::User").1 rfl
    exact TypeName.noConfusion hdeclared

end Package

end WireSchema

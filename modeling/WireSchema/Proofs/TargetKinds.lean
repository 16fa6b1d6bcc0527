import WireSchema.Proofs.FieldShape
import WireSchema.Proofs.References

/-!
# The kinds of referenced types

A field refers to an enum or to a message. Where the reference goes to a type of the package, the
kind of its declaration is compared with the one that the field expects. A reference that names its
own import is taken as it stands: a field that expects an enum accepts a well-known type, and those
are all messages.

* `Field.leafTypes`, `FileDescriptor.leaves`: the single values of a field and of a built file, with
  those inside repeated fields and maps; `File.wireKind_leaves` joins the two one by one.
* `Package.target_kinds`: in a package that builds, the target of each value has the kind that its
  field expects if it is a type of the package, and the target of an enum denotes a message just
  when a well-known type was written for it.
* `Package.target_kinds_wellKnown`: a package that builds where one was.
-/

namespace WireSchema

/-! ## Single values -/

/-- The types of the single values of a field: its own, or those of its elements. -/
def Field.leafTypes : Field → List LeafType
  | leaf f => [f.type]
  | repeated _ item _ _ => item.leafTypes
  | map _ key value _ => key.leafTypes ++ value.leafTypes

/-- The types of all single values of a file, each with the path of its message. -/
def File.leafTypes (f : File) : List (List String × LeafType) :=
  f.fields.flatMap fun x => x.2.leafTypes.map (x.1, ·)

/-- The descriptors of the single values of a built field, each with the oneof that it is a choice
of. -/
def FieldDescriptor.leaves (x : Option String × FieldDescriptor) :
    List (Option String × FieldDescriptor) :=
  (x :: x.2.kind.elements.map (none, ·)).filter (·.2.kind.isLeaf)

/-- The descriptors of a built file that wrap no others, each with the oneof that it is a choice
of. -/
def FileDescriptor.leaves (d : FileDescriptor) : List (Option String × FieldDescriptor) :=
  d.everyField.filter (·.2.kind.isLeaf)

theorem FileDescriptor.leaves_eq (d : FileDescriptor) :
    d.leaves = d.placedFields.flatMap FieldDescriptor.leaves := by
  rw [leaves, everyField, List.filter_flatMap]
  rfl

namespace FieldDescriptor

variable {oneof : Option String} {d : FieldDescriptor}

theorem leaves_of_isLeaf (h : d.kind.isLeaf = true) : leaves (oneof, d) = [(oneof, d)] := by
  simp [leaves, WireKind.elements_of_isLeaf h, h]

theorem leaves_repeated {item : FieldDescriptor} (h : d.kind = .repeated item)
    (hitem : item.kind.isLeaf = true) : leaves (oneof, d) = [(none, item)] := by
  have hown : d.kind.isLeaf = false := by rw [h]; rfl
  have helements : d.kind.elements = [item] := by
    rw [h, WireKind.elements_repeated, WireKind.elements_of_isLeaf hitem]
  simp [leaves, hown, helements, hitem]

theorem leaves_map {key value : FieldDescriptor} (h : d.kind = .map key value)
    (hkey : key.kind.isLeaf = true) (hvalue : value.kind.isLeaf = true) :
    leaves (oneof, d) = [(none, key), (none, value)] := by
  have hown : d.kind.isLeaf = false := by rw [h]; rfl
  have helements : d.kind.elements = [key, value] := by
    rw [h, WireKind.elements_map, WireKind.elements_of_isLeaf hkey,
      WireKind.elements_of_isLeaf hvalue]
    rfl
  simp [leaves, hown, helements, hkey, hvalue]

end FieldDescriptor

/-! ## Their layouts -/

section

variable {s : Scope} {n : Nat} {d : FieldDescriptor}

theorem LeafField.wireKind_of_value {f : LeafField} (h : (f.build s n).value = some d) :
    f.type.wireKind s = .ok d.kind ∧ d.kind.isLeaf = true := by
  obtain ⟨kind, hkind, hc⟩ := value_build h
  rw [FieldContent.value_build hc]
  exact ⟨hkind, LeafType.isLeaf_wireKind hkind⟩

/-- An element of a collection is a single value. -/
theorem Field.leafTypes_of_element {outer : String} {f : Field}
    (h : (buildElement s n outer f).value = some d) : ∃ type, f.leafTypes = [type] ∧
      type.wireKind s = .ok d.kind ∧ d.kind.isLeaf = true := by
  obtain ⟨g, rfl, hg⟩ := value_element h
  exact ⟨g.type, rfl, (LeafField.wireKind_of_value hg :)⟩

/-- The single values of a field are laid out as their types say. -/
theorem Field.wireKind_leaves {f : Field} (h : (f.build s n).value = some d) :
    List.Forall₂ (fun type y => type.wireKind s = .ok y.2.kind) f.leafTypes
      (FieldDescriptor.leaves (none, d)) := by
  cases f with
  | leaf f =>
    obtain ⟨hkind, hleaf⟩ := LeafField.wireKind_of_value (f := f) h
    rw [FieldDescriptor.leaves_of_isLeaf hleaf]
    exact .cons hkind .nil
  | repeated head item count unique =>
    obtain ⟨i, -, hi, hc⟩ := value_repeated h
    obtain ⟨type, htypes, hkind, hleaf⟩ := leafTypes_of_element hi
    have hd : d.kind = .repeated i := congrArg FieldDescriptor.kind (FieldContent.value_build hc)
    rw [leafTypes, htypes, FieldDescriptor.leaves_repeated hd hleaf]
    exact .cons hkind .nil
  | map head key value pairs =>
    obtain ⟨k, v, -, hk, hv, hc⟩ := value_map h
    obtain ⟨keyType, hkeys, hkkind, hkleaf⟩ := leafTypes_of_element hk
    obtain ⟨valueType, hvalues, hvkind, hvleaf⟩ := leafTypes_of_element hv
    have hd : d.kind = .map k v := congrArg FieldDescriptor.kind (FieldContent.value_build hc)
    rw [leafTypes, hkeys, hvalues, FieldDescriptor.leaves_map hd hkleaf hvleaf]
    exact .cons hkkind (.cons hvkind .nil)

theorem PlacedField.wireKind_leaves {x : PlacedField} (h : (x.build s).value = some d) :
    List.Forall₂ (fun type y => type.wireKind s = .ok y.2.kind) x.field.leafTypes
      (FieldDescriptor.leaves (x.oneof, d)) := by
  obtain ⟨place, number, f⟩ := x
  cases place with
  | none => exact Field.wireKind_leaves h
  | some oneof =>
    obtain ⟨g, e, rfl, he, rfl⟩ := Oneof.value_choice h
    obtain ⟨hkind, hleaf⟩ := LeafField.wireKind_of_value he
    rw [FieldDescriptor.leaves_of_isLeaf (d := { e with oneof := some oneof }) hleaf]
    exact .cons hkind .nil

end

/-- The value at this path has this layout. -/
def LeafType.LaidOut (s : Scope) (x : List String × LeafType)
    (y : Option String × FieldDescriptor) : Prop :=
  x.2.wireKind { s with path := x.1 } = .ok y.2.kind

/-- The fields of a built message, at its path. -/
theorem FlatMessageDescriptor.BuiltFrom.wireKind_leaves {s : Scope} {m : FlatMessage}
    {d : FlatMessageDescriptor} (h : d.BuiltFrom s m) :
    List.Forall₂ (LeafType.LaidOut s)
      (m.orderedFields.flatMap fun x => x.2.leafTypes.map (s.path, ·))
      (d.placedFields.flatMap FieldDescriptor.leaves) := by
  rw [← m.map_placedFields, List.flatMap_map]
  refine List.rel_flatMap h.placedFields fun x y hxy => ?_
  obtain ⟨hplace, hy⟩ := hxy
  rw [List.forall₂_map_left_iff, ← Prod.mk.eta (p := y), hplace]
  exact PlacedField.wireKind_leaves hy

/-- **The single values of a built file** are those of the file one by one. -/
theorem File.wireKind_leaves {package : String} {registry : Registry} {validateImport : String}
    {f : File} {d : FileDescriptor} (h : (f.build package registry validateImport).value = some d) :
    List.Forall₂ (LeafType.LaidOut (f.scope registry validateImport)) f.leafTypes d.leaves := by
  rw [FileDescriptor.leaves_eq, FileDescriptor.placedFields, File.leafTypes, File.fields,
    List.flatMap_append, List.flatMap_append, List.flatMap_assoc, List.flatMap_assoc,
    List.flatMap_assoc, List.flatMap_assoc]
  refine List.rel_append (List.rel_flatMap (builtFrom h) fun x e he => ?_)
    (List.rel_flatMap (value_extensions h) fun target e he => ?_)
  · rw [List.flatMap_map]
    exact he.wireKind_leaves
  · rw [List.flatMap_map, List.flatMap_map]
    refine List.rel_flatMap he fun x g hg => ?_
    rw [List.forall₂_map_left_iff]
    exact Field.wireKind_leaves hg

/-! ## Their targets -/

/-- The type that a kind refers to, with the kind of type that it expects. -/
def WireKind.target? : WireKind → Option (DeclKind × TypeRef)
  | .enum t => some (.enum, t)
  | .message t => some (.message, t)
  | _ => none

/-- A kind around what a reference resolves to. -/
theorem WireKind.exists_resolve {x : Except Violation TypeRef} {make : TypeRef → WireKind}
    {k : WireKind} (h : x.map make = .ok k) : ∃ t, x = .ok t ∧ k = make t := by
  cases x with
  | error v => cases h
  | ok t => cases h; exact ⟨t, rfl, rfl⟩

/-- A value refers to what the reference of its type resolves to. -/
theorem LeafType.reference?_of_target? {s : Scope} {type : LeafType} {k : WireKind}
    {kind : DeclKind} {t : TypeRef} (h : type.wireKind s = .ok k)
    (ht : k.target? = some (kind, t)) :
    ∃ target, type.reference? = some (kind, target) ∧ s.resolve kind target = .ok t := by
  cases type with
  | number _ _ | bool _ | string _ | bytes _ => cases h; cases ht
  | enum target _ | message target =>
    obtain ⟨r, hr, rfl⟩ := WireKind.exists_resolve h
    cases ht
    exact ⟨target, rfl, hr⟩
  | timestamp _ | duration _ | any _ => cases h; cases ht; exact ⟨_, rfl, rfl⟩

namespace Package

/-- The target is a message as far as the package can tell: a well-known type, or one that it
declares as a message and as nothing else. -/
def DenotesMessage (p : Package) (target : TypeName) (t : TypeRef) : Prop :=
  t.wellKnown ≠ none ∨
    ∃ name, target = .declared name ∧ ∃ g, p.DeclaresOnce g t.fullName .message

/-- What `target` stands for where it is written, at this path of the file `f`, for a field that
expects a type of this kind. -/
structure StandsFor (p : Package) (f : File) (path : List String) (kind : DeclKind)
    (target : TypeName) (t : TypeRef) : Prop where
  resolve : (⟨path, kind, target⟩ : Reference).resolve (p.fileScope f) = .ok t
  declared : ∀ name, target = .declared name → ∃ g, p.DeclaresOnce g t.fullName kind
  enum : kind = .enum → (p.DenotesMessage target t ↔ ∃ w, target = .wellKnown w)

variable {p : Package} {d : PackageDescriptor}

/-- A full name is declared once as one kind only. -/
theorem DeclaresOnce.kind_eq {g g' : File} {full : String} {kind kind' : DeclKind}
    (h : p.DeclaresOnce g full kind) (h' : p.DeclaresOnce g' full kind') : kind = kind' :=
  (h'.unique g h.mem_files kind h.declares).2

theorem standsFor_of_resolve (h : p.build = .ok d) {f : File} {path : List String}
    {kind : DeclKind} {target : TypeName} {t : TypeRef}
    (hresolve : (⟨path, kind, target⟩ : Reference).resolve (p.fileScope f) = .ok t) :
    p.StandsFor f path kind target t := by
  obtain ⟨htypes, hnames, -⟩ := files_of_build h
  have hwellKnown : t.wellKnown = target.wellKnown? := (Scope.resolve_ok hresolve).2
  have hdeclared : ∀ name, target = .declared name → ∃ g, p.DeclaresOnce g t.fullName kind := by
    intro name htarget
    obtain ⟨outer, e, -, hfind, hk, rfl⟩ := Reference.resolve_declared htarget hresolve
    have hkind : e.kind = kind := hk
    have hlookup := (Registry.find?_ofFiles p.files _).symm.trans hfind
    obtain ⟨g, honce, -⟩ := declaresOnce_of_lookup htypes hnames hlookup
    exact ⟨g, hkind ▸ honce⟩
  refine ⟨hresolve, hdeclared, ?_⟩
  rintro rfl
  constructor
  · rintro (hsome | ⟨name, htarget, g, hmessage⟩)
    · rw [hwellKnown] at hsome
      cases target with
      | wellKnown w => exact ⟨w, rfl⟩
      | declared _ | external _ _ => exact absurd rfl hsome
    · obtain ⟨g', henum⟩ := hdeclared name htarget
      cases henum.kind_eq hmessage
  · rintro ⟨w, rfl⟩
    exact .inl (by rw [hwellKnown]; exact Option.some_ne_none w)

/-- **Kinds of targets.** In a package that builds, each single value that refers to a type does so
by a reference of its own field, which expects a type of this kind. A type of the package is then
declared as one of this kind and as nothing else; the target of an enum denotes a message just when
a well-known type is written for it. -/
theorem target_kinds (h : p.build = .ok d) :
    List.Forall₂ (fun f fd => List.Forall₂ (fun (x : List String × LeafType)
        (y : Option String × FieldDescriptor) =>
        ∀ kind t, y.2.kind.target? = some (kind, t) → ∃ target,
          x.2.reference? = some (kind, target) ∧ p.StandsFor f x.1 kind target t)
      f.leafTypes fd.leaves) p.files d.files := by
  refine (value_files h).2.imp fun f fd hfd => (File.wireKind_leaves hfd).imp fun x y hxy => ?_
  intro kind t ht
  obtain ⟨target, href, hresolve⟩ := LeafType.reference?_of_target? hxy ht
  exact ⟨target, href, standsFor_of_resolve h hresolve⟩

/-- The states of an order by day, its next one and its home: the states are those of the enum that
the order nests, although the package has a message of this name, and the home is a message of
another file. -/
theorem target_kinds_nested :
    let state : LeafType := .enum (.declared "State") {}
    let order : Message := {
      name := "Order", enums := [{ name := "State", values := [⟨"NONE", 0, []⟩] }],
      fields := [(1, .map { name := "states" }
          (.leaf { head := { name := "day" }, type := .string {} })
          (.leaf { head := { name := "state" }, type := state }) {}),
        (2, .leaf { head := { name := "next" }, type := state }),
        (3, .leaf { head := { name := "home" }, type := .message (.declared "Address") })] }
    let p : Package := { config := { package := "shop" }, files := [
      { name := "a.proto", messages := [{ name := "State" }, order] },
      { name := "b.proto", messages := [{ name := "Address" }] }] }
    let t : TypeRef := ⟨"State", "Order.State", none, none⟩
    ∃ d, p.build = .ok d ∧
      (d.files.map fun fd => fd.leaves.map (·.2.kind.target?)) =
        [[none, some (.enum, t), some (.enum, t),
          some (.message, ⟨"Address", "Address", none, some "b.proto"⟩)], []] ∧
      List.Forall₂ (fun f fd => List.Forall₂ (fun (x : List String × LeafType)
          (y : Option String × FieldDescriptor) =>
          ∀ kind t, y.2.kind.target? = some (kind, t) → ∃ target,
            x.2.reference? = some (kind, target) ∧ p.StandsFor f x.1 kind target t)
        f.leafTypes fd.leaves) p.files d.files := by
  intro state order p t
  obtain ⟨d, hd, htargets⟩ : ∃ d, p.build = .ok d ∧
      (d.files.map fun fd => fd.leaves.map (·.2.kind.target?)) =
        [[none, some (.enum, t), some (.enum, t),
          some (.message, ⟨"Address", "Address", none, some "b.proto"⟩)], []] :=
    exists_ok_of_summary (by decide +kernel)
  exact ⟨d, hd, htargets, target_kinds hd⟩

/-- **An enum that is a message.** This package builds although the target of an enum field is the
message `google.protobuf.Timestamp`. -/
theorem target_kinds_wellKnown :
    let target : TypeName := .wellKnown .timestamp
    let p : Package := { config := { package := "shop" }, files := [{
      name := "a.proto", messages := [{
        name := "Job",
        fields := [(1, .leaf { head := { name := "state" }, type := .enum target {} })] }] }] }
    let t : TypeRef := ⟨"google.protobuf.Timestamp", "google.protobuf.Timestamp",
      some .timestamp, some "google/protobuf/timestamp.proto"⟩
    p.DenotesMessage target t ∧ ∃ d, p.build = .ok d ∧
      (d.files.map fun fd => fd.everyField.map (·.2.kind.target?)) = [[some (.enum, t)]] := by
  intro target p t
  exact ⟨.inl (Option.some_ne_none _), exists_ok_of_summary (by decide +kernel)⟩

end Package

end WireSchema

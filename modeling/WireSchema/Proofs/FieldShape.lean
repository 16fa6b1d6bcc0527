import WireSchema.Proofs.Sources

/-!
# The shape of field descriptors

What holds of every field descriptor of a package that builds, however it was declared and at
whatever depth it stands: among the fields of a message, as a choice of a oneof, as an extension, or
inside a repeated field or a map.

* `FieldDescriptor.WellFormed`: the properties of one descriptor and of the elements that it wraps.
* `FieldContent.wellFormed`: any content makes a well-formed descriptor, given what is special about
  its kind; leaves, repeated fields and maps follow one by one.
* `Package.descriptors_wellFormed`: all descriptors of a package that builds are well-formed, and
  just the choices of its oneofs are marked with a oneof.
-/

namespace WireSchema

/-! ## Well-formed descriptors -/

/-- The rule group of a kind in the validation extension. -/
def WireKind.ruleGroup? : WireKind → Option String
  | .scalar k => some k.protoName
  | .enum _ => some "enum"
  | .message t => t.wellKnown.bind WellKnown.ruleGroup?
  | .repeated _ => some "repeated"
  | .map _ _ => some "map"

/-- The descriptors that a kind wraps, at every depth. -/
def WireKind.elements : WireKind → List FieldDescriptor
  | .repeated ⟨t, k⟩ => ⟨t, k⟩ :: k.elements
  | .map ⟨t, k⟩ ⟨u, l⟩ => ⟨t, k⟩ :: k.elements ++ ⟨u, l⟩ :: l.elements
  | _ => []

namespace FieldDescriptor

/-- What an element of a collection is, where `imports` are those of the collection: a leaf without
presence that asks for no other imports. -/
structure Element (imports : StringSet) (d : FieldDescriptor) : Prop where
  isLeaf : d.kind.isLeaf = true
  optional : d.optional = false
  imports_subset : ∀ p ∈ d.imports, p ∈ imports

/-- What the rest of the library relies on in a field descriptor. -/
structure WellFormed (validateImport : String) (d : FieldDescriptor) : Prop where
  repeated_iff : d.repeated = true ↔ ∃ item, d.kind = .repeated item
  map_iff : d.map = true ↔ ∃ key value, d.kind = .map key value
  item : ∀ item, d.kind = .repeated item → item.Element d.imports ∧ item.number = d.number
  key : ∀ key value, d.kind = .map key value → key.Element d.imports ∧ key.number = 1 ∧
    ∃ k, key.kind = .scalar k ∧ k.isMapKey = true
  value : ∀ key value, d.kind = .map key value → value.Element d.imports ∧ value.number = 2
  isLeaf_of_optional : d.optional = true → d.kind.isLeaf = true
  constant : d.constant = true → d.optional = false ∧
    ∃ group v, d.kind.ruleGroup? = some group ∧ d.rules = [⟨[group, "const"], v⟩]
  imports : d.rules ≠ [] → validateImport ∈ d.imports

theorem repeated_eq_true_iff {d : FieldDescriptor} :
    d.repeated = true ↔ ∃ item, d.kind = .repeated item := by
  unfold repeated
  cases d.kind <;> simp [WireKind.isRepeated]

theorem map_eq_true_iff {d : FieldDescriptor} :
    d.map = true ↔ ∃ key value, d.kind = .map key value := by
  unfold map
  cases d.kind <;> simp [WireKind.isMap]

end FieldDescriptor

/-! ## Built fields are well-formed -/

variable {s : Scope} {n : Nat} {d : FieldDescriptor}

/-- A constant that passes its checks is the only rule, and its field has no presence. -/
theorem FieldContent.constant_alone {c : FieldContent} {h : FieldHead} {r : Rule}
    (hc : c.constant = some r) (hclear : c.constantViolations h = []) :
    c.optional = false ∧ c.allRules h = [r] := by
  have hsome : c.constant.isSome = true := by rw [hc]; rfl
  rw [constantViolations, if_pos hsome, List.append_eq_nil_iff] at hclear
  obtain ⟨hrules, hoptional⟩ := hclear
  have hnone : c.otherRules h = [] := by
    split at hrules
    · next hempty => exact List.isEmpty_iff.1 hempty
    · cases hrules
  refine ⟨?_, by rw [allRules, hc, hnone]; rfl⟩
  split at hoptional
  · cases hoptional
  · next hfalse => simpa using hfalse

/-- What is left to show of a built content: what it says about its kind. -/
theorem FieldContent.wellFormed {c : FieldContent} {h : FieldHead}
    (hv : (c.build s n h).value = some d)
    (hitem : ∀ item, c.kind = .repeated item → item.Element d.imports ∧ item.number = n)
    (hkey : ∀ key value, c.kind = .map key value → key.Element d.imports ∧ key.number = 1 ∧
      ∃ k, key.kind = .scalar k ∧ k.isMapKey = true)
    (hvalue : ∀ key value, c.kind = .map key value → value.Element d.imports ∧ value.number = 2)
    (hoptional : c.optional = true → c.kind.isLeaf = true)
    (hconstant : ∀ r, c.constant = some r →
      ∃ group v, c.kind.ruleGroup? = some group ∧ r = ⟨[group, "const"], v⟩) :
    d.WellFormed s.validateImport := by
  have hclear := (clear_of_value hv).2
  obtain rfl := value_build hv
  refine ⟨FieldDescriptor.repeated_eq_true_iff, FieldDescriptor.map_eq_true_iff, hitem, hkey,
    hvalue, hoptional, fun hc => ?_, fun hr => mem_imports.2 (.inr (.inr ⟨rfl, hr⟩))⟩
  obtain ⟨r, hr⟩ := Option.isSome_iff_exists.1 hc
  obtain ⟨hpresence, hrules⟩ := constant_alone hr hclear
  obtain ⟨group, v, hgroup, rfl⟩ := hconstant r hr
  exact ⟨hpresence, group, v, hgroup, hrules⟩

/-- The rules of a leaf are those of the group of its layout. -/
theorem LeafType.ruleGroup?_wireKind {t : LeafType} {kind : WireKind}
    (h : t.wireKind s = .ok kind) : kind.ruleGroup? = t.group? := by
  cases t with
  | number k r => cases h; rfl
  | bool r => cases h; rfl
  | string r => cases h; rfl
  | bytes r => cases h; rfl
  | enum target r => obtain ⟨t, rfl, -, -⟩ := WireKind.of_resolve h; rfl
  | message target =>
    obtain ⟨t, rfl, -, hw⟩ := WireKind.of_resolve h
    simp [WireKind.ruleGroup?, group?, hw]
  | timestamp r => cases h; rfl
  | duration r => cases h; rfl
  | any r => cases h; rfl

theorem LeafType.wireKind_of_scalar? {t : LeafType} {k : ScalarKind} (h : t.scalar? = some k) :
    t.wireKind s = .ok (.scalar k) := by
  cases t <;> cases h <;> rfl

theorem LeafType.constantRule?_eq_some {t : LeafType} {r : Rule} (h : t.constantRule? = some r) :
    ∃ group v, t.group? = some group ∧ r = ⟨[group, "const"], v⟩ := by
  simp only [constantRule?, Option.bind_eq_bind, Option.bind_eq_some_iff] at h
  obtain ⟨group, hgroup, v, -, hr⟩ := h
  cases hr
  exact ⟨group, v, hgroup, rfl⟩

/-- A built leaf is well-formed, and its layout is a leaf. -/
theorem LeafField.wellFormed {f : LeafField} (h : (f.build s n).value = some d) :
    d.WellFormed s.validateImport ∧ d.kind.isLeaf = true ∧ d.optional = f.optional ∧
      d.number = n ∧ d.oneof = none := by
  obtain ⟨kind, hkind, hc⟩ := value_build h
  have hleaf := LeafType.isLeaf_wireKind hkind
  have hd := FieldContent.value_build hc
  refine ⟨FieldContent.wellFormed hc (fun item he => ?_) (fun key value he => ?_)
    (fun key value he => ?_) (fun _ => hleaf) (fun r hr => ?_), ?_⟩
  · rw [show kind = _ from he] at hleaf; cases hleaf
  · rw [show kind = _ from he] at hleaf; cases hleaf
  · rw [show kind = _ from he] at hleaf; cases hleaf
  · obtain ⟨group, v, hgroup, hr⟩ := LeafType.constantRule?_eq_some hr
    exact ⟨group, v, (LeafType.ruleGroup?_wireKind hkind).trans hgroup, hr⟩
  · rw [hd]; exact ⟨hleaf, rfl, rfl, rfl⟩

namespace Field

/-- An element of a collection is well-formed and fits any collection that has its imports. -/
theorem element (imports : StringSet) {outer : String} {f : Field} {e : FieldDescriptor}
    (h : (buildElement s n outer f).value = some e) : e.WellFormed s.validateImport ∧
      e.number = n ∧ e.oneof = none ∧ ((∀ p ∈ e.imports, p ∈ imports) → e.Element imports) := by
  obtain ⟨g, -, hg⟩ := value_element h
  obtain ⟨hwell, hleaf, hoptional, hnumber, honeof⟩ := LeafField.wellFormed hg
  exact ⟨hwell, hnumber, honeof, fun himports => ⟨hleaf, hoptional, himports⟩⟩

theorem wellFormed_repeated {head : FieldHead} {item : Field} {count : Size} {unique : Bool}
    (h : ((repeated head item count unique).build s n).value = some d) :
    d.WellFormed s.validateImport ∧ d.oneof = none ∧
      ∃ i, d.kind = .repeated i ∧ i.WellFormed s.validateImport ∧ i.oneof = none := by
  obtain ⟨i, -, hi, hc⟩ := value_repeated h
  have hd := FieldContent.value_build hc
  obtain ⟨hwell, hnumber, honeof, hfits⟩ := element d.imports hi
  have himports : ∀ p ∈ i.imports, p ∈ d.imports := by
    rw [hd]; exact fun p hp => FieldContent.mem_imports.2 (.inl hp)
  have hleaf : ∀ j, (repeatedContent count unique i).kind = .repeated j →
      j.Element d.imports ∧ j.number = n := by
    rintro j ⟨⟩; exact ⟨hfits himports, hnumber⟩
  have hown : d.WellFormed s.validateImport :=
    FieldContent.wellFormed hc hleaf nofun nofun nofun nofun
  rw [hd] at hown ⊢
  exact ⟨hown, rfl, i, rfl, hwell, honeof⟩

/-- The key of a map that passes its checks is declared with a scalar type that keys may have. -/
theorem scalar?_of_mapViolations {key value : Field} {pairs : Size}
    (h : mapViolations key value pairs = []) :
    ∃ scalar, key.scalar? = some scalar ∧ scalar.isMapKey = true := by
  rw [mapViolations, List.append_eq_nil_iff, List.append_eq_nil_iff] at h
  obtain ⟨⟨hkey, -⟩, -⟩ := h
  by_cases hany : key.scalar?.any ScalarKind.isMapKey = true
  · exact (Option.any_eq_true _ _).1 hany
  · rw [if_neg hany] at hkey; cases hkey

/-- An element with a scalar type is laid out as that scalar. -/
theorem kind_of_scalar? {outer : String} {f : Field} {e : FieldDescriptor} {scalar : ScalarKind}
    (hscalar : f.scalar? = some scalar) (h : (buildElement s n outer f).value = some e) :
    e.kind = .scalar scalar := by
  obtain ⟨g, rfl, hg⟩ := value_element h
  obtain ⟨kind, hkind, hc⟩ := LeafField.value_build hg
  rw [LeafType.wireKind_of_scalar? hscalar] at hkind
  cases hkind
  rw [FieldContent.value_build hc]; rfl

theorem wellFormed_map {head : FieldHead} {key value : Field} {pairs : Size}
    (h : ((map head key value pairs).build s n).value = some d) :
    d.WellFormed s.validateImport ∧ d.oneof = none ∧
      ∃ k v, d.kind = .map k v ∧ (k.WellFormed s.validateImport ∧ k.oneof = none) ∧
        v.WellFormed s.validateImport ∧ v.oneof = none := by
  obtain ⟨k, v, hclear, hk, hv, hc⟩ := value_map h
  have hd := FieldContent.value_build hc
  obtain ⟨hkwell, hknumber, hkoneof, hkfits⟩ := element d.imports hk
  obtain ⟨hvwell, hvnumber, hvoneof, hvfits⟩ := element d.imports hv
  have hkimports : ∀ p ∈ k.imports, p ∈ d.imports := by
    rw [hd]; exact fun p hp => FieldContent.mem_imports.2 (.inl (StringSet.mem_union.2 (.inl hp)))
  have hvimports : ∀ p ∈ v.imports, p ∈ d.imports := by
    rw [hd]; exact fun p hp => FieldContent.mem_imports.2 (.inl (StringSet.mem_union.2 (.inr hp)))
  have hown : d.WellFormed s.validateImport := by
    refine FieldContent.wellFormed hc nofun ?_ ?_ nofun nofun
    · rintro k' v' ⟨⟩
      obtain ⟨scalar, hscalar, hlegal⟩ := scalar?_of_mapViolations hclear
      exact ⟨hkfits hkimports, hknumber, scalar, kind_of_scalar? hscalar hk, hlegal⟩
    · rintro k' v' ⟨⟩
      exact ⟨hvfits hvimports, hvnumber⟩
  rw [hd] at hown ⊢
  exact ⟨hown, rfl, k, v, rfl, ⟨hkwell, hkoneof⟩, hvwell, hvoneof⟩

end Field

/-! ## Descriptors of a file, at every depth -/

/-- The fields of a built file, each with the oneof that it is a choice of. -/
def FileDescriptor.placedFields (d : FileDescriptor) : List (Option String × FieldDescriptor) :=
  d.flatMessages.flatMap FlatMessageDescriptor.placedFields
    ++ d.extensions.flatMap fun e => e.fields.map (none, ·)

/-- The fields of a built file and everything that they wrap, each with the oneof that it is a
choice of. -/
def FileDescriptor.everyField (d : FileDescriptor) : List (Option String × FieldDescriptor) :=
  d.placedFields.flatMap fun x => x :: x.2.kind.elements.map (none, ·)

namespace WireKind

theorem elements_of_isLeaf {k : WireKind} (h : k.isLeaf = true) : k.elements = [] := by
  cases k <;> first | rfl | cases h

theorem elements_repeated (item : FieldDescriptor) :
    (repeated item).elements = item :: item.kind.elements := by
  cases item; rfl

theorem elements_map (key value : FieldDescriptor) : (map key value).elements =
    key :: key.kind.elements ++ value :: value.kind.elements := by
  cases key; cases value; rfl

end WireKind

/-- A descriptor in its place: well-formed, and marked with a oneof just when it is a choice of it,
which only leaves without presence are. -/
structure FieldDescriptor.InPlace (validateImport : String) (oneof : Option String)
    (d : FieldDescriptor) : Prop where
  wellFormed : d.WellFormed validateImport
  oneof_eq : d.oneof = oneof
  choice : oneof ≠ none → d.kind.isLeaf = true ∧ d.optional = false

/-- A field that builds is in its place, and so are the elements that it wraps. -/
theorem Field.inPlace {f : Field} (h : (f.build s n).value = some d) :
    d.InPlace s.validateImport none ∧
      ∀ e ∈ d.kind.elements, e.InPlace s.validateImport none := by
  cases f with
  | leaf f =>
    obtain ⟨hwell, hleaf, -, -, honeof⟩ := LeafField.wellFormed (f := f) h
    refine ⟨⟨hwell, honeof, fun hne => absurd rfl hne⟩, ?_⟩
    rw [WireKind.elements_of_isLeaf hleaf]; simp
  | repeated head item count unique =>
    obtain ⟨hwell, honeof, i, hkind, hi, hione⟩ := wellFormed_repeated h
    have hleaf := (hwell.item i hkind).1.isLeaf
    refine ⟨⟨hwell, honeof, fun hne => absurd rfl hne⟩, ?_⟩
    rw [hkind, WireKind.elements_repeated, WireKind.elements_of_isLeaf hleaf]
    simpa using ⟨hi, hione, fun hne => absurd rfl hne⟩
  | map head key value pairs =>
    obtain ⟨hwell, honeof, k, v, hkind, ⟨hk, hkone⟩, hv, hvone⟩ := wellFormed_map h
    have hkleaf := (hwell.key k v hkind).1.isLeaf
    have hvleaf := (hwell.value k v hkind).1.isLeaf
    refine ⟨⟨hwell, honeof, fun hne => absurd rfl hne⟩, ?_⟩
    rw [hkind, WireKind.elements_map, WireKind.elements_of_isLeaf hkleaf,
      WireKind.elements_of_isLeaf hvleaf]
    simpa using ⟨⟨hk, hkone, fun hne => absurd rfl hne⟩, hv, hvone, fun hne => absurd rfl hne⟩

theorem Oneof.inPlace {oneof : String} {f : Field}
    (h : (buildChoice s oneof n f).value = some d) :
    d.InPlace s.validateImport (some oneof) ∧ d.kind.elements = [] := by
  obtain ⟨g, e, -, he, rfl⟩ := value_choice h
  obtain ⟨hwell, hleaf, hoptional, -, -⟩ := LeafField.wellFormed he
  refine ⟨⟨?_, rfl, fun _ => ⟨hleaf, hoptional⟩⟩, WireKind.elements_of_isLeaf hleaf⟩
  exact ⟨hwell.repeated_iff, hwell.map_iff, hwell.item, hwell.key, hwell.value,
    hwell.isLeaf_of_optional, hwell.constant, hwell.imports⟩

theorem PlacedField.inPlace {x : PlacedField} (h : (x.build s).value = some d) :
    ∀ y ∈ (x.oneof, d) :: d.kind.elements.map (none, ·), y.2.InPlace s.validateImport y.1 := by
  obtain ⟨place, number, f⟩ := x
  cases place with
  | none =>
    obtain ⟨hown, helements⟩ := Field.inPlace h
    simpa using ⟨hown, helements⟩
  | some oneof =>
    obtain ⟨hown, hnone⟩ := Oneof.inPlace h
    simpa [hnone] using hown

/-- Each field of a built file is the outcome of a field at its place, in some scope of the file. -/
theorem File.built_of_mem_placedFields {package : String} {registry : Registry}
    {validateImport : String} {f : File} {fd : FileDescriptor}
    (h : (f.build package registry validateImport).value = some fd)
    {y : Option String × FieldDescriptor} (hy : y ∈ fd.placedFields) :
    ∃ (path : List String) (x : PlacedField), x.oneof = y.1 ∧
      (x.build { f.scope registry validateImport with path }).value = some y.2 := by
  rcases List.mem_append.1 hy with hy | hy
  · obtain ⟨e, he, hy⟩ := List.mem_flatMap.1 hy
    obtain ⟨m, -, hm⟩ := exists_of_forall₂_right (builtFrom h) he
    obtain ⟨x, -, hplace, hx⟩ := exists_of_forall₂_right hm.placedFields hy
    exact ⟨_, x, hplace.symm, hx⟩
  · obtain ⟨e, he, hy⟩ := List.mem_flatMap.1 hy
    obtain ⟨g, hg, rfl⟩ := List.mem_map.1 hy
    obtain ⟨target, -, hblock⟩ := exists_of_forall₂_right (value_extensions h) he
    obtain ⟨x, -, hx⟩ := exists_of_forall₂_right hblock hg
    exact ⟨[], ⟨none, x.1, x.2⟩, rfl, hx⟩

/-- **Descriptors are well-formed.** In a package that builds, every field descriptor at every depth
is well-formed, and it is marked with a oneof just when it is a choice of that oneof, in which case
it is a leaf without presence. -/
theorem Package.descriptors_wellFormed {p : Package} {d : PackageDescriptor}
    (h : p.build = .ok d) {fd : FileDescriptor} (hfd : fd ∈ d.files)
    {x : Option String × FieldDescriptor} (hx : x ∈ fd.everyField) :
    x.2.WellFormed p.config.validateImport ∧ x.2.oneof = x.1 ∧
      (x.1 ≠ none → x.2.kind.isLeaf = true ∧ x.2.optional = false) := by
  obtain ⟨f, -, hf⟩ := exists_of_forall₂_right (value_files h).2 hfd
  obtain ⟨y, hy, hx⟩ := List.mem_flatMap.1 hx
  obtain ⟨path, z, hplace, hz⟩ := File.built_of_mem_placedFields hf hy
  have hin := PlacedField.inPlace hz x (by rwa [hplace])
  exact ⟨hin.wellFormed, hin.oneof_eq, hin.choice⟩

/-- A map from numbers to a pinned switch, beside a choice that was declared with presence: the map
and the value in it are well-formed, and so is the choice, which is marked with its oneof. -/
theorem Package.descriptors_wellFormed_map :
    let switch : Field :=
      .leaf { head := { name := "on" }, type := .bool { constant := some true } }
    let key : Field := .leaf { head := { name := "key" }, type := .number .int32 {} }
    let choice : Field := .leaf { head := { name := "id" }, type := .string {}, optional := true }
    let p : Package := {
      config := { package := "lamps" }, files := [{ name := "a.proto", messages := [
      { name := "Lamps", fields := [(1, .map { name := "lamps" } key switch {})],
        oneofs := [{ name := "ref", choices := [(2, choice)] }] }] }] }
    ∃ d fd lamps on id, p.build = .ok d ∧ fd ∈ d.files ∧ (none, lamps) ∈ fd.everyField ∧
      (none, on) ∈ fd.everyField ∧ (some "ref", id) ∈ fd.everyField ∧
      (lamps.map = true ∧ lamps.WellFormed p.config.validateImport) ∧
      (on.constant = true ∧ on.WellFormed p.config.validateImport) ∧
      id.oneof = some "ref" ∧ id.kind.isLeaf = true ∧ id.optional = false := by
  intro switch key choice p
  let summary (x : Option String × FieldDescriptor) := (x.1, x.2.name, x.2.map, x.2.constant)
  obtain ⟨d, hd, hfiles⟩ : ∃ d, p.build = .ok d ∧
      (d.files.map fun fd => fd.everyField.map summary) =
        [[(none, "lamps", true, false), (none, "key", false, false), (none, "on", false, true),
          (some "ref", "id", false, false)]] := exists_ok_of_summary (by decide)
  obtain ⟨fd, hfile, hfields⟩ := List.map_eq_singleton_iff.1 hfiles
  have hfd : fd ∈ d.files := by rw [hfile]; exact List.mem_singleton.2 rfl
  have hmem : ∀ y ∈ fd.everyField.map summary, ∃ x ∈ fd.everyField, summary x = y :=
    fun y hy => List.mem_map.1 hy
  rw [hfields] at hmem
  obtain ⟨⟨_, lamps⟩, hlamps, hl⟩ := hmem (none, "lamps", true, false) (by decide)
  obtain ⟨⟨_, on⟩, hon, ho⟩ := hmem (none, "on", false, true) (by decide)
  obtain ⟨⟨_, id⟩, hid, hi⟩ := hmem (some "ref", "id", false, false) (by decide)
  simp only [summary, Prod.mk.injEq] at hl ho hi
  obtain ⟨rfl, -, hmap, -⟩ := hl
  obtain ⟨rfl, -, -, hconst⟩ := ho
  obtain ⟨rfl, -, -, -⟩ := hi
  obtain ⟨-, honeof, hpresence⟩ := descriptors_wellFormed hd hfd hid
  exact ⟨d, fd, lamps, on, id, hd, hfd, hlamps, hon, hid,
    ⟨hmap, (descriptors_wellFormed hd hfd hlamps).1⟩,
    ⟨hconst, (descriptors_wellFormed hd hfd hon).1⟩, honeof, hpresence (by simp)⟩

end WireSchema

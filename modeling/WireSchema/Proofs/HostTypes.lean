import WireSchema.Proofs.Converters
import WireSchema.Proofs.FieldShape

/-!
# Host types of fields

The host type of a field is worked out three times: from the declaration when drift is checked, from
the resolved kind in the descriptor, and once more by the conversion that carries its values.

* `Field.hostType_of_value`: the declaration and the descriptor have the same host type.
* `PlacedField.expectedType_of_value`: so they do in a message, where a choice of a oneof may be
  absent whether or not it was declared with presence.
* `FieldDescriptor.mirrors_ofField`: the conversion of a field has the wrappers of its host type.
* `TypeName.named_ofName`, `TypeName.named_ofExternal`: references are written with dotted names, so
  that no name looks like a wrapper.
* `Package.hostTypes_agree`: all three agree for the fields of a package that builds.
-/

namespace WireSchema

/-! ## Names without wrappers -/

namespace Text

theorem mem_of_mem_pieces {sep c : Char} : ∀ {cs p : List Char}, p ∈ pieces sep cs → c ∈ p → c ∈ cs
  | [], p, hp, hc => by
    rw [pieces, List.mem_singleton] at hp
    exact absurd (hp ▸ hc) List.not_mem_nil
  | d :: cs, p, hp, hc => by
    have ih : ∀ q ∈ pieces sep cs, c ∈ q → c ∈ cs := fun q hq => mem_of_mem_pieces hq
    unfold pieces at hp
    split at hp
    · rcases List.mem_cons.1 hp with rfl | hp
      · exact absurd hc List.not_mem_nil
      · exact List.mem_cons_of_mem _ (ih p hp hc)
    · cases hps : pieces sep cs with
      | nil => exact absurd hps (pieces_ne_nil sep cs)
      | cons q qs =>
        rw [hps] at hp ih
        rcases List.mem_cons.1 hp with rfl | hp
        · rcases List.mem_cons.1 hc with rfl | hc
          · exact List.mem_cons_self
          · exact List.mem_cons_of_mem _ (ih q List.mem_cons_self hc)
        · exact List.mem_cons_of_mem _ (ih p (List.mem_cons_of_mem _ hp) hc)

theorem mem_of_mem_lastPiece {sep c : Char} {s : String} (h : c ∈ (lastPiece sep s).toList) :
    c ∈ s.toList := by
  unfold lastPiece at h
  cases hl : (piecesOf sep s).getLast? with
  | none => rwa [hl] at h
  | some t =>
    obtain ⟨p, hp, rfl⟩ := List.mem_map.1 (List.mem_of_getLast? hl)
    rw [hl, Option.getD_some, String.toList_ofList] at h
    exact mem_of_mem_pieces hp h

end Text

namespace Name

theorem ne_of_isPart {c : Char} (h : isPart c = true) : '<' ≠ c := by
  rintro rfl
  revert h; decide

theorem ne_of_isStart {c : Char} (h : isStart c = true) : '<' ≠ c := by
  rintro rfl
  revert h; decide

/-- A dotted name has no angle bracket. -/
theorem not_mem_of_dottedChars (cs : List Char) :
    (dottedChars cs = true → '<' ∉ cs) ∧ (dottedRest cs = true → '<' ∉ cs) := by
  induction cs with
  | nil => exact ⟨nofun, fun _ => List.not_mem_nil⟩
  | cons c cs ih =>
    obtain ⟨hdotted, hrest⟩ := ih
    constructor
    · intro h
      rw [dottedChars, Bool.and_eq_true] at h
      exact List.not_mem_cons_of_ne_of_not_mem (ne_of_isStart h.1) (hrest h.2)
    · intro h
      rw [dottedRest] at h
      split at h
      · next hdot =>
        have hc : c = '.' := eq_of_beq hdot
        exact List.not_mem_cons_of_ne_of_not_mem (hc ▸ by decide) (hdotted h)
      · rw [Bool.and_eq_true] at h
        exact List.not_mem_cons_of_ne_of_not_mem (ne_of_isPart h.1) (hrest h.2)

end Name

/-- A reference by a dotted name, as every reference that `TypeName.ofName` or
`TypeName.ofExternal` accepts. -/
def TypeName.Named (t : TypeName) : Prop := Name.isDotted t.name = true

instance (t : TypeName) : Decidable t.Named := inferInstanceAs (Decidable (_ = true))

namespace TypeName

theorem named_wellKnown (w : WellKnown) : (wellKnown w).Named := by
  cases w <;> decide +kernel

theorem named_ofName {name : String} {t : TypeName} (h : ofName name = .ok t) : t.Named := by
  unfold ofName Name.typeName at h
  split at h
  · next hdotted => cases h; exact hdotted
  · cases h

theorem named_ofExternal {name path : String} {t : TypeName} (h : ofExternal name path = .ok t) :
    t.Named := by
  unfold ofExternal Name.typeName at h
  split at h
  · next hdotted => cases h; exact hdotted
  · cases h

end TypeName

/-- A kind whose references were written with dotted names. -/
def WireKind.Named (kind : WireKind) : Prop :=
  ∀ t ∈ kind.references, Name.isDotted t.protoName = true

/-! ## Wrappers of types -/

/-- A host type that is neither an `Option` nor a `HashMap`. -/
def Unwrapped (type : String) : Prop :=
  ¬ "Option<".toList <+: type.toList ∧ ¬ "HashMap<".toList <+: type.toList

instance (type : String) : Decidable (Unwrapped type) := inferInstanceAs (Decidable (_ ∧ _))

theorem unwrapped_of_not_mem {type : String} (h : '<' ∉ type.toList) : Unwrapped type :=
  ⟨fun hp => h (hp.subset (by decide)), fun hp => h (hp.subset (by decide))⟩

theorem ScalarKind.unwrapped_hostType (k : ScalarKind) : Unwrapped k.hostType := by
  cases k with
  | numeric k => cases k <;> decide +kernel
  | bool => decide +kernel
  | string => decide +kernel
  | bytes => decide +kernel

theorem WellKnown.unwrapped_hostType (w : WellKnown) : Unwrapped w.hostType := by
  cases w <;> decide +kernel

theorem optionalType_of_unwrapped {type : String} (h : Unwrapped type) :
    optionalType type = "Option<" ++ type ++ ">" := by
  rw [optionalType, if_neg]
  rw [List.isPrefixOf_iff_prefix]
  exact h.1

/-- What may be absent already stays as it is. -/
theorem optionalType_optionalType (type : String) :
    optionalType (optionalType type) = optionalType type := by
  have hprefix : "Option<".toList.isPrefixOf (optionalType type).toList = true := by
    unfold optionalType
    split
    · assumption
    · rw [String.toList_append, String.toList_append, List.append_assoc,
        List.isPrefixOf_iff_prefix]
      exact List.prefix_append _ _
  rw [optionalType, if_pos hprefix]

/-- The well-known type that a message kind refers to. -/
def WireKind.wellKnown? : WireKind → Option WellKnown
  | message t => t.wellKnown
  | _ => none

theorem WireKind.hostType_of_wellKnown? {kind : WireKind} {w : WellKnown}
    (h : kind.wellKnown? = some w) : kind.hostType = w.hostType := by
  cases kind with
  | message t =>
    have ht : t.wellKnown = some w := h
    rw [hostType, ht]
  | scalar _ => cases h
  | enum _ => cases h
  | repeated _ => cases h
  | map _ _ => cases h

theorem WireKind.unwrapped_hostType {kind : WireKind} (hleaf : kind.isLeaf = true)
    (hnamed : kind.Named) : Unwrapped kind.hostType := by
  have hsimple : ∀ t ∈ kind.references, Unwrapped t.simpleName := fun t ht =>
    unwrapped_of_not_mem fun hmem =>
      (Name.not_mem_of_dottedChars _).1 (hnamed t ht) (Text.mem_of_mem_lastPiece hmem)
  cases kind with
  | scalar k => exact k.unwrapped_hostType
  | enum t => exact hsimple t List.mem_cons_self
  | message t =>
    rw [hostType]
    split
    · next w _ => exact w.unwrapped_hostType
    · exact hsimple t List.mem_cons_self
  | repeated _ => cases hleaf
  | map _ _ => cases hleaf

/-! ## Conversions -/

namespace Conversion

theorem ofKind_repeated (module : String) (hosts : Hosts) (item : FieldDescriptor) :
    ofKind module hosts (.repeated item) = .repeated (ofKind module hosts item.kind) := by
  cases item; rfl

theorem ofKind_map (module : String) (hosts : Hosts) (key value : FieldDescriptor) :
    ofKind module hosts (.map key value) = .map (ofKind module hosts value.kind) := by
  cases value; rfl

/-- A conversion that wraps no other. -/
def isLeaf : Conversion → Bool
  | optional _ | repeated _ | map _ => false
  | _ => true

/-- The conversion of a leaf with this host type: no wrappers on either side, and the conversions of
instants and spans exactly for the well-known messages that stand for them. -/
structure MirrorsLeaf (kind : WireKind) (type : String) (c : Conversion) : Prop where
  kind_isLeaf : kind.isLeaf = true
  conversion_isLeaf : c.isLeaf = true
  unwrapped : Unwrapped type
  timestamp_iff : c = timestamp ↔ kind.wellKnown? = some .timestamp
  timestamp_type : c = timestamp → type = "SystemTime"
  duration_iff : c = duration ↔ kind.wellKnown? = some .duration
  duration_type : c = duration → type = "Duration"

/-- A conversion with the wrappers of the host type: optional for an `Option`, repeated for the
`Vec` of a repeated field, a map for a `HashMap`, and a leaf for anything else. Wrappers do not
nest, as only leaves have presence and only leaves are elements. -/
inductive Mirrors : WireKind → String → Conversion → Prop where
  | leaf {kind : WireKind} {type : String} {c : Conversion} (h : c.MirrorsLeaf kind type) :
    Mirrors kind type c
  | optional {kind : WireKind} {type : String} {c : Conversion} (h : c.MirrorsLeaf kind type) :
    Mirrors kind ("Option<" ++ type ++ ">") (.optional c)
  | repeated {item : FieldDescriptor} {type : String} {c : Conversion}
    (h : c.MirrorsLeaf item.kind type) :
    Mirrors (.repeated item) ("Vec<" ++ type ++ ">") (.repeated c)
  | map {key value : FieldDescriptor} {type : String} {c : Conversion}
    (h : c.MirrorsLeaf value.kind type) :
    Mirrors (.map key value) ("HashMap<" ++ key.hostType ++ ", " ++ type ++ ">") (.map c)

variable {module : String} {hosts : Hosts} {kind : WireKind}

theorem isLeaf_ofKind (h : kind.isLeaf = true) : (ofKind module hosts kind).isLeaf = true := by
  cases kind with
  | scalar _ => rfl
  | enum _ => rfl
  | message t =>
    obtain ⟨_, _, w, _⟩ := t
    rcases w with _ | _ | _ | _ | _ | _ | _ <;> rfl
  | repeated _ => cases h
  | map _ _ => cases h

/-- Instants and spans are converted just where the kind is the well-known message for them. -/
theorem ofKind_temporal_iff :
    (ofKind module hosts kind = timestamp ↔ kind.wellKnown? = some .timestamp) ∧
      (ofKind module hosts kind = duration ↔ kind.wellKnown? = some .duration) := by
  cases kind with
  | message t =>
    obtain ⟨_, _, w, _⟩ := t
    rcases w with _ | _ | _ | _ | _ | _ | _ <;> simp [ofKind, WireKind.wellKnown?]
  | scalar _ => simp [ofKind, WireKind.wellKnown?]
  | enum _ => simp [ofKind, WireKind.wellKnown?]
  | repeated _ => simp [ofKind_repeated, WireKind.wellKnown?]
  | map _ _ => simp [ofKind_map, WireKind.wellKnown?]

theorem mirrorsLeaf_ofKind (hleaf : kind.isLeaf = true) (hnamed : kind.Named) :
    (ofKind module hosts kind).MirrorsLeaf kind kind.hostType where
  kind_isLeaf := hleaf
  conversion_isLeaf := isLeaf_ofKind hleaf
  unwrapped := WireKind.unwrapped_hostType hleaf hnamed
  timestamp_iff := ofKind_temporal_iff.1
  timestamp_type := fun h => WireKind.hostType_of_wellKnown? (ofKind_temporal_iff.1.1 h)
  duration_iff := ofKind_temporal_iff.2
  duration_type := fun h => WireKind.hostType_of_wellKnown? (ofKind_temporal_iff.2.1 h)

end Conversion

namespace WireKind

/-- Items have no presence of their own. -/
theorem hostType_repeated {item : FieldDescriptor} (h : item.optional = false) :
    (repeated item).hostType = "Vec<" ++ item.kind.hostType ++ ">" := by
  obtain ⟨traits, kind⟩ := item
  rw [hostType, hostType.wrap, if_neg (by simpa using h)]

/-- Keys and values have no presence of their own. -/
theorem hostType_map {key value : FieldDescriptor} (hkey : key.optional = false)
    (hvalue : value.optional = false) : (map key value).hostType =
      "HashMap<" ++ key.hostType ++ ", " ++ value.kind.hostType ++ ">" := by
  obtain ⟨keyTraits, keyKind⟩ := key
  obtain ⟨valueTraits, valueKind⟩ := value
  have hwrap : ∀ type, hostType.wrap valueTraits.optional type = type := fun type =>
    if_neg (by simpa using hvalue)
  rw [hostType, hwrap]
  rfl

end WireKind

/-- The type that a record declares for a field of a message: a choice of a oneof may be absent. -/
def FieldDescriptor.expectedType (oneof : Option String) (d : FieldDescriptor) : String :=
  match oneof with
  | none => d.hostType
  | some _ => "Option<" ++ d.hostType ++ ">"

namespace FieldDescriptor

variable {validateImport : String} {oneof : Option String} {d : FieldDescriptor}

theorem hostType_of_present (h : d.optional = false) : d.hostType = d.kind.hostType := by
  rw [hostType, if_neg (by simpa using h)]

/-- A present value is converted along its kind. -/
theorem mirrors_ofKind (h : d.WellFormed validateImport) (hnamed : d.kind.Named) (module : String)
    (hosts : Hosts) : (Conversion.ofKind module hosts d.kind).Mirrors d.kind d.kind.hostType := by
  cases hkind : d.kind with
  | scalar k => exact .leaf (Conversion.mirrorsLeaf_ofKind rfl (hkind ▸ hnamed))
  | enum t => exact .leaf (Conversion.mirrorsLeaf_ofKind rfl (hkind ▸ hnamed))
  | message t => exact .leaf (Conversion.mirrorsLeaf_ofKind rfl (hkind ▸ hnamed))
  | repeated item =>
    obtain ⟨hitem, -⟩ := h.item item hkind
    rw [hkind, WireKind.Named, WireKind.references_repeated] at hnamed
    rw [WireKind.hostType_repeated hitem.optional, Conversion.ofKind_repeated]
    exact .repeated (Conversion.mirrorsLeaf_ofKind hitem.isLeaf hnamed)
  | map key value =>
    obtain ⟨hkey, -⟩ := h.key key value hkind
    obtain ⟨hvalue, -⟩ := h.value key value hkind
    rw [hkind, WireKind.Named, WireKind.references_map] at hnamed
    rw [WireKind.hostType_map hkey.optional hvalue.optional, Conversion.ofKind_map]
    exact .map (Conversion.mirrorsLeaf_ofKind hvalue.isLeaf fun t ht =>
      hnamed t (List.mem_append_right _ ht))

/-- **Conversions mirror host types.** The conversion of a built field has the wrappers of the type
that a record declares for it. -/
theorem mirrors_ofField (h : d.InPlace validateImport oneof) (hnamed : d.kind.Named)
    (module : String) (hosts : Hosts) :
    (Conversion.ofField module hosts d).Mirrors d.kind (d.expectedType oneof) := by
  cases oneof with
  | some oneof =>
    obtain ⟨hleaf, hpresence⟩ := h.choice (by simp)
    have hchoice : (d.optional || d.oneof.isSome) = true := by simp [h.oneof_eq]
    rw [Conversion.ofField, if_pos hchoice, expectedType, hostType_of_present hpresence]
    exact .optional (Conversion.mirrorsLeaf_ofKind hleaf hnamed)
  | none =>
    rw [Conversion.ofField, h.oneof_eq, Option.isSome_none, Bool.or_false, expectedType]
    by_cases hoptional : d.optional = true
    · have hleaf := h.wellFormed.isLeaf_of_optional hoptional
      rw [if_pos hoptional, hostType, if_pos hoptional,
        optionalType_of_unwrapped (WireKind.unwrapped_hostType hleaf hnamed)]
      exact .optional (Conversion.mirrorsLeaf_ofKind hleaf hnamed)
    · rw [if_neg hoptional, hostType, if_neg hoptional]
      exact mirrors_ofKind h.wellFormed hnamed module hosts

end FieldDescriptor

/-! ## The types that drift is checked against -/

variable {s : Scope} {n : Nat} {d : FieldDescriptor}

/-- A leaf type knows its host type before its reference is resolved. -/
theorem LeafType.hostType_wireKind {t : LeafType} {kind : WireKind} (h : t.wireKind s = .ok kind) :
    t.hostType = kind.hostType := by
  cases t with
  | number k r => cases h; rfl
  | bool r => cases h; rfl
  | string r => cases h; rfl
  | bytes r => cases h; rfl
  | enum target r =>
    obtain ⟨t, rfl, hname, -⟩ := WireKind.of_resolve h
    rw [hostType, WireKind.hostType, TypeName.simpleName, TypeRef.simpleName, hname]
  | message target =>
    obtain ⟨t, rfl, hname, hwellKnown⟩ := WireKind.of_resolve h
    have hsimple : target.simpleName = t.simpleName := by
      rw [TypeName.simpleName, TypeRef.simpleName, hname]
    cases hw : target.wellKnown? <;> simp [hostType, WireKind.hostType, hwellKnown, hw, hsimple]
  | timestamp r => cases h; rfl
  | duration r => cases h; rfl
  | any r => cases h; rfl

theorem LeafField.hostType_of_value {f : LeafField} (h : (f.build s n).value = some d) :
    f.type.hostType = d.kind.hostType ∧ d.optional = f.optional := by
  obtain ⟨kind, hkind, hc⟩ := value_build h
  rw [FieldContent.value_build hc]
  exact ⟨LeafType.hostType_wireKind hkind, rfl⟩

namespace Field

theorem baseType_of_element {outer : String} {f : Field}
    (h : (buildElement s n outer f).value = some d) :
    f.baseType = d.kind.hostType ∧ d.optional = false := by
  obtain ⟨g, rfl, hg⟩ := value_element h
  exact LeafField.hostType_of_value hg

/-- **Declaration and descriptor have one host type.** -/
theorem hostType_of_value {f : Field} (h : (f.build s n).value = some d) :
    f.hostType = d.hostType := by
  cases f with
  | leaf f =>
    obtain ⟨htype, hoptional⟩ := LeafField.hostType_of_value (f := f) h
    rw [hostType, FieldDescriptor.hostType, hoptional, ← htype]
    rfl
  | repeated head item count unique =>
    obtain ⟨i, -, hi, hc⟩ := value_repeated h
    obtain ⟨hitem, hpresence⟩ := baseType_of_element hi
    obtain rfl := FieldContent.value_build hc
    have htype : (WireKind.repeated i).hostType = "Vec<" ++ item.baseType ++ ">" := by
      rw [WireKind.hostType_repeated hpresence, hitem]
    exact htype.symm
  | map head key value pairs =>
    obtain ⟨k, v, -, hk, hv, hc⟩ := value_map h
    obtain ⟨hkey, hkpresence⟩ := baseType_of_element hk
    obtain ⟨hvalue, hvpresence⟩ := baseType_of_element hv
    obtain rfl := FieldContent.value_build hc
    have htype : (WireKind.map k v).hostType =
        "HashMap<" ++ key.baseType ++ ", " ++ value.baseType ++ ">" := by
      rw [WireKind.hostType_map hkpresence hvpresence,
        FieldDescriptor.hostType_of_present hkpresence, hkey, hvalue]
    exact htype.symm

end Field

namespace PlacedField

/-- The type that the check for drift expects for the field. -/
def expectedType (x : PlacedField) : String :=
  match x.oneof with
  | none => x.field.hostType
  | some _ => optionalType x.field.hostType

/-- **Drift is checked against the type of the descriptor.** -/
theorem expectedType_of_value {x : PlacedField} (h : (x.build s).value = some d)
    (hnamed : d.kind.Named) :
    x.expectedType = d.expectedType x.oneof := by
  obtain ⟨place, number, f⟩ := x
  cases place with
  | none => exact Field.hostType_of_value h
  | some oneof =>
    obtain ⟨hin, -⟩ := Oneof.inPlace h
    obtain ⟨hleaf, hpresence⟩ := hin.choice (by simp)
    obtain ⟨g, e, rfl, he, rfl⟩ := Oneof.value_choice h
    obtain ⟨htype, -⟩ := LeafField.hostType_of_value he
    have hunwrapped := WireKind.unwrapped_hostType hleaf hnamed
    -- presence that the choice was declared with is there already
    have hoptional : optionalType (Field.leaf g).hostType = optionalType g.type.hostType := by
      rw [Field.hostType]
      split
      · exact optionalType_optionalType _
      · rfl
    rw [expectedType, hoptional, FieldDescriptor.expectedType,
      FieldDescriptor.hostType_of_present hpresence, htype, optionalType_of_unwrapped hunwrapped]

end PlacedField

/-! ## Fields of a package -/

namespace FlatMessage

/-- The check for drift expects the types of the fields at their places. -/
theorem expectedTypes_perm (m : FlatMessage) :
    (m.placedFields.map fun x => (x.field.name, x.expectedType)).Perm m.expectedTypes := by
  rw [placedFields, expectedTypes, List.map_append, List.map_map, List.map_flatMap,
    List.map_flatMap]
  refine ((stableSort_perm _ m.fields).map _).append (.flatMap_left _ fun o _ => ?_)
  rw [List.map_map]
  exact (stableSort_perm _ o.choices).map _

theorem expectedTypes_nodup {m : FlatMessage} (h : m.WellNumbered) :
    (m.expectedTypes.map Prod.fst).Nodup := by
  rw [m.map_expectedTypes]
  exact h.names_nodup

/-- A field is expected with one type. -/
theorem mem_expectedTypes_iff {m : FlatMessage} (h : m.WellNumbered) {y : PlacedField}
    (hy : y ∈ m.placedFields) {type : String} :
    (y.field.name, type) ∈ m.expectedTypes ↔ type = y.expectedType := by
  have hown : (y.field.name, y.expectedType) ∈ m.expectedTypes :=
    m.expectedTypes_perm.mem_iff.1 (List.mem_map_of_mem hy)
  constructor
  · intro hmem
    exact (Prod.mk.inj (List.inj_on_of_nodup_map (expectedTypes_nodup h) hmem hown rfl)).2
  · rintro rfl
    exact hown

/-- Of distinct names, one has one type. -/
theorem filter_eq_of_mem {expected : List (String × String)} {name type : String}
    (hnodup : (expected.map Prod.fst).Nodup) (hmem : (name, type) ∈ expected) :
    expected.filter (·.1 == name) = [(name, type)] := by
  induction expected with
  | nil => cases hmem
  | cons x rest ih =>
    obtain ⟨hx, hrest⟩ := List.nodup_cons.1 hnodup
    rcases List.mem_cons.1 hmem with rfl | hmem
    · have hnone : rest.filter (·.1 == name) = [] := List.filter_eq_nil_iff.2 fun y hy he =>
        hx (List.mem_map.2 ⟨y, hy, eq_of_beq he⟩)
      rw [List.filter_cons_of_pos (by simp), hnone]
    · have hne : x.1 ≠ name := fun he => hx (List.mem_map.2 ⟨(name, type), hmem, he.symm⟩)
      rw [List.filter_cons_of_neg (by simpa using hne), ih hrest hmem]

/-- With distinct names, a host field is compared with the type of the field of its name. -/
theorem hostFieldDrift_of_mem {expected : List (String × String)} {name type : String}
    (hnodup : (expected.map Prod.fst).Nodup) (hmem : (name, type) ∈ expected) (hostType : String) :
    hostFieldDrift expected ⟨name, hostType⟩ =
      if sameType type hostType then [] else [.hostTypeMismatch name hostType type] := by
  rw [hostFieldDrift, filter_eq_of_mem hnodup hmem]
  rfl

end FlatMessage

/-- A declared field and its descriptor agree on the host type: the check for drift expects what the
descriptor says, and any conversion of the field mirrors it. -/
structure PlacedField.Agrees (d : PackageDescriptor) (m : FlatMessage) (e : FlatMessageDescriptor)
    (x : PlacedField) (g : FieldDescriptor) : Prop where
  name : g.name = x.field.name
  drift : ∀ type, FlatMessage.hostFieldDrift m.expectedTypes ⟨x.field.name, type⟩ =
    if FlatMessage.sameType (g.expectedType x.oneof) type then []
    else [.hostTypeMismatch x.field.name type (g.expectedType x.oneof)]
  conversion : ∀ c ∈ d.converters.messages, c.message = e.fullName → ∀ f ∈ c.fields,
    f.messageField = g.name → f.conversion.Mirrors g.kind (g.expectedType x.oneof)

namespace Package

variable {p : Package} {d : PackageDescriptor}

/-- Where references are written with dotted names, so are those of the built fields. -/
theorem named_of_references (h : p.build = .ok d)
    (hnamed : ∀ f ∈ p.files, ∀ r ∈ f.references, r.target.Named) {e : FlatMessageDescriptor}
    (he : e ∈ d.messages) {g : FieldDescriptor} (hg : g ∈ e.allFields) : g.kind.Named := by
  intro t ht
  obtain ⟨fd, hfd, he⟩ := List.mem_flatMap.1 he
  obtain ⟨f, hf, hdescribed⟩ := exists_of_forall₂_right (files_of_build h).2.2 hfd
  have hfield : t ∈ fd.references := List.mem_append_left _ (List.mem_flatMap.2
    ⟨g, List.mem_append_left _ (List.mem_flatMap.2 ⟨e, he, hg⟩), ht⟩)
  obtain ⟨r, hr, hresolve⟩ := exists_of_forall₂_right (hdescribed.references rfl) hfield
  rw [(Scope.resolve_ok hresolve).1]
  exact hnamed f hf r hr

/-- The one conversion of a field in the converters of a package. -/
theorem conversion_eq (h : p.build = .ok d) {s : Scope} {m : FlatMessage}
    {e : FlatMessageDescriptor} (he : e ∈ d.messages) (hbuilt : e.BuiltFrom s m)
    {c : MessageConverter} (hc : c ∈ d.converters.messages) (hmessage : c.message = e.fullName)
    {f : FieldConversion} (hf : f ∈ c.fields) {g : FieldDescriptor} (hg : g ∈ e.allFields)
    (hname : f.messageField = g.name) : f.conversion =
      .ofField p.config.generatedModule (ConverterDescriptor.hosts d.messages) g := by
  rw [converters_eq h] at hc
  obtain ⟨e', he', hc⟩ := List.mem_filterMap.1 hc
  obtain ⟨host, -, rfl⟩ := Option.map_eq_some_iff.1 hc
  obtain rfl : e' = e := List.inj_on_of_nodup_map (fullName_nodup h) he' he hmessage
  obtain ⟨g', hg', -, rfl⟩ := MessageConverter.mem_conversions_iff.1 hf
  obtain rfl : g' = g :=
    List.inj_on_of_nodup_map hbuilt.names_nodup hg' hg hname
  rfl

/-- A field of a message that builds agrees with its descriptor. -/
theorem agrees (h : p.build = .ok d)
    (hnamed : ∀ f ∈ p.files, ∀ r ∈ f.references, r.target.Named) {s : Scope} {m : FlatMessage}
    {e : FlatMessageDescriptor} (he : e ∈ d.messages) (hbuilt : e.BuiltFrom s m) {x : PlacedField}
    (hx : x ∈ m.placedFields) {y : Option String × FieldDescriptor} (hy : y ∈ e.placedFields)
    (hvalue : (x.build s).value = some y.2) : x.Agrees d m e y.2 := by
  have hfield : y.2 ∈ e.allFields := by
    rw [← FlatMessageDescriptor.map_placedFields]
    exact List.mem_map_of_mem hy
  have hdotted := named_of_references h hnamed he hfield
  have hin : y.2.InPlace s.validateImport x.oneof :=
    PlacedField.inPlace hvalue _ List.mem_cons_self
  refine ⟨(PlacedField.name_number_of_value hvalue).1, fun type => ?_,
    fun c hc hmessage f hf hname => ?_⟩
  · have hnodup := FlatMessage.expectedTypes_nodup hbuilt.wellNumbered
    have hmem := (FlatMessage.mem_expectedTypes_iff hbuilt.wellNumbered hx).2 rfl
    rw [← PlacedField.expectedType_of_value hvalue hdotted]
    exact FlatMessage.hostFieldDrift_of_mem hnodup hmem type
  · rw [conversion_eq h he hbuilt hc hmessage hf hfield hname]
    exact FieldDescriptor.mirrors_ofField hin hdotted _ _

/-- **Host types agree.** A field that builds has the host type of its descriptor. In a package that
builds, whose references are written with dotted names, so does each field in the check for drift,
up to the `Option` of a choice, and its conversion has the wrappers of that type. -/
theorem hostTypes_agree :
    (∀ (f : Field) (n : Nat) (s : Session) (g : FieldDescriptor),
      (f.run n s).1 = .ok g → f.hostType = g.hostType) ∧
    ∀ (p : Package) (d : PackageDescriptor), p.build = .ok d →
      (∀ f ∈ p.files, ∀ r ∈ f.references, r.target.Named) →
      List.Forall₂ (fun x e => List.Forall₂ (fun z y => y.1 = z.oneof ∧ z.Agrees d x.2 e y.2)
        x.2.placedFields e.placedFields) p.messages d.messages := by
  constructor
  · intro f n s g hrun
    rw [f.run_eq n s, Built.record, Built.result_eq_ok_iff] at hrun
    exact Field.hostType_of_value hrun
  · intro p d h hnamed
    have hbuilt := builtFrom h
    refine List.forall₂_iff_zip.2 ⟨hbuilt.length_eq, fun {x e} hxe => ?_⟩
    obtain ⟨s, -, hs⟩ := List.forall₂_zip hbuilt hxe
    refine List.forall₂_iff_zip.2 ⟨hs.placedFields.length_eq, fun {z y} hzy => ?_⟩
    obtain ⟨hplace, hvalue⟩ := List.forall₂_zip hs.placedFields hzy
    exact ⟨hplace, agrees h hnamed (List.of_mem_zip hxe).2 hs (List.of_mem_zip hzy).1
      (List.of_mem_zip hzy).2 hvalue⟩

/-- A bound message with an instant, items, a map and a choice that was declared with presence: its
references are written with dotted names, and its fields agree. -/
theorem hostTypes_agree_wrapped :
    let ref (name : String) (target : TypeName) : Field :=
      .leaf { head := { name }, type := .message target }
    let key : Field := .leaf { head := { name := "key" }, type := .string {} }
    let seen : Field :=
      .leaf { head := { name := "seen" }, type := .timestamp {}, optional := true }
    let rank : Field :=
      .leaf { head := { name := "rank" }, type := .number .int32 {}, optional := true }
    let lamp : Message := {
      name := "Lamp",
      fields := [(1, seen),
        (2, .repeated { name := "waits" } (ref "wait" (.wellKnown .duration)) {} false),
        (3, .map { name := "kin" } key (ref "lamp" (.declared "Lamp")) {})],
      oneofs := [{ name := "order", choices := [(4, rank)] }],
      host := some { typePath := "shop::Lamp", fields := [⟨"seen", "Option<SystemTime>"⟩,
        ⟨"waits", "Vec<Duration>"⟩, ⟨"kin", "HashMap<String, Lamp>"⟩, ⟨"rank", "Option<i32>"⟩] } }
    let p : Package := {
      config := { package := "shop" }, files := [{ name := "a.proto", messages := [lamp] }] }
    (∀ f ∈ p.files, ∀ r ∈ f.references, r.target.Named) ∧ ∃ d, p.build = .ok d ∧
      d.converters.messages.map (fun c => c.fields.map (·.conversion)) =
        [[.optional .timestamp, .repeated .duration,
          .map (.message "crate::pb::Lamp" (some "shop::Lamp")), .optional .direct]] ∧
      List.Forall₂ (fun x e => List.Forall₂ (fun z y => y.1 = z.oneof ∧ z.Agrees d x.2 e y.2)
        x.2.placedFields e.placedFields) p.messages d.messages := by
  intro ref key seen rank lamp p
  have hnamed : ∀ f ∈ p.files, ∀ r ∈ f.references, r.target.Named := by decide +kernel
  obtain ⟨d, hd, hconversions⟩ : ∃ d, p.build = .ok d ∧
      d.converters.messages.map (fun c => c.fields.map (·.conversion)) =
        [[.optional .timestamp, .repeated .duration,
          .map (.message "crate::pb::Lamp" (some "shop::Lamp")), .optional .direct]] :=
    exists_ok_of_summary (by decide +kernel)
  exact ⟨hnamed, d, hd, hconversions, hostTypes_agree.2 p d hd hnamed⟩

end Package

end WireSchema

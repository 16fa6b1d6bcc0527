import Mathlib.Data.List.Flatten
import Mathlib.Data.List.Perm.Basic
import WireSchema.Proofs.DeclaredPaths
import WireSchema.Proofs.FieldNumbers
import WireSchema.Proofs.References

/-!
# Converters of a package

In a package that builds, every message bound to a host record has one converter. It takes care of
each field that the schema and the record share, and of the record's own fields: none is lost and
none is handled twice.

* `FlatMessageDescriptor.BuiltFrom.slots_perm`: a built message has the numbers and names of its
  source, each once.
* `MessageConverter.completes_ofBound`: the converter of one bound message is complete.
* `FlatMessage.names_of_drift`: what the record and the schema do not share is ignored, unless the
  check is skipped.
* `Package.converters_complete`: all of it for the messages of a package, at every depth.
-/

namespace WireSchema

/-! ## Numbers and names of built messages -/

theorem FlatMessage.orderedFields_perm (m : FlatMessage) : m.orderedFields.Perm m.allFields := by
  refine (stableSort_perm _ m.fields).append ?_
  exact .flatMap (.refl _) fun o _ => stableSort_perm _ o.choices

namespace FlatMessageDescriptor

/-- The numbers and names of the fields of a built message. -/
def slots (d : FlatMessageDescriptor) : List (Nat × String) :=
  d.allFields.map fun g => (g.number, g.name)

/-- The names of the fields of a built message. -/
def names (d : FlatMessageDescriptor) : List String := d.allFields.map fun g => g.name

namespace BuiltFrom

variable {s : Scope} {m : FlatMessage} {d : FlatMessageDescriptor}

/-- A built message lists the numbers and names of its source in the order of its fields. -/
theorem slots_eq (h : d.BuiltFrom s m) :
    d.slots = m.orderedFields.map fun x => (x.1, x.2.name) := by
  have hplaced : m.placedFields.map (fun x => (x.number, x.field.name)) =
      d.placedFields.map fun g => (g.2.number, g.2.name) :=
    map_eq_map_of_forall₂ h.placedFields fun x g hg => by
      obtain ⟨hname, hnumber⟩ := PlacedField.name_number_of_value hg.2
      rw [hname, hnumber]
  rw [slots, ← map_placedFields, ← FlatMessage.map_placedFields, List.map_map, List.map_map]
  exact hplaced.symm

theorem slots_perm (h : d.BuiltFrom s m) : d.slots.Perm m.slots := by
  rw [h.slots_eq]
  exact m.orderedFields_perm.map _

theorem wellNumbered (h : d.BuiltFrom s m) : m.WellNumbered :=
  (FlatMessage.numberingViolations_eq_nil_iff m).1 h.numbering

theorem names_perm (h : d.BuiltFrom s m) : d.names.Perm (m.slots.map Prod.snd) := by
  have hnames := h.slots_perm.map Prod.snd
  rwa [slots, List.map_map] at hnames

theorem names_nodup (h : d.BuiltFrom s m) : d.names.Nodup :=
  h.names_perm.nodup_iff.2 h.wellNumbered.names_nodup

/-- The regular fields of a built message come in strictly ascending order of their numbers. -/
theorem fields_ascending (h : d.BuiltFrom s m) :
    d.fields.Pairwise fun a b => a.number < b.number := by
  have hbuilt : (byNumber m.fields).map Prod.fst = d.fields.map fun g => g.number :=
    map_eq_map_of_forall₂ (Built.forall₂_of_value_list h.fields) fun x g hg =>
      (Field.name_number_of_value hg).2.symm
  have hascending : ((byNumber m.fields).map Prod.fst).Pairwise (· < ·) :=
    List.pairwise_map.2 (byNumber_ascending h.wellNumbered.fields_nodup)
  rwa [hbuilt, List.pairwise_map] at hascending

end BuiltFrom

end FlatMessageDescriptor

/-! ## Host records -/

/-- The names of the fields of a host record. -/
def HostRecord.names (h : HostRecord) : List String := h.fields.map HostField.name

theorem HostRecord.isSome_get?_iff {h : HostRecord} {name : String} :
    (h.get? name).isSome = true ↔ name ∈ h.names := by
  simp [get?, names]

theorem HostRecord.isNone_get?_iff {h : HostRecord} {name : String} :
    (h.get? name).isNone = true ↔ name ∉ h.names := by
  rw [← Option.not_isSome, Bool.not_eq_true', ← Bool.not_eq_true, isSome_get?_iff]

theorem StringSet.not_contains_iff {s : StringSet} {name : String} :
    (!s.contains name) = true ↔ name ∉ s := by
  rw [Bool.not_eq_true', ← Bool.not_eq_true, contains_iff_mem]

/-- Distinct names of a record are those that it shares with other names, and the rest. -/
theorem shared_append_rest_perm {names record : List String} (hnames : names.Nodup)
    (hrecord : record.Nodup) : ((names.filter fun name => name ∈ record) ++
      record.filter fun name => name ∉ names).Perm record := by
  have hdisjoint : List.Disjoint (names.filter fun name => name ∈ record)
      (record.filter fun name => name ∉ names) := fun name hshared hrest =>
    of_decide_eq_true (List.mem_filter.1 hrest).2 (List.mem_filter.1 hshared).1
  refine (List.perm_ext_iff_of_nodup
    ((hnames.filter _).append (hrecord.filter _) hdisjoint) hrecord).2 fun name => ?_
  simp only [List.mem_append, List.mem_filter, decide_eq_true_eq]
  tauto

theorem FlatMessage.map_expectedTypes (m : FlatMessage) :
    m.expectedTypes.map Prod.fst = m.slots.map Prod.snd := by
  simp only [expectedTypes, slots, allFields, List.map_append, List.map_map]
  rfl

/-- A bound message whose host is checked and that has not drifted: host names without a field and
fields without a host name are ignored. -/
theorem FlatMessage.names_of_drift {m : FlatMessage} {host : HostRecord}
    (hhost : m.host = some host) (hskip : m.skipHostCheck = false) (hdrift : m.drift = []) :
    (∀ name ∈ host.names, name ∉ m.slots.map Prod.snd → name ∈ m.ignored) ∧
      ∀ name ∈ m.slots.map Prod.snd, name ∉ host.names → name ∈ m.ignored := by
  simp only [drift, hhost, hskip, Bool.false_eq_true, if_false, driftFrom, List.append_eq_nil_iff,
    List.flatMap_eq_nil_iff, List.map_eq_nil_iff] at hdrift
  obtain ⟨hfields, hmissing⟩ := hdrift
  constructor
  · intro name hname hschema
    by_contra hignored
    obtain ⟨f, hf, rfl⟩ := List.mem_map.1 hname
    have hnone : m.expectedTypes.filter (·.1 == f.name) = [] := by
      refine List.filter_eq_nil_iff.2 fun x hx he => hschema ?_
      rw [← m.map_expectedTypes, ← eq_of_beq he]
      exact List.mem_map_of_mem hx
    -- so the check would have found no field for a name that it does not pass over
    have hviolation := hfields f (List.mem_filter.2 ⟨hf, StringSet.not_contains_iff.2 hignored⟩)
    simp [hostFieldDrift, hnone] at hviolation
  · intro name hname hrecord
    by_contra hignored
    have hmem : name ∈ (StringSet.ofList (m.expectedTypes.map Prod.fst)).toList := by
      rw [← StringSet.mem_def, StringSet.mem_ofList, m.map_expectedTypes]
      exact hname
    refine List.filter_eq_nil_iff.1 hmissing name hmem ?_
    rw [HostRecord.isNone_get?_iff.2 hrecord, Bool.true_and]
    exact StringSet.not_contains_iff.2 hignored

/-! ## The converter of one message -/

/-- The converter of a built message is complete: the fields that have a host name are converted, in
the order of the message, and the host names that no field has take defaults. What only one side
has is ignored by the source of the message, unless that skips the check of its host. -/
structure MessageConverter.Completes (c : MessageConverter) (m : FlatMessage)
    (d : FlatMessageDescriptor) (host : HostRecord) : Prop where
  message : c.message = d.fullName
  typePath : c.host = host.typePath
  ascending : d.fields.Pairwise fun a b => a.number < b.number
  fields : List.Forall₂
    (fun g f => f.hostField = g.name ∧ f.messageField = g.name ∧ f.oneof = g.oneof)
    (d.allFields.filter fun g => g.name ∈ host.names) c.fields
  once : (c.fields.map FieldConversion.hostField).Nodup
  defaulted : c.defaulted = host.names.filter fun name => name ∉ d.names
  partition : host.names.Nodup →
    (c.fields.map FieldConversion.hostField ++ c.defaulted).Perm host.names
  defaulted_ignored : m.skipHostCheck = false → ∀ name ∈ c.defaulted, name ∈ m.ignored
  unconverted_ignored : m.skipHostCheck = false →
    ∀ name ∈ d.names, name ∉ c.fields.map FieldConversion.messageField → name ∈ m.ignored

namespace MessageConverter

variable {s : Scope} {m : FlatMessage} {d : FlatMessageDescriptor} {host : HostRecord}
  {module : String} {hosts : Hosts}

theorem conversions_eq : conversions module hosts d host =
    (d.allFields.filter fun g => g.name ∈ host.names).map fun g =>
      ⟨g.name, g.name, .ofField module hosts g, g.oneof⟩ := by
  rw [conversions]
  congr 1
  refine List.filter_congr fun g _ => ?_
  rw [Bool.eq_iff_iff, HostRecord.isSome_get?_iff, decide_eq_true_eq]

/-- A conversion is made for a field whose name the host record has. -/
theorem mem_conversions_iff {f : FieldConversion} : f ∈ conversions module hosts d host ↔
    ∃ g ∈ d.allFields, g.name ∈ host.names ∧
      f = ⟨g.name, g.name, .ofField module hosts g, g.oneof⟩ := by
  rw [conversions_eq, List.mem_map]
  refine exists_congr fun g => ?_
  rw [List.mem_filter, decide_eq_true_eq, and_assoc, @eq_comm _ f]

/-- The names with a conversion are those that the fields and the host record share. -/
theorem hostField_conversions (module : String) (hosts : Hosts) (d : FlatMessageDescriptor)
    (host : HostRecord) : (conversions module hosts d host).map FieldConversion.hostField =
      d.names.filter fun name => name ∈ host.names := by
  rw [conversions_eq, List.map_map, FlatMessageDescriptor.names, List.filter_map]
  rfl

theorem messageField_conversions (module : String) (hosts : Hosts) (d : FlatMessageDescriptor)
    (host : HostRecord) : (conversions module hosts d host).map FieldConversion.messageField =
      d.names.filter fun name => name ∈ host.names := by
  rw [← hostField_conversions module hosts d host, conversions_eq, List.map_map, List.map_map]
  rfl

/-- The host names that take defaults are those that no field has. -/
theorem defaulted_ofBound : (ofBound module hosts d host).defaulted =
    host.names.filter fun name => name ∉ d.names := by
  refine List.filter_congr fun name hname => ?_
  have hshared : name ∈ (conversions module hosts d host).map FieldConversion.hostField ↔
      name ∈ d.names := by
    rw [hostField_conversions, List.mem_filter]
    exact ⟨And.left, fun hfield => ⟨hfield, decide_eq_true hname⟩⟩
  rw [Bool.eq_iff_iff, decide_eq_true_eq, ← hshared]
  simp

/-- **The converter of a bound message is complete.** -/
theorem completes_ofBound (h : d.BuiltFrom s m) (hhost : d.host = some host) :
    (ofBound module hosts d host).Completes m d host where
  message := rfl
  typePath := rfl
  ascending := h.fields_ascending
  fields := by
    rw [show (ofBound module hosts d host).fields = _ from conversions_eq]
    exact List.forall₂_map_right_iff.2 (List.forall₂_same.2 fun g _ => ⟨rfl, rfl, rfl⟩)
  once := hostField_conversions module hosts d host ▸ h.names_nodup.filter _
  defaulted := defaulted_ofBound
  partition := fun hnodup => by
    rw [defaulted_ofBound]
    exact hostField_conversions module hosts d host ▸ shared_append_rest_perm h.names_nodup hnodup
  defaulted_ignored := fun hskip name hname => by
    rw [defaulted_ofBound, List.mem_filter, decide_eq_true_eq, h.names_perm.mem_iff] at hname
    exact (FlatMessage.names_of_drift (h.host ▸ hhost) hskip h.drift).1 name hname.1 hname.2
  unconverted_ignored := fun hskip name hname hconverted => by
    refine (FlatMessage.names_of_drift (h.host ▸ hhost) hskip h.drift).2 name
      (h.names_perm.mem_iff.1 hname) fun hrecord => hconverted ?_
    exact messageField_conversions module hosts d host ▸
      List.mem_filter.2 ⟨hname, decide_eq_true hrecord⟩

theorem ofMessage?_of_host (h : d.host = some host) :
    ofMessage? module hosts d = some (ofBound module hosts d host) := by
  rw [ofMessage?, h]; rfl

/-- The bound messages have converters one by one. -/
theorem forall₂_ofMessage? {α : Type} {R : α × FlatMessageDescriptor → MessageConverter → Prop}
    (module : String) (hosts : Hosts) (l : List (α × FlatMessageDescriptor))
    (h : ∀ x ∈ l, ∀ host, x.2.host = some host → R x (ofBound module hosts x.2 host)) :
    List.Forall₂ R (l.filter fun x => x.2.host.isSome)
      ((l.map Prod.snd).filterMap (ofMessage? module hosts)) := by
  induction l with
  | nil => exact .nil
  | cons x l ih =>
    have hrest := ih fun y hy => h y (List.mem_cons_of_mem _ hy)
    cases hhost : x.2.host with
    | none => simpa [ofMessage?, hhost] using hrest
    | some host =>
      rw [List.filter_cons_of_pos (by rw [hhost]; rfl), List.map_cons,
        List.filterMap_cons_some (ofMessage?_of_host hhost)]
      exact .cons (h x List.mem_cons_self host hhost) hrest

/-- Converters are named after the messages that they belong to. -/
theorem messages_sublist (l : List FlatMessageDescriptor) :
    ((l.filterMap (ofMessage? module hosts)).map message).Sublist (l.map fun e => e.fullName) :=
  map_filterMap_sublist (fun e c hc => by
    obtain ⟨host, -, rfl⟩ := Option.map_eq_some_iff.1 hc
    rfl) l

end MessageConverter

/-! ## The converters of a package -/

/-- The messages of a package at every depth, each with its path, file by file. -/
def Package.messages (p : Package) : List (List String × FlatMessage) :=
  p.files.flatMap fun f => Message.flattenAll [] f.messages

/-- The messages of a built package at every depth, file by file. -/
def PackageDescriptor.messages (d : PackageDescriptor) : List FlatMessageDescriptor :=
  d.files.flatMap FileDescriptor.flatMessages

/-- The full names of the messages of a file are among those that it declares. -/
theorem File.fullNames_sublist (f : File) :
    ((Message.flattenAll [] f.messages).map fun x => ".".intercalate x.1).Sublist
      (f.declarations.map Prod.fst) := by
  rw [declarations_eq, declaredPaths, List.map_append, List.map_append, List.map_flatMap,
    List.map_flatMap, ← List.flatMap_pure_eq_map]
  refine .trans (.flatMap_right _ fun x _ => ?_) (List.sublist_append_right _ _)
  exact .cons_cons _ (List.nil_sublist _)

namespace Package

variable {p : Package} {d : PackageDescriptor}

/-- The messages of a built package are built from those of the package one by one. -/
theorem builtFrom (h : p.build = .ok d) :
    List.Forall₂ (fun x e => ∃ s : Scope, s.path = x.1 ∧ e.BuiltFrom s x.2) p.messages d.messages :=
  List.rel_flatMap (value_files h).2 fun _ _ hf =>
    (File.builtFrom hf).imp fun _ _ he => ⟨_, rfl, he⟩

/-- No two messages of a package that builds have the same full name. -/
theorem fullName_nodup (h : p.build = .ok d) : (d.messages.map fun e => e.fullName).Nodup := by
  have hnames : p.messages.map (fun x => ".".intercalate x.1) =
      d.messages.map fun e => e.fullName :=
    map_eq_map_of_forall₂ (builtFrom h) fun x e hs => by
      obtain ⟨s, hpath, he⟩ := hs
      rw [he.fullName, hpath]
  have hsub : (p.messages.map fun x => ".".intercalate x.1).Sublist
      ((declaredTypes p.files).map Prod.fst) := by
    rw [map_declaredTypes, messages, List.map_flatMap]
    exact .flatMap_right _ fun f _ => f.fullNames_sublist
  exact hnames ▸ (files_of_build h).1.sublist hsub

theorem converters_eq (h : p.build = .ok d) : d.converters.messages = d.messages.filterMap
    (MessageConverter.ofMessage? p.config.generatedModule
      (ConverterDescriptor.hosts d.messages)) := by
  rw [(value_files h).1]; rfl

/-- **Converters are complete.** In a package that builds, the messages of the descriptor are those
of the package at every depth, in their order. The bound ones, and no others, have one converter
each, in the same order, and it is complete. -/
theorem converters_complete (h : p.build = .ok d) :
    List.Forall₂ (fun x e => e.fullName = ".".intercalate x.1 ∧ e.host = x.2.host ∧
        e.slots = x.2.orderedFields.map fun g => (g.1, g.2.name)) p.messages d.messages ∧
      List.Forall₂ (fun x c => ∃ host, x.2.host = some host ∧ c.Completes x.1.2 x.2 host)
        ((p.messages.zip d.messages).filter fun x => x.2.host.isSome) d.converters.messages ∧
      (d.converters.messages.map MessageConverter.message).Nodup := by
  have hbuilt := builtFrom h
  refine ⟨hbuilt.imp fun x e hs => ?_, ?_, ?_⟩
  · obtain ⟨s, hpath, he⟩ := hs
    exact ⟨hpath ▸ he.fullName, he.host, he.slots_eq⟩
  · have hzip : (p.messages.zip d.messages).map Prod.snd = d.messages :=
      List.map_snd_zip hbuilt.length_eq.ge
    have hall := MessageConverter.forall₂_ofMessage?
      (R := fun x c => ∃ host, x.2.host = some host ∧ c.Completes x.1.2 x.2 host)
      p.config.generatedModule (ConverterDescriptor.hosts d.messages) (p.messages.zip d.messages)
      fun x hx host hhost => by
        obtain ⟨s, -, he⟩ := List.forall₂_zip hbuilt hx
        exact ⟨host, hhost, MessageConverter.completes_ofBound he hhost⟩
    rwa [hzip, ← converters_eq h] at hall
  · rw [converters_eq h]
    exact (fullName_nodup h).sublist (MessageConverter.messages_sublist _)

/-- A bound message with a bound and an unbound one nested in it: the two bound ones have converters,
and what only the outer one or only its record has is ignored. -/
theorem converters_complete_nested :
    let text (name : String) : Field := .leaf { head := { name }, type := .string {} }
    let line : Message := {
      name := "Line", fields := [(1, text "sku")],
      host := some { typePath := "shop::Line", fields := [⟨"sku", "String"⟩] } }
    let order : Message := {
      name := "Order", fields := [(3, text "total"), (1, text "id")],
      oneofs := [{ name := "ref", choices := [(2, text "note")] }],
      host := some { typePath := "shop::Order", fields :=
        [⟨"cache", "u8"⟩, ⟨"note", "Option<String>"⟩, ⟨"id", "String"⟩] },
      ignored := .ofList ["cache", "total"], messages := [{ name := "Free" }, line] }
    let p : Package := {
      config := { package := "shop" }, files := [{ name := "a.proto", messages := [order] }] }
    ∃ d, p.build = .ok d ∧
      d.converters.messages.map (fun c => (c.message, c.fields.map (·.hostField), c.defaulted)) =
        [("Order", ["id", "note"], ["cache"]), ("Order.Line", ["sku"], [])] ∧
      List.Forall₂ (fun x c => ∃ host, x.2.host = some host ∧ c.Completes x.1.2 x.2 host)
        ((p.messages.zip d.messages).filter fun x => x.2.host.isSome) d.converters.messages := by
  intro text line order p
  obtain ⟨d, hd, hsummary⟩ : ∃ d, p.build = .ok d ∧
      d.converters.messages.map (fun c => (c.message, c.fields.map (·.hostField), c.defaulted)) =
        [("Order", ["id", "note"], ["cache"]), ("Order.Line", ["sku"], [])] :=
    exists_ok_of_summary (by decide)
  exact ⟨d, hd, hsummary, (converters_complete hd).2.1⟩

end Package
end WireSchema

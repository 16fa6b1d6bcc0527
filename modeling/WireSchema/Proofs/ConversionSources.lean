import WireSchema.Proofs.HostTypes

/-!
# What conversions stand for

Each converter of a package belongs to a message that is bound to a host record. Each conversion in
it stands for one field of this message, and for the field of the record that has its name.

* `MessageConverter.BelongsTo`, `FieldConversion.Joins`: these two relations.
* `Package.exists_joins`: the converters of a package that builds are related to its messages, and
  their conversions to fields; a conversion is the one of what its field is built to, and the
  message has passed its checks.
-/

namespace WireSchema

/-- The converter of the message `x`, which stands at its path and is bound to `host`. -/
structure MessageConverter.BelongsTo (c : MessageConverter) (module : String)
    (x : List String × FlatMessage) (host : HostRecord) : Prop where
  message : c.message = ".".intercalate x.1
  generated : c.generated = HostCode.typePath module (".".intercalate x.1)
  bound : x.2.host = some host
  typePath : c.host = host.typePath

/-- The conversion of the field `y` of the message `m`: it joins this field and the field of the
host record that has its name. -/
structure FieldConversion.Joins (fc : FieldConversion) (m : FlatMessage) (host : HostRecord)
    (y : PlacedField) : Prop where
  field : y ∈ m.placedFields
  messageField : fc.messageField = y.field.name
  hostField : fc.hostField = y.field.name
  shared : y.field.name ∈ host.names
  oneof : fc.oneof = y.oneof

namespace Package

variable {p : Package} {d : PackageDescriptor}

/-- A built message is built from a message of some file, in the scope inside of it. -/
theorem exists_builtFrom (h : p.build = .ok d) {e : FlatMessageDescriptor}
    (he : e ∈ d.messages) : ∃ f ∈ p.files, ∃ x ∈ Message.flattenAll [] f.messages,
      e.BuiltFrom { p.fileScope f with path := x.1 } x.2 := by
  obtain ⟨fd, hfd, he⟩ := List.mem_flatMap.1 he
  obtain ⟨f, hf, hbuilt⟩ := exists_of_forall₂_right (value_files h).2 hfd
  obtain ⟨x, hx, hxe⟩ := exists_of_forall₂_right (File.builtFrom hbuilt) he
  exact ⟨f, hf, x, hx, hxe⟩

/-- **Conversions stand for fields.** -/
theorem exists_joins (h : p.build = .ok d) {c : MessageConverter}
    (hc : c ∈ d.converters.messages) : ∃ f ∈ p.files, ∃ x ∈ Message.flattenAll [] f.messages,
      ∃ host, c.BelongsTo p.config.generatedModule x host ∧ x.2.WellNumbered ∧ x.2.drift = [] ∧
        ∀ fc ∈ c.fields, ∃ y, fc.Joins x.2 host y ∧
          ∃ g, (y.build { p.fileScope f with path := x.1 }).value = some g ∧ fc.conversion =
            .ofField p.config.generatedModule (ConverterDescriptor.hosts d.messages) g := by
  rw [converters_eq h] at hc
  obtain ⟨e, he, hc⟩ := List.mem_filterMap.1 hc
  obtain ⟨host, hhost, rfl⟩ := Option.map_eq_some_iff.1 hc
  obtain ⟨f, hf, x, hx, hbuilt⟩ := exists_builtFrom h he
  have hbelongs : (MessageConverter.ofBound p.config.generatedModule
      (ConverterDescriptor.hosts d.messages) e host).BelongsTo p.config.generatedModule x host :=
    ⟨hbuilt.fullName, congrArg (HostCode.typePath _) hbuilt.fullName, hbuilt.host ▸ hhost, rfl⟩
  refine ⟨f, hf, x, hx, host, hbelongs, hbuilt.wellNumbered, hbuilt.drift, fun fc hfc => ?_⟩
  obtain ⟨g, hg, hshared, rfl⟩ := MessageConverter.mem_conversions_iff.1 hfc
  rw [← FlatMessageDescriptor.map_placedFields] at hg
  obtain ⟨z, hz, rfl⟩ := List.mem_map.1 hg
  obtain ⟨y, hy, -, hvalue⟩ := exists_of_forall₂_right hbuilt.placedFields hz
  obtain ⟨hname, -⟩ := PlacedField.name_number_of_value hvalue
  have honeof := (PlacedField.inPlace hvalue _ List.mem_cons_self).oneof_eq
  exact ⟨y, ⟨hy, hname, hname, hname ▸ hshared, honeof⟩, z.2, hvalue, rfl⟩

end Package

end WireSchema

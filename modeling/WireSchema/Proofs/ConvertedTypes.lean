import WireSchema.Proofs.ConversionSources

/-!
# The types that conversions join

A conversion moves values between a host field and the field of the message that has its name. The
check for drift compares the types of the two. It passes over the names that the message ignores,
and a conversion does not.

* `FlatMessage.type_of_drift`: in a message without drift, a host field that is not ignored has the
  type that its schema field expects, apart from blanks.
* `Package.converted_types`: so a conversion joins fields of one type, unless its message skips the
  check or ignores its name.
* `Package.converted_types_ignored`: a package that builds with a conversion between two types.
-/

namespace WireSchema

namespace FlatMessage

variable {m : FlatMessage} {host : HostRecord}

/-- **Types without drift.** A host field that is checked has the expected type. -/
theorem type_of_drift (hnumbered : m.WellNumbered) (hhost : m.host = some host)
    (hskip : m.skipHostCheck = false) (hdrift : m.drift = []) {f : HostField}
    (hf : f ∈ host.fields) (hignored : f.name ∉ m.ignored) {type : String}
    (htype : (f.name, type) ∈ m.expectedTypes) :
    Text.stripBlanks f.type = Text.stripBlanks type := by
  simp only [drift, hhost, hskip, Bool.false_eq_true, if_false, driftFrom,
    List.append_eq_nil_iff, List.flatMap_eq_nil_iff] at hdrift
  have hchecked : f ∈ host.fields.filter fun g => !m.ignored.contains g.name :=
    List.mem_filter.2 ⟨hf, StringSet.not_contains_iff.2 hignored⟩
  have hclear := hdrift.1 f hchecked
  rw [hostFieldDrift_of_mem (expectedTypes_nodup hnumbered) htype f.type] at hclear
  by_cases hsame : sameType type f.type = true
  · exact (eq_of_beq hsame).symm
  · rw [if_neg hsame] at hclear
    cases hclear

end FlatMessage

namespace Package

variable {p : Package} {d : PackageDescriptor}

/-- **Conversions join fields of one type.** In a package that builds, every converter belongs to a
bound message, and every conversion in it joins a field of the message, for which the check for
drift expects one type, with one of its record. If the message neither skips the check nor ignores
the name, all host fields of this name have that type, apart from blanks. -/
theorem converted_types (h : p.build = .ok d) :
    ∀ c ∈ d.converters.messages, ∃ f ∈ p.files, ∃ x ∈ Message.flattenAll [] f.messages, ∃ host,
      c.BelongsTo p.config.generatedModule x host ∧ ∀ fc ∈ c.fields, ∃ y, fc.Joins x.2 host y ∧
        (∀ type, (fc.messageField, type) ∈ x.2.expectedTypes ↔ type = y.expectedType) ∧
        (∃ g ∈ host.fields, g.name = fc.hostField) ∧
        (x.2.skipHostCheck = false → fc.hostField ∉ x.2.ignored → ∀ g ∈ host.fields,
          g.name = fc.hostField → Text.stripBlanks g.type = Text.stripBlanks y.expectedType) := by
  intro c hc
  obtain ⟨f, hf, x, hx, host, hbelongs, hnumbered, hdrift, hfields⟩ := exists_joins h hc
  refine ⟨f, hf, x, hx, host, hbelongs, fun fc hfc => ?_⟩
  obtain ⟨y, hjoins, -⟩ := hfields fc hfc
  have htypes : ∀ type, (y.field.name, type) ∈ x.2.expectedTypes ↔ type = y.expectedType :=
    fun _ => FlatMessage.mem_expectedTypes_iff hnumbered hjoins.field
  refine ⟨y, hjoins, hjoins.messageField ▸ htypes, ?_, fun hskip hignored g hg hname => ?_⟩
  · rw [hjoins.hostField]
    exact List.mem_map.1 hjoins.shared
  · refine FlatMessage.type_of_drift hnumbered hbelongs.bound hskip hdrift hg (hname ▸ hignored) ?_
    rw [hname, hjoins.hostField]
    exact (htypes _).2 rfl

/-- A choice with blanks in its host type, beside a host field of another type that is ignored: the
message is checked, and the conversions join fields of one type. -/
theorem converted_types_blanks :
    let text (name : String) : Field := .leaf { head := { name }, type := .string {} }
    let user : Message := {
      name := "User", fields := [(1, text "id")],
      oneofs := [{ name := "contact", choices := [(2, text "email")] }],
      host := some { typePath := "shop::User", fields := [⟨"id", "String"⟩, ⟨"cache", "u8"⟩,
        ⟨"email", "Option < String >"⟩] },
      ignored := .ofList ["cache"] }
    let p : Package := {
      config := { package := "shop" }, files := [{ name := "a.proto", messages := [user] }] }
    ∃ d, p.build = .ok d ∧
      d.converters.messages.map (fun c => c.fields.map fun f => (f.hostField, f.conversion)) =
        [[("id", .direct), ("email", .optional .direct)]] ∧
      ∀ c ∈ d.converters.messages, ∃ f ∈ p.files, ∃ x ∈ Message.flattenAll [] f.messages, ∃ host,
        c.BelongsTo p.config.generatedModule x host ∧ ∀ fc ∈ c.fields, ∃ y, fc.Joins x.2 host y ∧
          (∀ type, (fc.messageField, type) ∈ x.2.expectedTypes ↔ type = y.expectedType) ∧
          (∃ g ∈ host.fields, g.name = fc.hostField) ∧
          (x.2.skipHostCheck = false → fc.hostField ∉ x.2.ignored → ∀ g ∈ host.fields,
            g.name = fc.hostField →
              Text.stripBlanks g.type = Text.stripBlanks y.expectedType) := by
  intro text user p
  obtain ⟨d, hd, hconversions⟩ : ∃ d, p.build = .ok d ∧
      d.converters.messages.map (fun c => c.fields.map fun f => (f.hostField, f.conversion)) =
        [[("id", .direct), ("email", .optional .direct)]] :=
    exists_ok_of_summary (by decide +kernel)
  exact ⟨d, hd, hconversions, converted_types hd⟩

/-- **Ignored names are converted.** This package builds although the host holds a number where the
message expects a string: the name is ignored, and its value is still converted. -/
theorem converted_types_ignored :
    let id : Field := .leaf { head := { name := "id" }, type := .string {} }
    let user : Message := {
      name := "User", fields := [(1, id)],
      host := some { typePath := "shop::User", fields := [⟨"id", "i64"⟩] },
      ignored := .ofList ["id"] }
    let p : Package := {
      config := { package := "shop" }, files := [{ name := "a.proto", messages := [user] }] }
    (∃ d, p.build = .ok d ∧
      d.converters.messages.map (fun c => c.fields.map fun f => (f.hostField, f.conversion)) =
        [[("id", .direct)]]) ∧
    user.skipHostCheck = false ∧ user.toFlatMessage.expectedTypes = [("id", "String")] ∧
    Text.stripBlanks "i64" ≠ Text.stripBlanks "String" := by
  intro id user p
  exact ⟨exists_ok_of_summary (by decide +kernel), rfl, by decide, by decide⟩

end Package

end WireSchema

import WireSchema.HostCode.Converter
import WireSchema.Proofs.ConversionSources
import WireSchema.Proofs.HostPaths
import WireSchema.Proofs.Spelling

/-!
# Identifiers in host code

The code that converts a package is made of names of the package, recased and escaped in a way that
depends on what they stand for. Fields are escaped after they are recased, so they come out legal
unless they are called `_`. Types and the modules around them are not escaped: a name may become a
keyword, and one that has no letter behind its first underscores is left without a legal start.

* `HostCode.Legal`: what the host language takes for an identifier.
* `HostCode.Role.legal_iff`: which names have a legal form in which role.
* `Package.host_identifiers`: the identifiers in the paths of all types of a package, and in the
  fields, oneofs and variants of its conversions, are legal just when their names suit their roles.
* `Package.host_identifiers_keyword`: a package that builds with an illegal path.
-/

namespace WireSchema

namespace HostCode

/-! ## Legal identifiers -/

/-- The strict keywords of the host language. -/
def strictKeywords : List String :=
  ["as", "break", "const", "continue", "crate", "else", "enum", "extern", "false", "fn", "for",
   "if", "impl", "in", "let", "loop", "match", "mod", "move", "mut", "pub", "ref", "return",
   "self", "Self", "static", "struct", "super", "trait", "true", "type", "unsafe", "use", "where",
   "while", "async", "await", "dyn"]

/-- A legal identifier: no lone underscore, and no keyword unless it is written in raw form, which
the keywords that begin paths do not have. -/
inductive Legal : String → Prop where
  | plain {s : String} (identifier : Name.isIdentifier s = true) (named : s ≠ "_")
    (free : s ∉ strictKeywords) : Legal s
  | raw {s : String} (identifier : Name.isIdentifier s = true) (named : s ≠ "_")
    (place : s ∉ ["crate", "self", "super", "Self"]) : Legal ("r#" ++ s)

/-- The keywords that are escaped are those of the language. -/
theorem mem_keywords_iff {s : String} : s ∈ keywords ↔ s ∈ strictKeywords := by
  have hperm : keywords.Perm strictKeywords := by decide
  exact hperm.mem_iff

/-- No character of a raw form is part of an identifier, so other texts are legal as they are. -/
theorem legal_iff_of_isPart {s : String} (h : ∀ c ∈ s.toList, Name.isPart c = true) :
    Legal s ↔ Name.isIdentifier s = true ∧ s ≠ "_" ∧ s ∉ strictKeywords := by
  constructor
  · rintro (⟨hs, hne, hfree⟩ | ⟨-, -, -⟩)
    · exact ⟨hs, hne, hfree⟩
    · have hmark := h '#' (by simp)
      exact absurd hmark (by decide)
  · exact fun ⟨hs, hne, hfree⟩ => .plain hs hne hfree

theorem legal_iff {s : String} (h : Name.isIdentifier s = true) :
    Legal s ↔ s ≠ "_" ∧ s ∉ strictKeywords := by
  rw [legal_iff_of_isPart (Name.isPart_of_isIdentifier h), and_iff_right h]

/-- **Escaped identifiers.** An identifier is legal once it is escaped, unless it is `_`. -/
theorem legal_identifier_iff {n : String} (h : Name.isIdentifier n = true) :
    Legal (identifier n) ↔ n ≠ "_" := by
  unfold identifier
  split
  · next hpath =>
    have hmem := List.contains_iff_mem.1 hpath
    have hlegal : ∀ k ∈ pathKeywords, Name.isIdentifier (k ++ "_") = true ∧ k ++ "_" ≠ "_" ∧
        k ++ "_" ∉ strictKeywords ∧ k ≠ "_" := by decide
    obtain ⟨hid, hne, hfree, hname⟩ := hlegal n hmem
    exact iff_of_true (.plain hid hne hfree) hname
  · next hpath =>
    have hperm : pathKeywords.Perm ["crate", "self", "super", "Self"] := by decide
    have hplace : n ∉ ["crate", "self", "super", "Self"] := fun hmem =>
      hpath (List.contains_iff_mem.2 (hperm.mem_iff.2 hmem))
    split
    · next hkeyword =>
      have hne : n ≠ "_" := by
        rintro rfl
        revert hkeyword; decide
      exact iff_of_true (.raw h hne hplace) hne
    · next hkeyword =>
      rw [legal_iff h, ← mem_keywords_iff]
      exact and_iff_left fun hmem => hkeyword (List.contains_iff_mem.2 hmem)

/-! ## Names in their roles -/

/-- What a name of the schema is written as. -/
inductive Role where
  /-- A message as the module around the types nested in it. -/
  | module
  /-- A message or an enum as a type, a oneof as a type, a choice as a variant of it. -/
  | type
  /-- A message as the module that its oneofs live in. -/
  | nested
  /-- A field or a oneof as a field of the generated message. -/
  | field
  /-- A field as a field of the host record. -/
  | hostField
  /-- A choice as the local that holds it until the host record is put together. -/
  | choiceLocal
deriving DecidableEq, Repr

namespace Role

/-- The identifier that a name becomes. -/
def identifier : Role → String → String
  | module, n => Text.toSnakeCase n
  | type, n => Text.toPascalCase n
  | nested, n => Text.toSnakeCase (Text.toPascalCase n)
  | field, n => HostCode.messageField n
  | hostField, n => HostCode.identifier n
  | choiceLocal, n => "oneof_" ++ n

/-- The name has a legal form in this role. -/
def Suits : Role → String → Prop
  | module, n => n ≠ "_" ∧ Text.toSnakeCase n ∉ strictKeywords
  | type, n => Name.startsWithLetter n = true ∧ Text.toPascalCase n ≠ "Self"
  | nested, n => Name.startsWithLetter n = true ∧
      Text.toSnakeCase (Text.toPascalCase n) ∉ strictKeywords
  | field, n | hostField, n => n ≠ "_"
  | choiceLocal, _ => True

instance : (r : Role) → (n : String) → Decidable (r.Suits n)
  | module, n => inferInstanceAs (Decidable (n ≠ "_" ∧ Text.toSnakeCase n ∉ strictKeywords))
  | type, n => inferInstanceAs
      (Decidable (Name.startsWithLetter n = true ∧ Text.toPascalCase n ≠ "Self"))
  | nested, n => inferInstanceAs (Decidable (Name.startsWithLetter n = true ∧
      Text.toSnakeCase (Text.toPascalCase n) ∉ strictKeywords))
  | field, n | hostField, n => inferInstanceAs (Decidable (n ≠ "_"))
  | choiceLocal, _ => inferInstanceAs (Decidable True)

variable {n : String} (h : Name.isIdentifier n = true)

include h

theorem legal_module_iff : Legal (module.identifier n) ↔ module.Suits n := by
  have hparts := Name.isPart_of_isIdentifier h
  have hsnake : Name.isIdentifier (Text.toSnakeCase n) = true :=
    (Name.isIdentifier_toSnakeCase hparts).2 h
  rw [identifier, legal_iff hsnake, Suits, Ne, Text.toSnakeCase_eq_underscore_iff hparts]

/-- A type begins with a capital, as no keyword but `Self` does. -/
theorem legal_type_iff : Legal (type.identifier n) ↔ type.Suits n := by
  have hparts := Name.isPart_of_isIdentifier h
  have hpascal := Text.isLetterOrDigit_toPascalCase hparts
  rw [identifier, legal_iff_of_isPart fun c hc => (hpascal c hc).1,
    Name.isIdentifier_toPascalCase hparts, Suits]
  refine and_congr_right fun hletter => ?_
  have hnamed : Text.toPascalCase n ≠ "_" := fun he =>
    (hpascal '_' (by rw [he]; decide)).2 rfl
  have hsmall : ∀ k ∈ strictKeywords, k ≠ "Self" → k.toList.head?.any Char.isUpper = false := by
    decide
  rw [and_iff_right hnamed]
  refine not_congr ⟨fun hmem => ?_, fun he => he ▸ by decide⟩
  by_contra hself
  have hcapital := Name.isUpper_head_toPascalCase hparts hletter
  rw [hsmall _ hmem hself] at hcapital
  cases hcapital

theorem legal_nested_iff : Legal (nested.identifier n) ↔ nested.Suits n := by
  have hparts := Name.isPart_of_isIdentifier h
  have hpascal := Text.isLetterOrDigit_toPascalCase hparts
  have hpascalParts : ∀ c ∈ (Text.toPascalCase n).toList, Name.isPart c = true :=
    fun c hc => (hpascal c hc).1
  rw [identifier, legal_iff_of_isPart (Text.isPart_toSnakeCase hpascalParts),
    Name.isIdentifier_toSnakeCase hpascalParts, Name.isIdentifier_toPascalCase hparts, Suits,
    Ne, Text.toSnakeCase_eq_underscore_iff hpascalParts]
  have hnamed : Text.toPascalCase n ≠ "_" := fun he =>
    (hpascal '_' (by rw [he]; decide)).2 rfl
  rw [and_iff_right hnamed]

theorem legal_field_iff : Legal (field.identifier n) ↔ field.Suits n := by
  have hparts := Name.isPart_of_isIdentifier h
  have hsnake : Name.isIdentifier (Text.toSnakeCase n) = true :=
    (Name.isIdentifier_toSnakeCase hparts).2 h
  rw [identifier, messageField, legal_identifier_iff hsnake, Suits, Ne,
    Text.toSnakeCase_eq_underscore_iff hparts]

/-- No keyword has an underscore. -/
theorem legal_choiceLocal : Legal (choiceLocal.identifier n) := by
  have hkeywords : ∀ k ∈ strictKeywords, '_' ∉ k.toList := by decide
  have hchars : ("oneof_" ++ n).toList = 'o' :: ("neof_".toList ++ n.toList) := by simp
  have hid : Name.isIdentifier ("oneof_" ++ n) = true := by
    have hprefix : ("neof_".toList).all Name.isPart = true := by decide
    have hname : n.toList.all Name.isPart = true :=
      List.all_eq_true.2 (Name.isPart_of_isIdentifier h)
    rw [Name.isIdentifier, hchars, Name.identifierChars, List.all_append, hprefix, hname]
    decide
  show Legal ("oneof_" ++ n)
  refine .plain hid (fun he => ?_) fun hmem => hkeywords _ hmem ?_
  · have hlen := congrArg String.toList he
    rw [hchars] at hlen
    exact absurd (List.cons.inj hlen).1 (by decide)
  · rw [hchars]
    simp

/-- **Legal forms.** A name of the schema has a legal form in a role just when it suits it. -/
theorem legal_iff (r : Role) : Legal (r.identifier n) ↔ r.Suits n := by
  cases r with
  | module => exact legal_module_iff h
  | type => exact legal_type_iff h
  | nested => exact legal_nested_iff h
  | field => exact legal_field_iff h
  | hostField => exact legal_identifier_iff h
  | choiceLocal => exact iff_of_true (legal_choiceLocal h) trivial

end Role

/-! ## Names in paths -/

/-- The names in the path of a message or an enum: the messages around it as modules, and its own
name in the role that it has at the end. -/
def pathUses (last : Role) (path : List String) : List (Role × String) :=
  path.dropLast.map (.module, ·) ++ path.getLast?.toList.map (last, ·)

/-- The segments that names become. -/
def segments (uses : List (Role × String)) : List String := uses.map fun u => u.1.identifier u.2

/-- The text is the path that has these names as segments behind the module. An empty module may be
left out. Each segment is legal just when its name suits its role. -/
structure WritesPath (module : String) (uses : List (Role × String)) (text : String) : Prop where
  text : text = inModules module (segments uses) ∨
    (module = "" ∧ text = "::".intercalate (segments uses))
  legal : ∀ u ∈ uses, Legal (u.1.identifier u.2) ↔ u.1.Suits u.2

theorem segments_pathUses (last : Role) (around : List String) (name : String) :
    segments (pathUses last (around ++ [name])) =
      around.map Text.toSnakeCase ++ [last.identifier name] := by
  simp [segments, pathUses, Role.identifier, Function.comp_def]

theorem legal_pathUses {path : List String} (hpath : ∀ n ∈ path, Name.isIdentifier n = true)
    (last : Role) : ∀ u ∈ pathUses last path, Legal (u.1.identifier u.2) ↔ u.1.Suits u.2 := by
  intro u hu
  refine Role.legal_iff (hpath u.2 ?_) u.1
  rcases List.mem_append.1 hu with hu | hu
  · obtain ⟨n, hn, rfl⟩ := List.mem_map.1 hu
    exact List.dropLast_subset path hn
  · obtain ⟨n, hn, rfl⟩ := List.mem_map.1 hu
    exact List.mem_of_getLast? (Option.mem_toList.1 hn)

section

variable {path : List String} (hne : path ≠ []) (hpath : ∀ n ∈ path, Name.isIdentifier n = true)

include hne hpath

theorem writesPath_type (module : String) :
    WritesPath module (pathUses .type path) (typePath module (".".intercalate path)) := by
  refine ⟨.inl ?_, legal_pathUses hpath .type⟩
  obtain ⟨around, name, rfl⟩ := (List.eq_nil_or_concat' path).resolve_left hne
  rw [segments_pathUses, typePath_intercalate module hpath]
  rfl

/-- The module inside a message is named after the generated type, so its name is recased twice. -/
theorem writesPath_nested (module : String) : WritesPath module (pathUses .nested path)
    (nestedModule (typePath module (".".intercalate path))) := by
  refine ⟨?_, legal_pathUses hpath .nested⟩
  obtain ⟨around, name, rfl⟩ := (List.eq_nil_or_concat' path).resolve_left hne
  have hname : Name.isIdentifier name = true := hpath name (by simp)
  rw [segments_pathUses, typePath_intercalate module hpath, inModules_concat,
    nestedModule_inModule (colon_not_mem_toPascalCase hname), inModules_concat]
  split
  · next hempty =>
    obtain ⟨hmodule, haround⟩ := inModules_eq_empty hempty
    rw [haround]
    exact .inr ⟨hmodule, rfl⟩
  · exact .inl rfl

end

/-- A type inside a path is one segment more. -/
theorem WritesPath.concat {module text : String} {uses : List (Role × String)}
    (h : WritesPath module uses text) (huses : uses ≠ []) {n : String}
    (hn : Name.isIdentifier n = true) :
    WritesPath module (uses ++ [(.type, n)]) (inModule text (Text.toPascalCase n)) := by
  have hsegments : segments (uses ++ [(.type, n)]) = segments uses ++ [Text.toPascalCase n] := by
    simp [segments, Role.identifier]
  refine ⟨?_, fun u hu => ?_⟩
  · rw [hsegments]
    rcases h.text with htext | ⟨hmodule, htext⟩
    · rw [htext, inModules_concat]
      exact .inl rfl
    · have hsome : segments uses ≠ [] := by simpa [segments] using huses
      rw [htext, String.intercalate_append_of_ne_nil hsome (by simp),
        String.intercalate_singleton]
      exact .inr ⟨hmodule, rfl⟩
  · rcases List.mem_append.1 hu with hu | hu
    · exact h.legal u hu
    · rw [List.mem_singleton.1 hu]
      exact Role.legal_iff hn .type

end HostCode

/-! ## Names of a package -/

theorem File.Spelled.flatMessage {f : File} (h : f.Spelled) :
    ∀ x ∈ Message.flattenAll [] f.messages, x.2.Spelled :=
  (Message.forall_flattenAll_iff FlatMessage.Spelled).2 h.messages

theorem File.Spelled.named {f : File} (h : f.Spelled) : f.Named where
  enums e he := (h.enums e he).name
  messages x hx := ⟨(h.flatMessage x hx).name, fun e he => ((h.flatMessage x hx).enums e he).name⟩

/-- A field of a spelled message is spelled, and so is its oneof. -/
theorem FlatMessage.Spelled.placed {m : FlatMessage} (h : m.Spelled) {y : PlacedField}
    (hy : y ∈ m.placedFields) : y.field.Spelled ∧
      ∀ oneof, y.oneof = some oneof → Name.isIdentifier oneof = true := by
  rcases List.mem_append.1 hy with hy | hy
  · obtain ⟨⟨n, f⟩, hf, rfl⟩ := List.mem_map.1 hy
    exact ⟨h.fields _ ((stableSort_perm _ m.fields).mem_iff.1 hf), nofun⟩
  · obtain ⟨o, ho, hy⟩ := List.mem_flatMap.1 hy
    obtain ⟨⟨n, f⟩, hf, rfl⟩ := List.mem_map.1 hy
    refine ⟨(h.oneofs o ho).choices _ ((stableSort_perm _ o.choices).mem_iff.1 hf), ?_⟩
    rintro _ ⟨⟩
    exact (h.oneofs o ho).name

open HostCode in
/-- The identifiers that a conversion writes in the converter `c` of the message at this path: the
fields of the generated message and of the host record that it joins, and for a choice the local
that holds it, the field and the type of its oneof, and its variant. -/
structure FieldConversion.Writes (fc : FieldConversion) (module : String) (c : MessageConverter)
    (path : List String) : Prop where
  field : Legal (HostCode.messageField fc.messageField) ↔ fc.messageField ≠ "_"
  hostField : Legal (HostCode.identifier fc.hostField) ↔ fc.hostField ≠ "_"
  choiceLocal : Legal (HostCode.choiceLocal fc)
  oneofField : ∀ o, fc.oneof = some o → (Legal (HostCode.messageField o) ↔ o ≠ "_")
  oneofPath : ∀ o, fc.oneof = some o →
    WritesPath module (pathUses .nested path ++ [(.type, o)]) (HostCode.oneofPath c.generated o)
  variant : ∀ o, fc.oneof = some o → WritesPath module
    (pathUses .nested path ++ [(.type, o)] ++ [(.type, fc.messageField)]) (HostCode.variant c o fc)

namespace Package

open HostCode

variable {p : Package} {d : PackageDescriptor}

theorem writes_of_joins {module : String} {c : MessageConverter} {f : File} (hf : f.Spelled)
    {x : List String × FlatMessage} (hx : x ∈ Message.flattenAll [] f.messages)
    {host : HostRecord} (hc : c.BelongsTo module x host) {fc : FieldConversion} {y : PlacedField}
    (hfc : fc.Joins x.2 host y) : fc.Writes module c x.1 := by
  obtain ⟨hspelled, hplace⟩ := (hf.flatMessage x hx).placed hfc.field
  have hfield : Name.isIdentifier y.field.name = true := hspelled.head.name
  have honeof : ∀ o, fc.oneof = some o → Name.isIdentifier o = true := hfc.oneof ▸ hplace
  have hdeclared : (x.1, DeclKind.message) ∈ f.declaredPaths :=
    File.mem_declaredPaths.2 (.inr ⟨_, _, hx, .inl ⟨rfl, rfl⟩⟩)
  have hnested : WritesPath module (pathUses .nested x.1) (nestedModule c.generated) :=
    hc.generated ▸ writesPath_nested (File.declaredPath_ne_nil hdeclared)
      (File.isIdentifier_declaredPath hf.named hdeclared) module
  have huses : pathUses .nested x.1 ≠ [] := by
    obtain ⟨around, name, hpath⟩ :=
      (List.eq_nil_or_concat' x.1).resolve_left (File.declaredPath_ne_nil hdeclared)
    simp [pathUses, hpath]
  have htype : ∀ o, fc.oneof = some o →
      WritesPath module (pathUses .nested x.1 ++ [(.type, o)]) (oneofPath c.generated o) :=
    fun o ho => hnested.concat huses (honeof o ho)
  exact {
    field := hfc.messageField ▸ Role.legal_iff hfield .field
    hostField := hfc.hostField ▸ Role.legal_iff hfield .hostField
    choiceLocal := by
      rw [HostCode.choiceLocal, hfc.hostField]
      exact Role.legal_choiceLocal hfield
    oneofField := fun o ho => Role.legal_iff (honeof o ho) .field
    oneofPath := htype
    variant := fun o ho => (htype o ho).concat (by simp) (hfc.messageField ▸ hfield) }

/-- **Identifiers of a package.** In a package that builds, whose names follow their grammars, the
path of every type and every oneof is made of their names, as are the variants and fields of the
conversions. Each identifier is legal just when its name suits the role that it has there. -/
theorem host_identifiers (hp : p.Spelled) (h : p.build = .ok d) :
    (∀ f ∈ p.files, ∀ x ∈ f.declaredPaths, WritesPath p.config.generatedModule
      (pathUses .type x.1) (typePath p.config.generatedModule (".".intercalate x.1))) ∧
    ∀ c ∈ d.converters.messages, ∃ f ∈ p.files, ∃ x ∈ Message.flattenAll [] f.messages, ∃ host,
      c.BelongsTo p.config.generatedModule x host ∧
      ∀ fc ∈ c.fields, fc.Writes p.config.generatedModule c x.1 := by
  refine ⟨fun f hf x hx => ?_, fun c hc => ?_⟩
  · exact writesPath_type (File.declaredPath_ne_nil hx)
      (File.isIdentifier_declaredPath (hp.files f hf).named hx) _
  · obtain ⟨f, hf, x, hx, host, hbelongs, -, -, hfields⟩ := exists_joins h hc
    refine ⟨f, hf, x, hx, host, hbelongs, fun fc hfc => ?_⟩
    obtain ⟨y, hjoins, -⟩ := hfields fc hfc
    exact writes_of_joins (hp.files f hf) hx hbelongs hjoins

/-- A bound message inside another one, with a field that is a keyword and a choice: its names
follow their grammars, and the converter and the identifiers in it are written as stated. -/
theorem host_identifiers_nested :
    let text (name : String) : Field := .leaf { head := { name }, type := .string {} }
    let line : Message := {
      name := "OrderLine", fields := [(1, text "type")],
      oneofs := [{ name := "unit_price", choices := [(2, text "netAmount")] }],
      host := some { typePath := "shop::Line", fields := [⟨"type", "String"⟩,
        ⟨"netAmount", "Option<String>"⟩] } }
    let p : Package := {
      config := { package := "shop" }, files := [{ name := "a.proto", messages := [
        { name := "PurchaseOrder", messages := [line] }] }] }
    p.Spelled ∧ ∃ d, p.build = .ok d ∧
      d.converters.messages.map (fun c => c.fields.map fun fc =>
          fc.oneof.map fun o => variant c o fc) =
        [[none, some "crate::pb::purchase_order::order_line::UnitPrice::NetAmount"]] ∧
      (∀ f ∈ p.files, ∀ x ∈ f.declaredPaths, WritesPath p.config.generatedModule
        (pathUses .type x.1) (typePath p.config.generatedModule (".".intercalate x.1))) ∧
      ∀ c ∈ d.converters.messages, ∃ f ∈ p.files, ∃ x ∈ Message.flattenAll [] f.messages, ∃ host,
        c.BelongsTo p.config.generatedModule x host ∧
        ∀ fc ∈ c.fields, fc.Writes p.config.generatedModule c x.1 := by
  intro text line p
  have hp : p.Spelled := by decide
  obtain ⟨d, hd, hconverters⟩ : ∃ d, p.build = .ok d ∧
      d.converters.messages.map (fun c => c.fields.map fun fc =>
          fc.oneof.map fun o => variant c o fc) =
        [[none, some "crate::pb::purchase_order::order_line::UnitPrice::NetAmount"]] :=
    exists_ok_of_summary (by decide +kernel)
  exact ⟨hp, d, hd, hconverters, host_identifiers hp hd⟩

/-- **A keyword in a path.** This package builds, and the path of its bound message `Type.Line` has
a keyword as a segment. -/
theorem host_identifiers_keyword :
    let line : Message := {
      name := "Line", fields := [(1, .leaf { head := { name := "id" }, type := .string {} })],
      host := some { typePath := "shop::Line", fields := [⟨"id", "String"⟩] } }
    let p : Package := {
      config := { package := "shop" }, files := [{ name := "a.proto", messages := [
        { name := "Type", messages := [line] }] }] }
    p.Spelled ∧
      (∃ d, p.build = .ok d ∧ d.converters.messages.map (·.generated) = ["crate::pb::type::Line"]) ∧
      segments (pathUses .type ["Type", "Line"]) = ["type", "Line"] ∧ ¬ Legal "type" := by
  intro line p
  refine ⟨by decide, exists_ok_of_summary (by decide +kernel), by decide +kernel, ?_⟩
  intro hlegal
  exact ((legal_iff (by decide)).1 hlegal).2 (by decide)

end Package

end WireSchema

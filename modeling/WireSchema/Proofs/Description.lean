import WireSchema.Proofs.Nesting

/-!
# What a descriptor says about its source

When a file builds, the fields of its descriptor stand for those of the file one by one.

* `Field.describes`: a built field has the resolved references of the field it is built from, and
  asks for their imports, those of its heads, and the one of the validation extension if it has
  rules.
* `Message.described`, `File.described`: the same for every field of a message or a file, by
  induction over what is nested.
* `FileDescriptor.Describes.references`: each reference of a file that builds resolves where it
  stands, to the type that the descriptor holds in its place.
-/

namespace WireSchema

/-! ## Built fields -/

/-- The descriptor holds what the references of the field resolve to, and asks for the imports of
these, of the heads of the field, and of the validation extension if it has rules. -/
structure FieldDescriptor.Describes (s : Scope) (f : Field) (d : FieldDescriptor) : Prop where
  references : List.Forall₂ (fun r t => r.resolve s = .ok t) (f.references s.path) d.kind.references
  mem_imports : ∀ p, p ∈ d.imports ↔ (∃ t ∈ d.kind.references, t.importPath = some p)
    ∨ (∃ h ∈ f.heads, p ∈ h.imports) ∨ (p = s.validateImport ∧ d.rules ≠ [])

/-- Whatever comes out describes the field, and has the imports of the outcome. -/
def Built.Describes (x : Built FieldDescriptor) (s : Scope) (f : Field) : Prop :=
  ∀ d, x.value = some d → d.Describes s f ∧ x.imports = d.imports

theorem FieldContent.value_build {c : FieldContent} {s : Scope} {n : Nat} {h : FieldHead}
    {d : FieldDescriptor} (hv : (c.build s n h).value = some d) : d = c.descriptor s n h := by
  simp only [build, Built.value_importing, Built.value_map, Option.map_eq_some_iff] at hv
  obtain ⟨_, _, rfl⟩ := hv
  rfl

theorem FieldContent.imports_build (c : FieldContent) (s : Scope) (n : Nat) (h : FieldHead) :
    (c.build s n h).imports = c.imports s h := by
  simp [build]

theorem FieldContent.mem_imports {c : FieldContent} {s : Scope} {h : FieldHead} {p : String} :
    p ∈ c.imports s h ↔
      p ∈ c.kind.imports ∨ p ∈ h.imports ∨ (p = s.validateImport ∧ c.allRules h ≠ []) := by
  unfold imports
  cases hr : c.allRules h with
  | nil => simp
  | cons r rs => simp; tauto

theorem FieldContent.kind_union_imports (c : FieldContent) (s : Scope) (h : FieldHead) :
    c.kind.imports ∪ c.imports s h = c.imports s h :=
  StringSet.ext fun p => by simp only [StringSet.mem_union, mem_imports]; tauto

/-- A leaf type without a reference has none when it is built, one with a reference has what this
resolves to. -/
theorem LeafType.references_wireKind {s : Scope} {t : LeafType} {k : WireKind}
    (h : t.wireKind s = .ok k) :
    List.Forall₂ (fun x r => s.resolve x.1 x.2 = .ok r) t.reference?.toList k.references := by
  have href : ∀ {x : Except Violation TypeRef} {make : TypeRef → WireKind},
      (∀ r, (make r).references = [r]) → x.map make = .ok k →
        ∃ r, x = .ok r ∧ k.references = [r] := by
    intro x make hmake hx
    cases x with
    | error v => cases hx
    | ok r => cases hx; exact ⟨r, rfl, hmake r⟩
  unfold wireKind at h
  split at h <;> simp only [reference?, Option.toList_none, Option.toList_some]
  all_goals first
    | cases h; exact .nil
    | obtain ⟨r, hr, hk⟩ := href (fun _ => rfl) h
      rw [hk]; exact .cons hr .nil

theorem LeafType.isLeaf_wireKind {s : Scope} {t : LeafType} {k : WireKind}
    (h : t.wireKind s = .ok k) : k.isLeaf = true := by
  unfold wireKind at h
  split at h
  iterate 4 cases h; rfl
  all_goals
    cases hr : s.resolve _ _ with
    | error v => rw [hr] at h; cases h
    | ok r => rw [hr] at h; cases h; rfl

theorem LeafType.mem_imports_wireKind {s : Scope} {t : LeafType} {k : WireKind}
    (h : t.wireKind s = .ok k) {p : String} :
    p ∈ k.imports ↔ ∃ r ∈ k.references, r.importPath = some p := by
  have hleaf := isLeaf_wireKind h
  cases k with
  | scalar _ => simp [WireKind.imports, WireKind.references]
  | enum t | message t => simp [WireKind.imports, WireKind.references]
  | repeated _ | map _ _ => cases hleaf

theorem LeafField.describes (s : Scope) (n : Nat) (f : LeafField) :
    (f.build s n).Describes s (.leaf f) := by
  intro d hd
  unfold build at hd ⊢
  cases hk : f.type.wireKind s with
  | error v => rw [hk] at hd; cases hd
  | ok k =>
    rw [hk] at hd
    obtain rfl := FieldContent.value_build hd
    refine ⟨⟨?_, fun p => ?_⟩, FieldContent.imports_build _ s n _⟩
    · exact List.forall₂_map_left_iff.2 (LeafType.references_wireKind hk)
    · have hkind := LeafType.mem_imports_wireKind hk (p := p)
      show p ∈ FieldContent.imports _ s f.head ↔ _
      rw [FieldContent.mem_imports, hkind]
      simp [Field.heads, FieldContent.descriptor]

theorem Built.Describes.of_withoutPresence {x : Built FieldDescriptor} {s : Scope} {f : Field}
    (h : x.Describes s f.withoutPresence) : x.Describes s f := by
  intro d hd
  obtain ⟨hdesc, himports⟩ := h d hd
  exact ⟨⟨by simpa using hdesc.references, by simpa using hdesc.mem_imports⟩, himports⟩

/-- A composite describes its field when its elements describe theirs, and it has rules if one of
them has. -/
theorem FieldContent.describes_of_elements {c : FieldContent} {s : Scope} {n : Nat}
    {head : FieldHead} {f : Field} (elements : List (Field × FieldDescriptor))
    (hrefs : f.references s.path = elements.flatMap fun x => x.1.references s.path)
    (hheads : f.heads = head :: elements.flatMap fun x => x.1.heads)
    (hkind : c.kind.references = elements.flatMap fun x => x.2.kind.references)
    (himports : ∀ p, p ∈ c.kind.imports ↔ ∃ x ∈ elements, p ∈ x.2.imports)
    (hrules : (∃ x ∈ elements, x.2.rules ≠ []) → c.allRules head ≠ [])
    (h : ∀ x ∈ elements, x.2.Describes s x.1) : (c.descriptor s n head).Describes s f := by
  have hown : (c.descriptor s n head).kind = c.kind := rfl
  refine ⟨?_, fun p => ?_⟩
  · have hsame : List.Forall₂ (fun x y => List.Forall₂ (fun r t => r.resolve s = .ok t)
        (x.1.references s.path) y.2.kind.references) elements elements :=
      List.forall₂_same.2 fun x hx => (h x hx).references
    rw [hrefs, hown, hkind]
    exact List.rel_flatMap hsame fun _ _ hx => hx
  · have hp : p ∈ c.kind.imports ↔ ∃ x ∈ elements,
        (∃ t ∈ x.2.kind.references, t.importPath = some p) ∨ (∃ g ∈ x.1.heads, p ∈ g.imports) ∨
          (p = s.validateImport ∧ x.2.rules ≠ []) :=
      (himports p).trans ⟨fun ⟨x, hx, hp⟩ => ⟨x, hx, ((h x hx).mem_imports p).1 hp⟩,
        fun ⟨x, hx, hp⟩ => ⟨x, hx, ((h x hx).mem_imports p).2 hp⟩⟩
    show p ∈ c.imports s head ↔ _ ∨ _ ∨ (p = s.validateImport ∧ c.allRules head ≠ [])
    rw [FieldContent.mem_imports, hp, hown, hkind, hheads]
    simp only [List.mem_flatMap, List.mem_cons]
    constructor
    · intro h
      rcases h with ⟨x, hx, ⟨t, ht, htp⟩ | ⟨g, hg, hgp⟩ | ⟨hv, hr⟩⟩ | hhead | hv
      · exact .inl ⟨t, ⟨x, hx, ht⟩, htp⟩
      · exact .inr (.inl ⟨g, .inr ⟨x, hx, hg⟩, hgp⟩)
      · exact .inr (.inr ⟨hv, hrules ⟨x, hx, hr⟩⟩)
      · exact .inr (.inl ⟨head, .inl rfl, hhead⟩)
      · exact .inr (.inr hv)
    · intro h
      rcases h with ⟨t, ⟨x, hx, ht⟩, htp⟩ | ⟨g, rfl | ⟨x, hx, hg⟩, hgp⟩ | hv
      · exact .inl ⟨x, hx, .inl ⟨t, ht, htp⟩⟩
      · exact .inr (.inl hgp)
      · exact .inl ⟨x, hx, .inr (.inl ⟨g, hg, hgp⟩)⟩
      · exact .inr (.inr hv)

namespace Field

theorem describes_element (s : Scope) (n : Nat) (outer : String) (f : Field) :
    (buildElement s n outer f).Describes s f := by
  cases f with
  | leaf f => exact Built.Describes.of_withoutPresence (LeafField.describes s n _)
  | repeated _ _ _ _ => intro d hd; cases hd
  | map _ _ _ _ => intro d hd; cases hd

theorem repeatedContent_allRules {count : Size} {unique : Bool} {item : FieldDescriptor}
    {h : FieldHead} (hr : item.rules ≠ []) :
    (repeatedContent count unique item).allRules h ≠ [] := by
  simp [repeatedContent, FieldContent.allRules, FieldContent.otherRules, hr]

theorem mapContent_allRules {pairs : Size} {key value : FieldDescriptor} {h : FieldHead}
    (hr : key.rules ≠ [] ∨ value.rules ≠ []) : (mapContent pairs key value).allRules h ≠ [] := by
  rcases hr with hr | hr <;>
    simp [mapContent, FieldContent.allRules, FieldContent.otherRules, hr]

theorem describes_repeated (s : Scope) (n : Nat) (head : FieldHead) (item : Field) (count : Size)
    (unique : Bool) : ((repeated head item count unique).build s n).Describes s
      (repeated head item count unique) := by
  intro d hd
  rw [build] at hd ⊢
  have hclear := Built.ifClear_of_value hd
  rw [hclear] at hd ⊢
  obtain ⟨i, hi, hc, himports⟩ := Built.value_andThen hd
  obtain ⟨hitem, hasked⟩ := describes_element s n "repeated" item i hi
  obtain rfl := FieldContent.value_build hc
  refine ⟨FieldContent.describes_of_elements [(item, i)] ?_ ?_ ?_ ?_ ?_ ?_, ?_⟩
  · simp [references]
  · simp [heads]
  · simp [repeatedContent]
  · simp [repeatedContent, WireKind.imports]
  · simpa using repeatedContent_allRules
  · simpa using hitem
  · rw [himports, FieldContent.imports_build, Built.imports_under, hasked]
    exact FieldContent.kind_union_imports (repeatedContent count unique i) s head

theorem describes_map (s : Scope) (n : Nat) (head : FieldHead) (key value : Field)
    (pairs : Size) : ((map head key value pairs).build s n).Describes s
      (map head key value pairs) := by
  intro d hd
  rw [build] at hd ⊢
  have hclear := Built.ifClear_of_value hd
  rw [hclear] at hd ⊢
  obtain ⟨⟨k, v⟩, hkv, hc, himports⟩ := Built.value_andThen hd
  obtain ⟨_, _, hpair, hv, he⟩ := Built.seq_eq_some_iff.1 hkv
  obtain ⟨_, hk, rfl⟩ := Option.map_eq_some_iff.1 hpair
  cases he
  obtain ⟨hkey, hkasked⟩ := describes_element s 1 "map" key k hk
  obtain ⟨hval, hvasked⟩ := describes_element s 2 "map" value v hv
  obtain rfl := FieldContent.value_build hc
  refine ⟨FieldContent.describes_of_elements [(key, k), (value, v)]
    ?_ ?_ ?_ ?_ ?_ ?_, ?_⟩
  · simp [references]
  · simp [heads]
  · simp [mapContent]
  · simp [mapContent, WireKind.imports]
  · simpa using mapContent_allRules
  · simpa using ⟨hkey, hval⟩
  · rw [himports, Built.imports_seq, Built.imports_map, Built.imports_under, Built.imports_under,
      hkasked, hvasked, FieldContent.imports_build]
    exact FieldContent.kind_union_imports (mapContent pairs k v) s head

/-- **A built field describes the field it is built from.** -/
theorem describes (s : Scope) (n : Nat) (f : Field) : (f.build s n).Describes s f := by
  cases f with
  | leaf f => exact f.describes s n
  | repeated head item count unique => exact describes_repeated s n head item count unique
  | map head key value pairs => exact describes_map s n head key value pairs

end Field

/-! ## Built oneofs and messages -/

theorem Oneof.describes_choice (s : Scope) (oneof : String) (n : Nat) (f : Field) :
    (buildChoice s oneof n f).Describes s f := by
  intro d hd
  unfold buildChoice at hd ⊢
  split at hd
  · cases hd
  · next hleaf =>
    obtain ⟨g, hg, rfl⟩ := Option.map_eq_some_iff.1 hd
    obtain ⟨hdesc, himports⟩ := Built.Describes.of_withoutPresence (Field.describes s n _) g hg
    rw [if_neg hleaf]
    exact ⟨⟨hdesc.references, hdesc.mem_imports⟩, himports⟩

/-- The choices of a built oneof describe those that it is built from. -/
theorem Oneof.described {s : Scope} {o : Oneof} {d : OneofDescriptor}
    (h : (o.build s).value = some d) :
    List.Forall₂ (fun x g => g.Describes s x.2) (byNumber o.choices) d.fields ∧
      ∀ p, p ∈ (o.build s).imports ↔
        (∃ g ∈ d.fields, p ∈ g.imports) ∨ (p = s.validateImport ∧ d.rules ≠ []) := by
  simp only [build, Built.value_importing, Built.value_map] at h
  obtain ⟨fields, hfields, rfl⟩ := Option.map_eq_some_iff.1 h
  refine ⟨(Built.forall₂_of_value_list hfields).imp fun x g hg =>
    (describes_choice s o.name x.1 x.2 g hg).1, fun p => ?_⟩
  have hlist := Built.mem_imports_of_value_list (p := p) hfields fun x g hg => by
    rw [Built.imports_under, (describes_choice s o.name x.1 x.2 g hg).2]
  simp only [build, Built.imports_importing, Built.imports_map, StringSet.mem_union, hlist]
  cases o.rules <;> simp

/-- The fields and choices of a built message describe those of the message of this path. -/
def FlatMessageDescriptor.Describes (s : Scope) (x : List String × FlatMessage)
    (d : FlatMessageDescriptor) : Prop :=
  List.Forall₂ (fun y g => g.Describes { s with path := x.1 } y.2) x.2.orderedFields d.allFields

/-- The imports of a built message apart from what is nested in it. -/
def FlatMessageDescriptor.Asks (validateImport : String) (d : FlatMessageDescriptor)
    (p : String) : Prop :=
  (∃ g ∈ d.allFields, p ∈ g.imports) ∨
    (p = validateImport ∧ (d.rules ≠ [] ∨ ∃ o ∈ d.oneofs, o.rules ≠ []))

namespace FlatMessage

theorem imports_buildEnums (s : Scope) (enums : List Enum) : (buildEnums s enums).imports = ∅ := by
  refine StringSet.ext fun p => ?_
  rw [buildEnums, Built.mem_imports_list]
  simp [Enum.build]

end FlatMessage

namespace Message

/-- A message that builds is assembled from parts that build. -/
theorem value_build {m : FlatMessage} {nested : List Message} {s : Scope} {d : MessageDescriptor}
    (h : (build s ⟨m, nested⟩).value = some d) :
    ∃ fields oneofs messages enums,
      (m.buildFields (s.enter m.name)).value = some fields ∧
      (m.buildOneofs (s.enter m.name)).value = some oneofs ∧
      (buildAll (s.enter m.name) nested).value = some messages ∧
      (FlatMessage.buildEnums (s.enter m.name) m.enums).value = some enums ∧
      d = m.assemble s fields oneofs messages enums := by
  rw [build, Built.value_importing] at h
  obtain ⟨_, enums, upToMessages, henums, rfl⟩ := Built.seq_eq_some_iff.1 h
  obtain ⟨_, messages, upToOneofs, hmessages, rfl⟩ := Built.seq_eq_some_iff.1 upToMessages
  obtain ⟨_, oneofs, upToFields, honeofs, rfl⟩ := Built.seq_eq_some_iff.1 upToOneofs
  obtain ⟨_, fields, checked, hfields, rfl⟩ := Built.seq_eq_some_iff.1 upToFields
  obtain ⟨_, _, rfl⟩ := Option.map_eq_some_iff.1 checked
  exact ⟨fields, oneofs, messages, enums, hfields, honeofs, hmessages, henums, rfl⟩

theorem mem_imports_build {m : FlatMessage} {nested : List Message} {s : Scope} {p : String} :
    p ∈ (build s ⟨m, nested⟩).imports ↔ p ∈ (m.buildFields (s.enter m.name)).imports ∨
      p ∈ (m.buildOneofs (s.enter m.name)).imports ∨
      p ∈ (buildAll (s.enter m.name) nested).imports ∨
      (p = s.validateImport ∧ m.rules ≠ []) := by
  simp only [build, FlatMessage.checks, FlatMessage.ownImports, Built.imports_importing,
    Built.imports_seq, Built.imports_map, Built.imports_check, FlatMessage.imports_buildEnums,
    StringSet.mem_union, StringSet.not_mem_empty, or_false, false_or, or_assoc]
  cases m.rules <;> simp

end Message

namespace FlatMessage

variable {m : FlatMessage} {s : Scope} {fields : List FieldDescriptor}
  {oneofs : List OneofDescriptor} {messages : List MessageDescriptor} {enums : List EnumDescriptor}

/-- The fields of an assembled message describe those of the message. -/
theorem describes_assemble (hfields : (m.buildFields (s.enter m.name)).value = some fields)
    (honeofs : (m.buildOneofs (s.enter m.name)).value = some oneofs) :
    (m.assemble s fields oneofs messages enums).toFlatMessageDescriptor.Describes s
      (s.path ++ [m.name], m) := by
  have hregular : List.Forall₂ (fun x g => g.Describes (s.enter m.name) x.2)
      (byNumber m.fields) fields :=
    (Built.forall₂_of_value_list hfields).imp fun x g hg => (x.2.describes _ x.1 g hg).1
  have hchoices : List.Forall₂ (fun o d => List.Forall₂
      (fun x g => g.Describes (s.enter m.name) x.2) (byNumber o.choices) d.fields)
      m.oneofs oneofs :=
    (Built.forall₂_of_value_list honeofs).imp fun o d hd => (Oneof.described hd).1
  exact List.rel_append hregular (List.rel_flatMap hchoices fun _ _ h => h)

/-- An assembled message asks for what its parts ask for. -/
theorem asks_assemble (hfields : (m.buildFields (s.enter m.name)).value = some fields)
    (honeofs : (m.buildOneofs (s.enter m.name)).value = some oneofs) {p : String} :
    (m.assemble s fields oneofs messages enums).Asks s.validateImport p ↔
      p ∈ (m.buildFields (s.enter m.name)).imports ∨ p ∈ (m.buildOneofs (s.enter m.name)).imports ∨
        (p = s.validateImport ∧ m.rules ≠ []) := by
  have hregular : p ∈ (m.buildFields (s.enter m.name)).imports ↔ ∃ g ∈ fields, p ∈ g.imports :=
    Built.mem_imports_of_value_list hfields fun x g hg => by
      rw [Built.imports_under, (x.2.describes _ x.1 g hg).2]
  have hchoices : p ∈ (m.buildOneofs (s.enter m.name)).imports ↔ ∃ o ∈ oneofs,
      (∃ g ∈ o.fields, p ∈ g.imports) ∨ (p = s.validateImport ∧ o.rules ≠ []) :=
    Built.mem_imports_of_value_list honeofs fun o d hd => (Oneof.described hd).2 p
  rw [hregular, hchoices]
  simp only [FlatMessageDescriptor.Asks, FlatMessageDescriptor.allFields, assemble,
    List.mem_append, List.mem_flatMap]
  constructor
  · intro h
    rcases h with ⟨g, hg | ⟨o, ho, hg⟩, hp⟩ | ⟨hp, hr | ⟨o, ho, hr⟩⟩
    · exact .inl ⟨g, hg, hp⟩
    · exact .inr (.inl ⟨o, ho, .inl ⟨g, hg, hp⟩⟩)
    · exact .inr (.inr ⟨hp, hr⟩)
    · exact .inr (.inl ⟨o, ho, .inr ⟨hp, hr⟩⟩)
  · intro h
    rcases h with ⟨g, hg, hp⟩ | ⟨o, ho, ⟨g, hg, hp⟩ | ⟨hp, hr⟩⟩ | ⟨hp, hr⟩
    · exact .inl ⟨g, .inl hg, hp⟩
    · exact .inl ⟨g, .inr ⟨o, ho, hg⟩, hp⟩
    · exact .inr ⟨hp, .inr ⟨o, ho, hr⟩⟩
    · exact .inr ⟨hp, .inl hr⟩

end FlatMessage

namespace Message

mutual

theorem described : ∀ (m : Message) (s : Scope) (d : MessageDescriptor),
    (m.build s).value = some d →
      List.Forall₂ (fun x e => e.Describes s x) (m.flatten s.path) d.flatten ∧
        ∀ p, p ∈ (m.build s).imports ↔ ∃ e ∈ d.flatten, e.Asks s.validateImport p
  | ⟨m, nested⟩, s, d, h => by
    obtain ⟨fields, oneofs, messages, enums, hfields, honeofs, hmessages, _, rfl⟩ := value_build h
    obtain ⟨hnested, hmore⟩ := describedAll nested _ messages hmessages
    have hflat : (m.assemble s fields oneofs messages enums).flatten =
        (m.assemble s fields oneofs messages enums).toFlatMessageDescriptor ::
          MessageDescriptor.flattenAll messages := rfl
    have hown : (m.assemble s fields oneofs messages enums).Describes s (s.path ++ [m.name], m) :=
      FlatMessage.describes_assemble hfields honeofs
    rw [hflat]
    refine ⟨.cons hown hnested, fun p => ?_⟩
    simp only [List.mem_cons, or_and_right, exists_or, exists_eq_left,
      FlatMessage.asks_assemble hfields honeofs, mem_imports_build, hmore,
      Scope.validateImport_enter, or_assoc]
    exact or_congr_right (or_congr_right or_comm)

theorem describedAll : ∀ (ms : List Message) (s : Scope) (ds : List MessageDescriptor),
    (buildAll s ms).value = some ds →
      List.Forall₂ (fun x e => e.Describes s x) (flattenAll s.path ms)
          (MessageDescriptor.flattenAll ds) ∧
        ∀ p, p ∈ (buildAll s ms).imports ↔
          ∃ e ∈ MessageDescriptor.flattenAll ds, e.Asks s.validateImport p
  | [], s, ds, h => by
    cases h
    simp [buildAll, flattenAll, MessageDescriptor.flattenAll]
  | m :: ms, s, ds, h => by
    rw [buildAll] at h ⊢
    obtain ⟨_, rest, hcons, hrest, rfl⟩ := Built.seq_eq_some_iff.1 h
    obtain ⟨d, hd, rfl⟩ := Option.map_eq_some_iff.1 hcons
    obtain ⟨hone, hasks⟩ := described m s d hd
    obtain ⟨hall, hmore⟩ := describedAll ms s rest hrest
    refine ⟨List.rel_append hone hall, fun p => ?_⟩
    simp only [Built.imports_seq, Built.imports_map, Built.imports_under, StringSet.mem_union,
      hasks, hmore, MessageDescriptor.flattenAll, List.mem_append, or_and_right, exists_or]

end

end Message

/-! ## Built methods, extensions and files -/

namespace Method

theorem value_buildReference {s : Scope} {target : TypeName} {t : TypeRef}
    (h : (buildReference s target).value = some t) :
    s.resolve .message target = .ok t ∧
      ∀ p, p ∈ (buildReference s target).imports ↔ t.importPath = some p := by
  unfold buildReference at h ⊢
  cases hr : s.resolve .message target with
  | error v => rw [hr] at h; cases h
  | ok r =>
    rw [hr] at h
    cases h
    exact ⟨rfl, fun p => by simp⟩

/-- Both types of a method that builds resolve, and their imports are those of the method. -/
theorem described {m : Method} {s : Scope} {d : MethodDescriptor}
    (h : (m.build s).value = some d) :
    (s.resolve .message m.input = .ok d.input ∧ s.resolve .message m.output = .ok d.output) ∧
      ∀ p, p ∈ (m.build s).imports ↔ ∃ t ∈ [d.input, d.output], t.importPath = some p := by
  obtain ⟨_, output, hmap, houtput, rfl⟩ := Built.seq_eq_some_iff.1 h
  obtain ⟨input, hinput, rfl⟩ := Option.map_eq_some_iff.1 hmap
  obtain ⟨hi, hip⟩ := value_buildReference hinput
  obtain ⟨ho, hop⟩ := value_buildReference houtput
  exact ⟨⟨hi, ho⟩, fun p => by simp [build, hip, hop]⟩

end Method

theorem Service.described {v : Service} {s : Scope} {d : ServiceDescriptor}
    (h : (v.build s).value = some d) :
    List.Forall₂ (fun m e => s.resolve .message m.input = .ok e.input ∧
        s.resolve .message m.output = .ok e.output)
      (stableSort Method.precedes v.methods) d.methods ∧
      ∀ p, p ∈ (v.build s).imports ↔
        ∃ e ∈ d.methods, ∃ t ∈ [e.input, e.output], t.importPath = some p := by
  obtain ⟨_, methods, hchecks, hmethods, rfl⟩ := Built.seq_eq_some_iff.1 h
  obtain ⟨_, _, rfl⟩ := Option.map_eq_some_iff.1 hchecks
  refine ⟨(Built.forall₂_of_value_list hmethods).imp fun m e he => (Method.described he).1,
    fun p => ?_⟩
  have hlist := Built.mem_imports_of_value_list (p := p) hmethods fun m e he => by
    rw [Built.imports_under, (Method.described he).2]
  simp only [build, buildMethods, Built.imports_seq, Built.imports_map, Built.imports_check,
    StringSet.mem_union, StringSet.not_mem_empty, false_or]
  exact hlist

namespace File

/-- The built fields of an extension block describe those that it is built from. -/
theorem describedExtending {s : Scope} (fields : List (Nat × Field)) :
    ∀ (earlier : List (Nat × String)) (ds : List FieldDescriptor),
      (buildExtending s earlier fields).value = some ds →
        List.Forall₂ (fun x g => g.Describes s x.2) fields ds ∧
          ∀ p, p ∈ (buildExtending s earlier fields).imports ↔ ∃ g ∈ ds, p ∈ g.imports := by
  induction fields with
  | nil =>
    intro earlier ds h
    cases h
    exact ⟨.nil, fun p => by simp [buildExtending]⟩
  | cons x rest ih =>
    obtain ⟨n, f⟩ := x
    intro earlier ds h
    rw [buildExtending] at h ⊢
    obtain ⟨_, gs, hhead, hgs, rfl⟩ := Built.seq_eq_some_iff.1 h
    obtain ⟨_, g, hcheck, hg, rfl⟩ := Built.seq_eq_some_iff.1 hhead
    obtain ⟨_, _, rfl⟩ := Option.map_eq_some_iff.1 hcheck
    obtain ⟨hone, hasked⟩ := f.describes s n g hg
    obtain ⟨hall, hmore⟩ := ih _ gs hgs
    refine ⟨.cons hone hall, fun p => ?_⟩
    simp [hasked, hmore]

theorem describedExtension {s : Scope} {f : File} {target : ExtensionTarget}
    {d : ExtensionDescriptor} (h : (buildExtension s f target).value = some d) :
    List.Forall₂ (fun x g => g.Describes s x.2) (f.extending target) d.fields ∧
      ∀ p, p ∈ (buildExtension s f target).imports ↔
        (∃ g ∈ d.fields, p ∈ g.imports) ∨ p = descriptorImport := by
  rw [buildExtension, Built.value_importing] at h
  obtain ⟨fields, hfields, rfl⟩ := Option.map_eq_some_iff.1 h
  obtain ⟨hall, himports⟩ := describedExtending _ _ fields hfields
  exact ⟨hall, fun p => by simp [buildExtension, himports]⟩

/-- The parts that a file is built from when it builds. -/
theorem value_buildDeclarations {s : Scope} {f : File} {d : Declarations}
    (h : (f.buildDeclarations s).value = some d) :
    (Message.buildAll s f.messages).value = some d.messages ∧
      (FlatMessage.buildEnums s f.enums).value = some d.enums ∧
      (Built.list (f.services.map fun v => (v.build s).under (scopeOf "service" v.name))).value =
        some d.services ∧
      (Built.list (f.extended.map fun target =>
        (buildExtension s f target).under ("extend " ++ target.extendee))).value =
        some d.extensions := by
  obtain ⟨_, extensions, upToServices, hextensions, rfl⟩ := Built.seq_eq_some_iff.1 h
  obtain ⟨_, services, upToEnums, hservices, rfl⟩ := Built.seq_eq_some_iff.1 upToServices
  obtain ⟨_, enums, upToMessages, henums, rfl⟩ := Built.seq_eq_some_iff.1 upToEnums
  obtain ⟨messages, hmessages, rfl⟩ := Option.map_eq_some_iff.1 upToMessages
  exact ⟨hmessages, henums, hservices, hextensions⟩

theorem mem_imports_buildDeclarations {s : Scope} {f : File} {d : Declarations}
    (h : (f.buildDeclarations s).value = some d) {p : String} :
    p ∈ (f.buildDeclarations s).imports ↔
      (∃ e ∈ MessageDescriptor.flattenAll d.messages, e.Asks s.validateImport p) ∨
      (∃ v ∈ d.services, ∃ m ∈ v.methods, ∃ t ∈ [m.input, m.output], t.importPath = some p) ∨
      (∃ e ∈ d.extensions, (∃ g ∈ e.fields, p ∈ g.imports) ∨ p = descriptorImport) := by
  obtain ⟨hmessages, -, hservices, hextensions⟩ := value_buildDeclarations h
  have hm := (Message.describedAll f.messages s d.messages hmessages).2 p
  have hs := Built.mem_imports_of_value_list (p := p) hservices fun v e he => by
    rw [Built.imports_under, (Service.described he).2]
  have he := Built.mem_imports_of_value_list (p := p) hextensions fun target e he => by
    rw [Built.imports_under, (describedExtension he).2]
  simp only [buildDeclarations, Built.imports_seq, Built.imports_map,
    FlatMessage.imports_buildEnums, StringSet.mem_union, StringSet.not_mem_empty, or_false,
    or_assoc]
  rw [hm, hs, he]

end File

/-- What the descriptor of a file says about the file: its fields and methods, and its imports. -/
structure FileDescriptor.Describes (s : Scope) (f : File) (d : FileDescriptor) : Prop where
  fields : List.Forall₂ (fun x g => g.Describes { s with path := x.1 } x.2) f.fields d.fields
  methods : List.Forall₂ (fun m e => s.resolve .message m.input = .ok e.input ∧
    s.resolve .message m.output = .ok e.output) f.methods d.methods
  mem_imports : ∀ p, p ∈ d.imports ↔ p ≠ f.name ∧ (
    (∃ g ∈ d.fields, p ∈ g.imports)
      ∨ (∃ m ∈ d.methods, ∃ t ∈ [m.input, m.output], t.importPath = some p)
      ∨ (p = s.validateImport ∧ ∃ e ∈ d.flatMessages, e.rules ≠ [] ∨ ∃ o ∈ e.oneofs, o.rules ≠ [])
      ∨ (p = descriptorImport ∧ f.extensions ≠ [])
      ∨ p ∈ f.imports)

namespace File

/-- **The descriptor of a file that builds describes it.** -/
theorem described {package : String} {registry : Registry} {validateImport : String} {f : File}
    {d : FileDescriptor} (h : (f.build package registry validateImport).value = some d) :
    d.Describes (f.scope registry validateImport) f := by
  let s := f.scope registry validateImport
  obtain ⟨e, he, rfl⟩ := Option.map_eq_some_iff.1 h
  obtain ⟨hmessages, -, hservices, hextensions⟩ := value_buildDeclarations he
  have hflat := (Message.describedAll f.messages s e.messages hmessages).1
  have hblocks : List.Forall₂ (fun target x => List.Forall₂ (fun y g => g.Describes s y.2)
      (f.extending target) x.fields) f.extended e.extensions :=
    (Built.forall₂_of_value_list hextensions).imp fun target x hx => (describedExtension hx).1
  have hlists : List.Forall₂ (fun v x => List.Forall₂ (fun m y =>
      s.resolve .message m.input = .ok y.input ∧ s.resolve .message m.output = .ok y.output)
      (stableSort Method.precedes v.methods) x.methods) f.services e.services :=
    (Built.forall₂_of_value_list hservices).imp fun v x hx => (Service.described hx).1
  have hblock : (∃ x, x ∈ e.extensions) ↔ f.extensions ≠ [] := by
    rw [← extended_ne_nil, ← List.length_pos_iff_exists_mem, hblocks.length_eq.symm,
      List.length_pos_iff]
  refine ⟨?_, List.rel_flatMap hlists fun _ _ h => h, fun p => ?_⟩
  · refine List.rel_append (List.rel_flatMap hflat fun x d hx => ?_)
      (List.rel_flatMap hblocks fun target x hx => ?_)
    · exact List.forall₂_map_left_iff.2 hx
    · exact List.forall₂_map_left_iff.2 hx
  · show p ∈ (_ ∪ f.imports).erase f.name ↔ _
    rw [StringSet.mem_erase, StringSet.mem_union, mem_imports_buildDeclarations he]
    simp only [FileDescriptor.fields, FileDescriptor.methods, FileDescriptor.flatMessages,
      FlatMessageDescriptor.Asks, List.mem_append, List.mem_flatMap]
    rw [and_comm, ← hblock]
    refine and_congr_right fun _ => ?_
    constructor
    · intro h
      rcases h with (⟨x, hx, ⟨g, hg, hp⟩ | ⟨hp, hr⟩⟩ | ⟨v, hv, m, hm, hp⟩ |
        ⟨x, hx, ⟨g, hg, hp⟩ | hp⟩) | hp
      · exact .inl ⟨g, .inl ⟨x, hx, hg⟩, hp⟩
      · exact .inr (.inr (.inl ⟨hp, x, hx, hr⟩))
      · exact .inr (.inl ⟨m, ⟨v, hv, hm⟩, hp⟩)
      · exact .inl ⟨g, .inr ⟨x, hx, hg⟩, hp⟩
      · exact .inr (.inr (.inr (.inl ⟨hp, x, hx⟩)))
      · exact .inr (.inr (.inr (.inr hp)))
    · intro h
      rcases h with ⟨g, ⟨x, hx, hg⟩ | ⟨x, hx, hg⟩, hp⟩ | ⟨m, ⟨v, hv, hm⟩, hp⟩ |
        ⟨hp, x, hx, hr⟩ | ⟨hp, x, hx⟩ | hp
      · exact .inl (.inl ⟨x, hx, .inl ⟨g, hg, hp⟩⟩)
      · exact .inl (.inr (.inr ⟨x, hx, .inl ⟨g, hg, hp⟩⟩))
      · exact .inl (.inr (.inl ⟨v, hv, m, hm, hp⟩))
      · exact .inl (.inl ⟨x, hx, .inr ⟨hp, hr⟩⟩)
      · exact .inl (.inr (.inr ⟨x, hx, .inr hp⟩))
      · exact .inr hp

end File

/-! ## References of a built file -/

/-- **Every reference of a file that builds resolves where it stands**, to the reference in its
place in the descriptor. -/
theorem FileDescriptor.Describes.references {s : Scope} {f : File} {d : FileDescriptor}
    (h : d.Describes s f) (hs : s.path = []) :
    List.Forall₂ (fun r t => r.resolve s = .ok t) f.references d.references := by
  have htop : { s with path := [] } = s := by rw [← hs]
  refine List.rel_append (List.rel_flatMap h.fields fun x g hg => hg.references)
    (List.rel_flatMap h.methods fun m e he => ?_)
  have hin : Reference.resolve s ⟨[], .message, m.input⟩ = .ok e.input := by
    rw [Reference.resolve, htop]; exact he.1
  have hout : Reference.resolve s ⟨[], .message, m.output⟩ = .ok e.output := by
    rw [Reference.resolve, htop]; exact he.2
  exact .cons hin (.cons hout .nil)

end WireSchema

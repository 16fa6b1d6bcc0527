import WireSchema.Proofs.HostTypes
import WireSchema.Proofs.Outcome

/-!
# Names pass their checks

Names are checked once, when a declaration is made or changed, and never again. What stands without
quotes in a file (names of declarations, options, types, packages and files) therefore follows its
grammar because every way to make a declaration checks it.

* `Field.Spelled`, `Message.Spelled`, `Package.Spelled` and their like: the names of a declaration
  that are written without quotes follow their grammars.
* `Message.spelled_ofName`, `Message.spelled_add` and their like: whatever is made step by step is
  spelled, as each step checks the names that it brings in.
-/

namespace WireSchema

/-! ## Checks that succeed -/

namespace Name

theorem isOptionName_of_ok {name : String} (h : option name = .ok ()) :
    isOptionName name = true := by
  unfold option at h
  split at h
  · assumption
  · cases h

theorem isDotted_of_package_ok {name : String} (h : package name = .ok ()) :
    isDotted name = true := by
  unfold package at h
  split at h
  · assumption
  · cases h

theorem isProtoPath_of_ok {name : String} (h : file name = .ok ()) : isProtoPath name = true := by
  unfold file at h
  split at h
  · assumption
  · cases h

/-- Identifiers with dots between them make a dotted name. -/
theorem dottedChars_of_pieces (cs : List Char) :
    ((Text.pieces '.' cs).all identifierChars = true → dottedChars cs = true) ∧
      ∀ p ps, Text.pieces '.' cs = p :: ps → p.all isPart = true →
        ps.all identifierChars = true → dottedRest cs = true := by
  induction cs with
  | nil => exact ⟨nofun, fun _ _ _ _ _ => rfl⟩
  | cons c cs ih =>
    obtain ⟨ihname, ihrest⟩ := ih
    cases hps : Text.pieces '.' cs with
    | nil => exact absurd hps (Text.pieces_ne_nil '.' cs)
    | cons p ps =>
      by_cases hdot : c = '.'
      · -- a dot ends the identifier in front of it and cannot begin one
        have hpieces : Text.pieces '.' (c :: cs) = [] :: p :: ps := by
          rw [Text.pieces, if_pos hdot, hps]
        rw [hpieces]
        refine ⟨fun h => absurd h Bool.false_ne_true, fun q qs he _ hqs => ?_⟩
        obtain ⟨-, rfl⟩ := List.cons.inj he
        rw [dottedRest, if_pos (by simp [hdot])]
        exact ihname (by rwa [hps])
      · have hpieces : Text.pieces '.' (c :: cs) = (c :: p) :: ps := by
          rw [Text.pieces, if_neg hdot, hps]
        rw [hpieces]
        constructor
        · intro h
          simp only [List.all_cons, identifierChars, Bool.and_eq_true] at h
          obtain ⟨⟨hstart, hpart⟩, hps'⟩ := h
          rw [dottedChars, Bool.and_eq_true]
          exact ⟨hstart, ihrest p ps hps hpart hps'⟩
        · intro q qs he hq hqs
          obtain ⟨rfl, rfl⟩ := List.cons.inj he
          rw [List.all_cons, Bool.and_eq_true] at hq
          rw [dottedRest, if_neg (by simp [hdot]), Bool.and_eq_true]
          exact ⟨hq.1, ihrest p ps hps hq.2 hqs⟩

end Name

/-! ## Options -/

/-- Options whose names follow the grammar of option names. -/
def OptionEntry.AllSpelled (options : List OptionEntry) : Prop :=
  ∀ e ∈ options, Name.isOptionName e.name = true

instance (options : List OptionEntry) : Decidable (OptionEntry.AllSpelled options) :=
  inferInstanceAs (Decidable (∀ e ∈ options, _))

namespace OptionEdit

theorem mem_assigned {name : String} {value : Literal} {options : List OptionEntry}
    {e : OptionEntry} (h : e ∈ assigned name value options) : e = ⟨name, value⟩ ∨ e ∈ options := by
  induction options with
  | nil => exact .inl (List.mem_singleton.1 h)
  | cons o os ih =>
    unfold assigned at h
    split at h
    · rcases List.mem_cons.1 h with rfl | h
      · exact .inl rfl
      · exact .inr (List.mem_cons_of_mem _ (List.mem_filter.1 h).1)
    · rcases List.mem_cons.1 h with rfl | h
      · exact .inr List.mem_cons_self
      · exact (ih h).imp_right (List.mem_cons_of_mem _)

theorem spelled_apply {edit : OptionEdit} {options : List OptionEntry}
    (hname : Name.isOptionName edit.name = true) (h : OptionEntry.AllSpelled options) :
    OptionEntry.AllSpelled (edit.apply options) := by
  intro e he
  cases edit with
  | assign name value =>
    rcases mem_assigned he with rfl | he
    · exact hname
    · exact h e he
  | add name value =>
    rcases List.mem_append.1 he with he | he
    · exact h e he
    · rw [List.mem_singleton.1 he]
      exact hname

/-- Changes check the name that they bring in. -/
theorem spelled_applyChecked {edit : OptionEdit} {options options' : List OptionEntry}
    (h : edit.applyChecked options = .ok options') (ho : OptionEntry.AllSpelled options) :
    OptionEntry.AllSpelled options' := by
  obtain ⟨_, hname, he⟩ := exists_of_bind_ok h
  cases he
  exact spelled_apply (Name.isOptionName_of_ok hname) ho

end OptionEdit

/-! ## Fields -/

structure FieldHead.Spelled (h : FieldHead) : Prop where
  name : Name.isIdentifier h.name = true
  options : OptionEntry.AllSpelled h.options

instance (h : FieldHead) : Decidable h.Spelled :=
  decidable_of_iff (Name.isIdentifier h.name = true ∧ OptionEntry.AllSpelled h.options)
    ⟨fun h => ⟨h.1, h.2⟩, fun h => ⟨h.name, h.options⟩⟩

namespace FieldHead

theorem spelled_ofName {name : String} {h : FieldHead} (hh : ofName name = .ok h) : h.Spelled := by
  obtain ⟨_, hname, he⟩ := exists_of_bind_ok hh
  cases he
  exact ⟨Name.isIdentifier_of_ok hname, by simp [OptionEntry.AllSpelled]⟩

theorem spelled_edit {h h' : FieldHead} {e : Edit} (he : h.edit e = .ok h') (hh : h.Spelled) :
    h'.Spelled := by
  cases e with
  | option o =>
    obtain ⟨options, ho, hh'⟩ := exists_of_bind_ok he
    cases hh'
    exact ⟨hh.name, OptionEdit.spelled_applyChecked ho hh.options⟩
  | required => cases he; exact ⟨hh.name, hh.options⟩
  | optionImport path => cases he; exact ⟨hh.name, hh.options⟩
  | constraint c => cases he; exact ⟨hh.name, hh.options⟩

end FieldHead

/-- A leaf type whose reference, if it makes one, is by a dotted name. -/
def LeafType.Spelled (t : LeafType) : Prop := ∀ x ∈ t.reference?, x.2.Named

instance (t : LeafType) : Decidable t.Spelled := inferInstanceAs (Decidable (∀ x ∈ t.reference?, _))

namespace Field

/-- A field whose names follow their grammars, and those of its elements. -/
def Spelled : Field → Prop
  | leaf f => f.head.Spelled ∧ f.type.Spelled
  | repeated h item _ _ => h.Spelled ∧ item.Spelled
  | map h key value _ => h.Spelled ∧ key.Spelled ∧ value.Spelled

instance decidableSpelled : (f : Field) → Decidable f.Spelled
  | leaf f => inferInstanceAs (Decidable (f.head.Spelled ∧ f.type.Spelled))
  | repeated h item _ _ =>
    have := item.decidableSpelled
    inferInstanceAs (Decidable (h.Spelled ∧ item.Spelled))
  | map h key value _ =>
    have := key.decidableSpelled
    have := value.decidableSpelled
    inferInstanceAs (Decidable (h.Spelled ∧ key.Spelled ∧ value.Spelled))

theorem Spelled.head {f : Field} (h : f.Spelled) : f.head.Spelled := by
  cases f <;> exact h.1

theorem spelled_withHead {f : Field} {h : FieldHead} (hf : f.Spelled) (hh : h.Spelled) :
    (f.withHead h).Spelled := by
  cases f with
  | leaf f => exact ⟨hh, hf.2⟩
  | repeated _ item _ _ => exact ⟨hh, hf.2⟩
  | map _ key value _ => exact ⟨hh, hf.2⟩

/-- Whatever is changed about a field, its names follow their grammars. -/
theorem spelled_edit {f f' : Field} {e : FieldHead.Edit} (he : f.edit e = .ok f')
    (hf : f.Spelled) : f'.Spelled := by
  obtain ⟨h, hh, hf'⟩ := exists_of_bind_ok he
  cases hf'
  exact spelled_withHead hf (FieldHead.spelled_edit hh hf.head)

theorem spelled_withoutPresence {f : Field} (h : f.Spelled) : f.withoutPresence.Spelled := by
  cases f <;> exact h

end Field

/-! ## Enums -/

structure EnumValue.Spelled (v : EnumValue) : Prop where
  name : Name.isIdentifier v.name = true
  options : OptionEntry.AllSpelled v.options

instance (v : EnumValue) : Decidable v.Spelled :=
  decidable_of_iff (Name.isIdentifier v.name = true ∧ OptionEntry.AllSpelled v.options)
    ⟨fun h => ⟨h.1, h.2⟩, fun h => ⟨h.name, h.options⟩⟩

namespace EnumValue

theorem spelled_ofName {name : String} {number : Int} {v : EnumValue}
    (h : ofName name number = .ok v) : v.Spelled := by
  obtain ⟨_, hname, he⟩ := exists_of_bind_ok h
  cases he
  exact ⟨Name.isIdentifier_of_ok hname, by simp [OptionEntry.AllSpelled]⟩

theorem spelled_edit {v v' : EnumValue} {e : OptionEdit} (h : v.edit e = .ok v')
    (hv : v.Spelled) : v'.Spelled := by
  obtain ⟨options, ho, he⟩ := exists_of_bind_ok h
  cases he
  exact ⟨hv.name, OptionEdit.spelled_applyChecked ho hv.options⟩

end EnumValue

structure Enum.Spelled (e : Enum) : Prop where
  name : Name.isIdentifier e.name = true
  values : ∀ v ∈ e.values, v.Spelled
  options : OptionEntry.AllSpelled e.options

instance (e : Enum) : Decidable e.Spelled :=
  decidable_of_iff (Name.isIdentifier e.name = true ∧ (∀ v ∈ e.values, v.Spelled) ∧
      OptionEntry.AllSpelled e.options)
    ⟨fun h => ⟨h.1, h.2.1, h.2.2⟩, fun h => ⟨h.name, h.values, h.options⟩⟩

namespace Enum

theorem spelled_ofName {name : String} {e : Enum} (h : ofName name = .ok e) : e.Spelled := by
  obtain ⟨_, hname, he⟩ := exists_of_bind_ok h
  cases he
  exact ⟨Name.isIdentifier_of_ok hname, by simp, by simp [OptionEntry.AllSpelled]⟩

theorem spelled_add {e e' : Enum} {item : Item} (h : e.add item = .ok e') (he : e.Spelled)
    (hvalue : ∀ v, item = .value v → v.Spelled) : e'.Spelled := by
  cases item with
  | value v =>
    cases h
    exact ⟨he.name, by simpa [or_imp, forall_and] using ⟨he.values, hvalue v rfl⟩, he.options⟩
  | allowAlias =>
    cases h
    have hname : Name.isOptionName aliasOption.name = true := by decide +kernel
    exact ⟨he.name, he.values, OptionEdit.spelled_apply hname he.options⟩
  | reserved r => cases h; exact ⟨he.name, he.values, he.options⟩
  | reservedName n =>
    obtain ⟨_, -, h⟩ := exists_of_bind_ok h
    cases h
    exact ⟨he.name, he.values, he.options⟩
  | option o =>
    obtain ⟨options, ho, h⟩ := exists_of_bind_ok h
    cases h
    exact ⟨he.name, he.values, OptionEdit.spelled_applyChecked ho he.options⟩

end Enum

/-! ## Oneofs and messages -/

structure Oneof.Spelled (o : Oneof) : Prop where
  name : Name.isIdentifier o.name = true
  choices : ∀ x ∈ o.choices, x.2.Spelled
  options : OptionEntry.AllSpelled o.options

instance (o : Oneof) : Decidable o.Spelled :=
  decidable_of_iff (Name.isIdentifier o.name = true ∧ (∀ x ∈ o.choices, x.2.Spelled) ∧
      OptionEntry.AllSpelled o.options)
    ⟨fun h => ⟨h.1, h.2.1, h.2.2⟩, fun h => ⟨h.name, h.choices, h.options⟩⟩

namespace Oneof

theorem spelled_ofName {name : String} {o : Oneof} (h : ofName name = .ok o) : o.Spelled := by
  obtain ⟨_, hname, he⟩ := exists_of_bind_ok h
  cases he
  exact ⟨Name.isIdentifier_of_ok hname, by simp, by simp [OptionEntry.AllSpelled]⟩

theorem spelled_add {o o' : Oneof} {item : Item} (h : o.add item = .ok o') (ho : o.Spelled)
    (hchoice : ∀ n f, item = .choice n f → f.Spelled) : o'.Spelled := by
  cases item with
  | choice n f =>
    cases h
    refine ⟨ho.name, fun x hx => ?_, ho.options⟩
    rcases List.mem_append.1 hx with hx | hx
    · exact ho.choices x hx
    · rw [List.mem_singleton.1 hx]
      exact hchoice n f rfl
  | required => cases h; exact ⟨ho.name, ho.choices, ho.options⟩
  | option e =>
    obtain ⟨options, he, h⟩ := exists_of_bind_ok h
    cases h
    exact ⟨ho.name, ho.choices, OptionEdit.spelled_applyChecked he ho.options⟩

end Oneof

structure FlatMessage.Spelled (m : FlatMessage) : Prop where
  name : Name.isIdentifier m.name = true
  fields : ∀ x ∈ m.fields, x.2.Spelled
  oneofs : ∀ o ∈ m.oneofs, o.Spelled
  enums : ∀ e ∈ m.enums, e.Spelled
  options : OptionEntry.AllSpelled m.options

instance (m : FlatMessage) : Decidable m.Spelled :=
  decidable_of_iff (Name.isIdentifier m.name = true ∧ (∀ x ∈ m.fields, x.2.Spelled) ∧
      (∀ o ∈ m.oneofs, o.Spelled) ∧ (∀ e ∈ m.enums, e.Spelled) ∧
      OptionEntry.AllSpelled m.options)
    ⟨fun h => ⟨h.1, h.2.1, h.2.2.1, h.2.2.2.1, h.2.2.2.2⟩,
      fun h => ⟨h.name, h.fields, h.oneofs, h.enums, h.options⟩⟩

/-- A message whose names follow their grammars, and those of everything nested in it. -/
def Message.Spelled (m : Message) : Prop := ∀ x ∈ m.flatten [], x.2.Spelled

instance (m : Message) : Decidable m.Spelled :=
  inferInstanceAs (Decidable (∀ x ∈ m.flatten [], _))

namespace Message

theorem spelled_iff {m : FlatMessage} {nested : List Message} :
    Spelled ⟨m, nested⟩ ↔ m.Spelled ∧ ∀ n ∈ nested, n.Spelled := by
  rw [Spelled, flatten, List.forall_mem_cons, forall_flattenAll_iff FlatMessage.Spelled]
  rfl

theorem spelled_ofName {name : String} {m : Message} (h : ofName name = .ok m) : m.Spelled := by
  obtain ⟨_, hname, he⟩ := exists_of_bind_ok h
  cases he
  exact spelled_iff.2 ⟨⟨Name.isIdentifier_of_ok hname, by simp, by simp, by simp,
    by simp [OptionEntry.AllSpelled]⟩, by simp⟩

/-- What an item of a message brings in is spelled. -/
def Item.Spelled : Item → Prop
  | .field _ f => f.Spelled
  | .oneof o => o.Spelled
  | .message m => m.Spelled
  | .enum e => e.Spelled
  | _ => True

/-- **Names stay in their grammars.** A message whose names follow their grammars stays so whatever
is added to it, as long as the declarations added were made in the same way. -/
theorem spelled_add {m m' : Message} {item : Item} (h : m.add item = .ok m') (hm : m.Spelled)
    (hitem : item.Spelled) : m'.Spelled := by
  obtain ⟨flat, nested⟩ := m
  obtain ⟨hflat, hnested⟩ := spelled_iff.1 hm
  cases item with
  | field n f =>
    cases h
    refine spelled_iff.2 ⟨⟨hflat.name, fun x hx => ?_, hflat.oneofs, hflat.enums, hflat.options⟩,
      hnested⟩
    rcases List.mem_append.1 hx with hx | hx
    · exact hflat.fields x hx
    · rw [List.mem_singleton.1 hx]
      exact hitem
  | oneof o =>
    cases h
    have honeofs : ∀ x ∈ flat.oneofs ++ [o], x.Spelled := by
      simpa [or_imp, forall_and] using ⟨hflat.oneofs, hitem⟩
    exact spelled_iff.2 ⟨⟨hflat.name, hflat.fields, honeofs, hflat.enums, hflat.options⟩, hnested⟩
  | message n =>
    cases h
    exact spelled_iff.2 ⟨hflat, by simpa [or_imp, forall_and] using ⟨hnested, hitem⟩⟩
  | enum e =>
    cases h
    have henums : ∀ x ∈ flat.enums ++ [e], x.Spelled := by
      simpa [or_imp, forall_and] using ⟨hflat.enums, hitem⟩
    exact spelled_iff.2 ⟨⟨hflat.name, hflat.fields, hflat.oneofs, henums, hflat.options⟩, hnested⟩
  | reservedName n =>
    obtain ⟨_, -, h⟩ := exists_of_bind_ok h
    cases h
    exact spelled_iff.2 ⟨⟨hflat.name, hflat.fields, hflat.oneofs, hflat.enums, hflat.options⟩,
      hnested⟩
  | option e =>
    obtain ⟨options, he, h⟩ := exists_of_bind_ok h
    cases h
    have hoptions := OptionEdit.spelled_applyChecked he hflat.options
    exact spelled_iff.2 ⟨⟨hflat.name, hflat.fields, hflat.oneofs, hflat.enums, hoptions⟩, hnested⟩
  | _ =>
    cases h
    exact spelled_iff.2 ⟨⟨hflat.name, hflat.fields, hflat.oneofs, hflat.enums, hflat.options⟩,
      hnested⟩

end Message

/-! ## Services -/

structure Method.Spelled (m : Method) : Prop where
  name : Name.isIdentifier m.name = true
  input : m.input.Named
  output : m.output.Named
  options : OptionEntry.AllSpelled m.options

instance (m : Method) : Decidable m.Spelled :=
  decidable_of_iff (Name.isIdentifier m.name = true ∧ m.input.Named ∧ m.output.Named ∧
      OptionEntry.AllSpelled m.options)
    ⟨fun h => ⟨h.1, h.2.1, h.2.2.1, h.2.2.2⟩, fun h => ⟨h.name, h.input, h.output, h.options⟩⟩

namespace Method

theorem spelled_ofName {name : String} {input output : TypeName} {m : Method}
    (h : ofName name input output = .ok m) (hin : input.Named) (hout : output.Named) :
    m.Spelled := by
  obtain ⟨_, hname, he⟩ := exists_of_bind_ok h
  cases he
  exact ⟨Name.isIdentifier_of_ok hname, hin, hout, by simp [OptionEntry.AllSpelled]⟩

theorem spelled_add {m m' : Method} {item : Item} (h : m.add item = .ok m') (hm : m.Spelled) :
    m'.Spelled := by
  cases item with
  | clientStreaming => cases h; exact ⟨hm.name, hm.input, hm.output, hm.options⟩
  | serverStreaming => cases h; exact ⟨hm.name, hm.input, hm.output, hm.options⟩
  | option e =>
    obtain ⟨options, he, h⟩ := exists_of_bind_ok h
    cases h
    exact ⟨hm.name, hm.input, hm.output, OptionEdit.spelled_applyChecked he hm.options⟩

end Method

structure Service.Spelled (v : Service) : Prop where
  name : Name.isIdentifier v.name = true
  methods : ∀ m ∈ v.methods, m.Spelled
  options : OptionEntry.AllSpelled v.options

instance (v : Service) : Decidable v.Spelled :=
  decidable_of_iff (Name.isIdentifier v.name = true ∧ (∀ m ∈ v.methods, m.Spelled) ∧
      OptionEntry.AllSpelled v.options)
    ⟨fun h => ⟨h.1, h.2.1, h.2.2⟩, fun h => ⟨h.name, h.methods, h.options⟩⟩

namespace Service

theorem spelled_ofName {name : String} {v : Service} (h : ofName name = .ok v) : v.Spelled := by
  obtain ⟨_, hname, he⟩ := exists_of_bind_ok h
  cases he
  exact ⟨Name.isIdentifier_of_ok hname, by simp, by simp [OptionEntry.AllSpelled]⟩

theorem spelled_add {v v' : Service} {item : Item} (h : v.add item = .ok v') (hv : v.Spelled)
    (hmethod : ∀ m, item = .method m → m.Spelled) : v'.Spelled := by
  cases item with
  | method m =>
    cases h
    exact ⟨hv.name, by simpa [or_imp, forall_and] using ⟨hv.methods, hmethod m rfl⟩, hv.options⟩
  | option e =>
    obtain ⟨options, he, h⟩ := exists_of_bind_ok h
    cases h
    exact ⟨hv.name, hv.methods, OptionEdit.spelled_applyChecked he hv.options⟩

end Service

/-! ## Files and packages -/

structure File.Spelled (f : File) : Prop where
  name : Name.isProtoPath f.name = true
  messages : ∀ m ∈ f.messages, m.Spelled
  enums : ∀ e ∈ f.enums, e.Spelled
  services : ∀ v ∈ f.services, v.Spelled
  extensions : ∀ e ∈ f.extensions, e.field.Spelled
  options : OptionEntry.AllSpelled f.options

instance (f : File) : Decidable f.Spelled :=
  decidable_of_iff (Name.isProtoPath f.name = true ∧ (∀ m ∈ f.messages, m.Spelled) ∧
      (∀ e ∈ f.enums, e.Spelled) ∧ (∀ v ∈ f.services, v.Spelled) ∧
      (∀ e ∈ f.extensions, e.field.Spelled) ∧ OptionEntry.AllSpelled f.options)
    ⟨fun h => ⟨h.1, h.2.1, h.2.2.1, h.2.2.2.1, h.2.2.2.2.1, h.2.2.2.2.2⟩,
      fun h => ⟨h.name, h.messages, h.enums, h.services, h.extensions, h.options⟩⟩

namespace File

theorem spelled_ofName {name : String} {f : File} (h : ofName name = .ok f) : f.Spelled := by
  obtain ⟨_, hname, he⟩ := exists_of_bind_ok h
  cases he
  exact ⟨Name.isProtoPath_of_ok hname, by simp, by simp, by simp, by simp,
    by simp [OptionEntry.AllSpelled]⟩

/-- What an item of a file brings in is spelled. -/
def Item.Spelled : Item → Prop
  | .message m => m.Spelled
  | .enum e => e.Spelled
  | .service v => v.Spelled
  | .extend e => e.field.Spelled
  | _ => True

/-- **Names stay in their grammars** in a file as well. -/
theorem spelled_add {f f' : File} {item : Item} (h : f.add item = .ok f') (hf : f.Spelled)
    (hitem : item.Spelled) : f'.Spelled := by
  cases item with
  | message m =>
    cases h
    have hmessages : ∀ x ∈ f.messages ++ [m], x.Spelled := by
      simpa [or_imp, forall_and] using ⟨hf.messages, hitem⟩
    exact ⟨hf.name, hmessages, hf.enums, hf.services, hf.extensions, hf.options⟩
  | enum e =>
    cases h
    have henums : ∀ x ∈ f.enums ++ [e], x.Spelled := by
      simpa [or_imp, forall_and] using ⟨hf.enums, hitem⟩
    exact ⟨hf.name, hf.messages, henums, hf.services, hf.extensions, hf.options⟩
  | service v =>
    cases h
    have hservices : ∀ x ∈ f.services ++ [v], x.Spelled := by
      simpa [or_imp, forall_and] using ⟨hf.services, hitem⟩
    exact ⟨hf.name, hf.messages, hf.enums, hservices, hf.extensions, hf.options⟩
  | extend e =>
    cases h
    have hextensions : ∀ x ∈ f.extensions ++ [e], x.field.Spelled := by
      simpa [or_imp, forall_and] using ⟨hf.extensions, hitem⟩
    exact ⟨hf.name, hf.messages, hf.enums, hf.services, hextensions, hf.options⟩
  | importing path =>
    cases h
    exact ⟨hf.name, hf.messages, hf.enums, hf.services, hf.extensions, hf.options⟩
  | option e =>
    obtain ⟨options, he, h⟩ := exists_of_bind_ok h
    cases h
    exact ⟨hf.name, hf.messages, hf.enums, hf.services, hf.extensions,
      OptionEdit.spelled_applyChecked he hf.options⟩

end File

structure Package.Spelled (p : Package) : Prop where
  package : Name.isDotted p.config.package = true
  files : ∀ f ∈ p.files, f.Spelled

instance (p : Package) : Decidable p.Spelled :=
  decidable_of_iff (Name.isDotted p.config.package = true ∧ ∀ f ∈ p.files, f.Spelled)
    ⟨fun h => ⟨h.1, h.2⟩, fun h => ⟨h.package, h.files⟩⟩

namespace Package

theorem spelled_ofName {name : String} {p : Package} (h : ofName name = .ok p) : p.Spelled := by
  obtain ⟨_, hname, he⟩ := exists_of_bind_ok h
  cases he
  exact ⟨Name.isDotted_of_package_ok hname, by simp⟩

/-- Settings are checked piece by piece, which comes to the grammar of dotted names. -/
theorem spelled_ofConfig {config : Config} {p : Package} (h : ofConfig config = .ok p) :
    p.Spelled := by
  obtain ⟨_, hcheck, he⟩ := exists_of_bind_ok h
  cases he
  refine ⟨?_, by simp⟩
  unfold Config.check at hcheck
  split at hcheck
  · cases hcheck
  · split at hcheck
    · cases hcheck
    · next hdotted =>
      exact (Name.dottedChars_of_pieces _).1 (by simpa [Config.hasDottedPackage] using hdotted)

theorem spelled_add {p : Package} {f : File} (hp : p.Spelled) (hf : f.Spelled) :
    (p.add f).Spelled :=
  ⟨hp.package, by simpa [add, or_imp, forall_and] using ⟨hp.files, hf⟩⟩

end Package

end WireSchema

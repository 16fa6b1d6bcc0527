import WireSchema.Proofs.Converters
import WireSchema.Proofs.Rearrangement

/-!
# The canonical order of a descriptor

What comes out of a build stands in an order of its own. Regular fields, the choices of a oneof and
the fields of an extension block come in strictly ascending order of their numbers, methods by verb
(`Method.Position`) and then by name. Each list holds the outcomes of all that was declared
(`AscendingOutcomes`). The values of an enum, which may share numbers, come with the zero value
first and then by number.

`Package.canonical_output`: every package that builds has such a descriptor, and packages that
differ in the order of calls only (`Package.Reordered`) have the same one, or both do not build.
-/

namespace WireSchema

/-! ## Lists of outcomes -/

/-- The built list is strictly ascending, and it holds the outcomes of all that is declared. -/
structure AscendingOutcomes {ι α : Type} (lt : α → α → Prop) (build : ι → Option α)
    (declared : List ι) (built : List α) : Prop where
  ascending : built.Pairwise lt
  perm : (built.map some).Perm (declared.map build)

/-- The outcomes of a sorted list, when an outcome goes before another as their declarations do. -/
theorem AscendingOutcomes.of_sorted {ι α : Type} {lt : α → α → Prop} {build : ι → Option α}
    {declared sorted : List ι} {built : List α} {before : ι → ι → Prop}
    (hbuilt : List.Forall₂ (fun i a => build i = some a) sorted built)
    (hperm : sorted.Perm declared) (hsorted : sorted.Pairwise before)
    (hlt : ∀ i j a b, before i j → build i = some a → build j = some b → lt a b) :
    AscendingOutcomes lt build declared built where
  ascending := by
    induction hbuilt generalizing declared with
    | nil => exact .nil
    | @cons i a is as hi his ih =>
      obtain ⟨hbefore, hrest⟩ := List.pairwise_cons.1 hsorted
      refine List.pairwise_cons.2 ⟨fun b hb => ?_, ih (.refl is) hrest⟩
      obtain ⟨j, hj, hjb⟩ := exists_of_forall₂_right his hb
      exact hlt i j a b (hbefore j hj) hi hjb
  perm := by
    have hsame : built.map some = sorted.map build :=
      (map_eq_map_of_forall₂ hbuilt fun i a hi => hi).symm
    rw [hsame]
    exact hperm.map build

/-! ## Verbs -/

namespace Method

/-- A capital: one of the alphabet, and outside of ASCII what Unicode counts as upper case. -/
def IsCapital (c : Char) : Prop := c.isUpper = true ∨ 127 < c.toNat ∧ Text.isUppercase c = true

/-- The name is the verb alone, or a capital follows the verb. -/
inductive HasVerb (verb : String) : String → Prop
  | alone : HasVerb verb verb
  | capital {c : Char} {rest : List Char} (hc : IsCapital c) :
      HasVerb verb (verb ++ String.ofList (c :: rest))

/-- Names that create, get, update and delete take the first places, in this order; all others share
the last. -/
inductive Position (name : String) : Nat → Prop
  | create (h : HasVerb "Create" name) : Position name 0
  | get (h : HasVerb "Get" name) : Position name 1
  | update (h : HasVerb "Update" name) : Position name 2
  | delete (h : HasVerb "Delete" name) : Position name 3
  | other (h : ∀ verb ∈ ["Create", "Get", "Update", "Delete"], ¬ HasVerb verb name) :
      Position name 4

theorem isCapital_iff {c : Char} : IsCapital c ↔ Text.isUppercase c = true := by
  by_cases hc : c.toNat < 128
  · have hascii : ∀ n < 128, Text.isUppercase (Char.ofNat n) = (Char.ofNat n).isUpper := by
      decide +kernel
    have hupper := hascii c.toNat hc
    rw [Char.ofNat_toNat] at hupper
    rw [IsCapital, hupper]
    exact or_iff_left fun h => by omega
  · have hlarge : 127 < c.toNat := by omega
    have hsmall : c.isUpper = false := by
      refine decide_eq_false ?_
      rintro ⟨-, hz⟩
      have hle : c.toNat ≤ 90 := UInt32.le_iff_toNat_le.1 hz
      omega
    simp [IsCapital, hsmall, hlarge]

theorem hasVerb_iff {verb name : String} : HasVerb verb name ↔ startsWith verb name = true := by
  rw [startsWith, Bool.and_eq_true, List.isPrefixOf_iff_prefix]
  constructor
  · rintro (_ | hc)
    · simp
    · simp [isCapital_iff.1 hc]
  · rintro ⟨⟨rest, hname⟩, hrest⟩
    rw [← hname, List.drop_left] at hrest
    obtain rfl : name = verb ++ String.ofList rest := by
      rw [← String.toList_inj, ← hname, String.toList_append, String.toList_ofList]
    cases rest with
    | nil => simpa using HasVerb.alone
    | cons c rest => exact .capital (isCapital_iff.2 (by simpa using hrest))

/-- The verbs differ in their first letters, so a name has no two of them. -/
theorem HasVerb.head? {verb name : String} (h : HasVerb verb name) (hverb : verb ≠ "") :
    name.toList.head? = verb.toList.head? := by
  cases h with
  | alone => rfl
  | capital hc => rw [String.toList_append, List.head?_append_of_ne_nil _ (by simpa using hverb)]

theorem Position.rank_eq {name : String} {n : Nat} (h : Position name n) : rank name = n := by
  have hother : ∀ {verb verb' : String}, HasVerb verb name → verb ≠ "" ∧ verb' ≠ "" ∧
      verb.toList.head? ≠ verb'.toList.head? → startsWith verb' name = false := by
    rintro verb verb' hhas ⟨hne, hne', hheads⟩
    rw [← Bool.not_eq_true, ← hasVerb_iff]
    exact fun hhas' => hheads ((hhas.head? hne).symm.trans (hhas'.head? hne'))
  simp only [rank, verbs, List.findIdx_cons, List.findIdx_nil]
  cases h with
  | create h => simp only [hasVerb_iff.1 h, cond_true]
  | get h =>
    have hcreate : startsWith "Create" name = false := hother h (by decide)
    simp only [hcreate, hasVerb_iff.1 h, cond_true, cond_false]
  | update h =>
    have hcreate : startsWith "Create" name = false := hother h (by decide)
    have hget : startsWith "Get" name = false := hother h (by decide)
    simp only [hcreate, hget, hasVerb_iff.1 h, cond_true, cond_false]
  | delete h =>
    have hcreate : startsWith "Create" name = false := hother h (by decide)
    have hget : startsWith "Get" name = false := hother h (by decide)
    have hupdate : startsWith "Update" name = false := hother h (by decide)
    simp only [hcreate, hget, hupdate, hasVerb_iff.1 h, cond_true, cond_false]
  | other h =>
    simp only [List.forall_mem_cons, hasVerb_iff, Bool.not_eq_true] at h
    obtain ⟨hcreate, hget, hupdate, hdelete, -⟩ := h
    simp only [hcreate, hget, hupdate, hdelete, cond_false]

theorem position_rank (name : String) : Position name (rank name) := by
  obtain ⟨n, h⟩ : ∃ n, Position name n := by
    by_cases hcreate : HasVerb "Create" name
    · exact ⟨0, .create hcreate⟩
    by_cases hget : HasVerb "Get" name
    · exact ⟨1, .get hget⟩
    by_cases hupdate : HasVerb "Update" name
    · exact ⟨2, .update hupdate⟩
    by_cases hdelete : HasVerb "Delete" name
    · exact ⟨3, .delete hdelete⟩
    · exact ⟨4, .other (by simp [hcreate, hget, hupdate, hdelete])⟩
  rw [h.rank_eq]
  exact h

end Method

/-! ## The order of each list -/

/-- Fields by number. -/
def FieldDescriptor.Before (a b : FieldDescriptor) : Prop := a.number < b.number

/-- Methods by verb, then by name. -/
def MethodDescriptor.Before (a b : MethodDescriptor) : Prop :=
  ∃ i j, Method.Position a.name i ∧ Method.Position b.name j ∧ (i < j ∨ i = j ∧ a.name < b.name)

/-- Enum values with the zero value first, then by number. -/
def EnumValueDescriptor.Before (a b : EnumValueDescriptor) : Prop :=
  a.number = 0 ∨ b.number ≠ 0 ∧ a.number ≤ b.number

/-- The values of an enum, sorted. -/
structure EnumDescriptor.Canonical (e : Enum) (d : EnumDescriptor) : Prop where
  ascending : d.values.Pairwise EnumValueDescriptor.Before
  perm : d.values.Perm (e.values.map fun v => ⟨v.name, v.number, v.options⟩)

/-- The lists of a message that is built in this scope. -/
structure FlatMessageDescriptor.Canonical (s : Scope) (m : FlatMessage)
    (d : FlatMessageDescriptor) : Prop where
  fields : AscendingOutcomes FieldDescriptor.Before (fun x => (x.2.build s x.1).value) m.fields
    d.fields
  oneofs : List.Forall₂ (fun o e => AscendingOutcomes FieldDescriptor.Before
    (fun x => (Oneof.buildChoice s o.name x.1 x.2).value) o.choices e.fields) m.oneofs d.oneofs
  enums : List.Forall₂ (fun e c => c.Canonical e) m.enums d.enums

/-- The lists of a file that is built in this scope, those of its messages at every depth included.
-/
structure FileDescriptor.Canonical (s : Scope) (f : File) (d : FileDescriptor) : Prop where
  messages : List.Forall₂ (fun x e => e.Canonical { s with path := x.1 } x.2)
    (Message.flattenAll [] f.messages) d.flatMessages
  enums : List.Forall₂ (fun e c => c.Canonical e) f.enums d.enums
  services : List.Forall₂ (fun v e => AscendingOutcomes MethodDescriptor.Before
    (fun m => (m.build s).value) v.methods e.methods) f.services d.services
  extensions : List.Forall₂ (fun target e => e.target = target ∧
    AscendingOutcomes FieldDescriptor.Before (fun x => (x.2.build s x.1).value)
      (f.declaredExtending target) e.fields) f.extended d.extensions

variable {s : Scope}

/-! ## Messages -/

/-- Numbered fields with distinct numbers, built in the order of these. -/
theorem AscendingOutcomes.of_byNumber {build : Nat × Field → Option FieldDescriptor}
    {declared : List (Nat × Field)} {built : List FieldDescriptor}
    (hbuilt : List.Forall₂ (fun x d => build x = some d) (byNumber declared) built)
    (hnodup : (declared.map Prod.fst).Nodup)
    (hnumber : ∀ x d, build x = some d → d.number = x.1) :
    AscendingOutcomes FieldDescriptor.Before build declared built :=
  .of_sorted hbuilt (stableSort_perm _ _) (byNumber_ascending hnodup)
    fun x y a b hlt ha hb => by
      rw [FieldDescriptor.Before, hnumber x a ha, hnumber y b hb]
      exact hlt

theorem Enum.canonical {e : Enum} {d : EnumDescriptor} (h : (e.build s).value = some d) :
    d.Canonical e := by
  obtain ⟨_, -, rfl⟩ := Option.map_eq_some_iff.1 h
  refine ⟨(pairwise_stableSort sortsBy_precedes _).imp fun hle => ?_, stableSort_perm _ _⟩
  simpa [precedes, EnumValueDescriptor.Before, or_iff_not_imp_left] using hle

theorem FlatMessageDescriptor.BuiltFrom.canonical {m : FlatMessage} {d : FlatMessageDescriptor}
    (h : d.BuiltFrom s m) : d.Canonical s m where
  fields := by
    have hfields := Built.forall₂_of_value_list h.fields
    exact .of_byNumber (hfields.imp fun _ _ hx => hx) h.wellNumbered.fields_nodup
      fun _ _ hx => (Field.name_number_of_value hx).2
  oneofs := by
    have hnodup : ∀ o ∈ m.oneofs, (o.choices.map Prod.fst).Nodup := fun o ho =>
      h.wellNumbered.choices_nodup ho
    refine ((List.forall₂_and_left _ _).2 ⟨hnodup, Built.forall₂_of_value_list h.oneofs⟩).imp
      fun o e ho => .of_byNumber (Oneof.value_build ho.2).2 ho.1 fun x g hx => ?_
    have hplaced : (PlacedField.build s ⟨some o.name, x.1, x.2⟩).value = some g := hx
    exact (PlacedField.name_number_of_value hplaced).2
  enums := (Built.forall₂_of_value_list h.enums).imp fun _ _ he => Enum.canonical he

/-! ## Files -/

theorem Method.name_of_value {m : Method} {d : MethodDescriptor} (h : (m.build s).value = some d) :
    d.name = m.name := by
  obtain ⟨_, output, hmap, houtput, rfl⟩ := Built.seq_eq_some_iff.1 h
  obtain ⟨input, hinput, rfl⟩ := Option.map_eq_some_iff.1 hmap
  rfl

theorem Service.canonical {v : Service} {d : ServiceDescriptor} (h : (v.build s).value = some d) :
    AscendingOutcomes MethodDescriptor.Before (fun m => (m.build s).value) v.methods d.methods := by
  obtain ⟨_, methods, hchecks, hmethods, rfl⟩ := Built.seq_eq_some_iff.1 h
  obtain ⟨_, hclear, rfl⟩ := Option.map_eq_some_iff.1 hchecks
  have hnodup : (v.methods.map Method.name).Nodup :=
    violations_eq_nil_iff.1 (Report.ofViolations_eq_nil_iff.1 (Built.report_of_value hclear))
  have hdistinct : (stableSort Method.precedes v.methods).Pairwise fun a b => a.name ≠ b.name := by
    rwa [← ((stableSort_perm _ v.methods).map Method.name).nodup_iff, List.Nodup,
      List.pairwise_map] at hnodup
  have hsorted := (pairwise_stableSort Method.sortsBy_precedes v.methods).imp₂
    (fun a b hle hne => And.intro hle hne) hdistinct
  have hbuilt := Built.forall₂_of_value_list hmethods
  refine .of_sorted (hbuilt.imp fun _ _ hm => hm) (stableSort_perm _ _) hsorted ?_
  intro m n a b hmn ha hb
  rw [MethodDescriptor.Before, Method.name_of_value ha, Method.name_of_value hb]
  have hbefore := (Method.precedes_iff.1 hmn.1).imp_right fun hrank =>
    And.intro hrank.1 (Std.lt_of_le_of_ne hrank.2 hmn.2)
  exact ⟨_, _, Method.position_rank m.name, Method.position_rank n.name, hbefore⟩

namespace File

theorem canonical_extension {f : File} {target : ExtensionTarget} {d : ExtensionDescriptor}
    (h : (buildExtension s f target).value = some d) : d.target = target ∧
      AscendingOutcomes FieldDescriptor.Before (fun x => (x.2.build s x.1).value)
        (f.declaredExtending target) d.fields := by
  rw [buildExtension, Built.value_importing] at h
  obtain ⟨fields, hfields, rfl⟩ := Option.map_eq_some_iff.1 h
  have hnodup := (numbers_of_buildExtending _ [] fields hfields).2.2
  have hdeclared : ((f.declaredExtending target).map Prod.fst).Nodup :=
    ((stableSort_perm _ (f.declaredExtending target)).map Prod.fst).nodup_iff.1 hnodup
  exact ⟨rfl, .of_byNumber (value_extending _ [] fields hfields) hdeclared
    fun x g hx => (Field.name_number_of_value hx).2⟩

/-- A built file has its lists in canonical order. -/
theorem canonical {package : String} {registry : Registry} {validateImport : String} {f : File}
    {d : FileDescriptor} (h : (f.build package registry validateImport).value = some d) :
    d.Canonical (f.scope registry validateImport) f := by
  have hmessages := (builtFrom h).imp fun x e he => he.canonical
  obtain ⟨e, he, rfl⟩ := Option.map_eq_some_iff.1 h
  obtain ⟨-, henums, hservices, hextensions⟩ := value_buildDeclarations he
  exact {
    messages := hmessages
    enums := (Built.forall₂_of_value_list henums).imp fun _ _ hc => Enum.canonical hc
    services := (Built.forall₂_of_value_list hservices).imp fun _ _ hv => Service.canonical hv
    extensions := (Built.forall₂_of_value_list hextensions).imp fun _ _ hx =>
      canonical_extension hx }

end File

/-! ## Packages -/

namespace Package

/-- **Canonical output.** Packages that differ in the order of calls only both build, with the same
descriptor, or both do not. Whatever is built has its lists in canonical order, with the outcomes of
all that was declared. -/
theorem canonical_output (p : Package) :
    (∀ q, p.Reordered q → (∃ d, p.build = .ok d ∧ q.build = .ok d) ∨
      ∃ r r', p.build = .error r ∧ q.build = .error r') ∧
    ∀ d, p.build = .ok d →
      List.Forall₂ (fun f fd => fd.Canonical (p.fileScope f) f) p.files d.files := by
  refine ⟨fun q h => ?_, fun d h => (value_files h).2.imp fun f fd hfd => File.canonical hfd⟩
  have hvalue := value_built_of_reordered h
  rw [build_eq, build_eq]
  cases hp : p.built.value with
  | some d =>
    have hq : q.built.value = some d := hvalue ▸ hp
    exact .inl ⟨d, Built.result_of_value hp, Built.result_of_value hq⟩
  | none =>
    have hq : q.built.value = none := hvalue ▸ hp
    refine .inr ⟨p.built.report, q.built.report, ?_, ?_⟩
    · rw [Built.result, hp]
    · rw [Built.result, hq]

/-- A message with fields, a oneof, an enum and names that its binding ignores, a service whose
methods are not ordered by name alone, two extensions of one target and two imports, all of them
declared in two orders. -/
theorem canonical_output_shuffled :
    let text (name : String) : Field := .leaf { head := { name }, type := .string {} }
    let order (fields choices : List (Nat × Field)) (values : List EnumValue)
        (ignored : List String) : Message := {
      name := "Order", fields, oneofs := [{ name := "ref", choices }],
      enums := [{ name := "State", values }], host := some { typePath := "Order", fields := [] },
      ignored := .ofList ignored }
    let package (message : Message) (methods : List Method) (extensions : List Extension)
        (imports : List String) : Package := {
      config := { package := "shop" }, files := [{
        name := "order.proto", messages := [message], services := [{ name := "Orders", methods }],
        extensions, imports := .ofList imports }] }
    let call (name : String) : Method :=
      { name, input := .declared "Order", output := .declared "Order" }
    let before := order [(3, text "note"), (1, text "id")] [(5, text "sku"), (4, text "url")]
      [{ name := "NEW", number := 1 }, { name := "NONE", number := 0 }] ["note", "id", "sku", "url"]
    let after := order [(1, text "id"), (3, text "note")] [(4, text "url"), (5, text "sku")]
      [{ name := "NONE", number := 0 }, { name := "NEW", number := 1 }] ["id", "note", "sku", "url"]
    let methods :=
      ["ListOrders", "UpdateA", "DeleteOrder", "Getaway", "GetB", "CreateOrder"].map call
    let p := package before methods
      [⟨.field, 50002, text "unit"⟩, ⟨.field, 50001, text "label"⟩] ["b.proto", "a.proto"]
    let q := package after methods.reverse
      [⟨.field, 50001, text "label"⟩, ⟨.field, 50002, text "unit"⟩] ["a.proto", "b.proto"]
    p.Reordered q ∧ ∃ d, p.build = .ok d ∧ q.build = .ok d ∧
      d.files.map (fun f => (f.flatMessages.map fun m => m.slots.map Prod.fst,
        f.methods.map fun m => m.name)) = [([[1, 3, 4, 5]],
          ["CreateOrder", "GetB", "UpdateA", "DeleteOrder", "Getaway", "ListOrders"])] ∧
      List.Forall₂ (fun f fd => fd.Canonical (p.fileScope f) f) p.files d.files := by
  intro text order package call before after methods p q
  have horder : ∀ {fields fields' choices choices' values values' ignored ignored'},
      fields.Perm fields' → choices.Perm choices' → (values.map EnumValue.number).Nodup →
        values.Perm values' → ignored.Perm ignored' →
          (order fields choices values ignored).Reordered
            (order fields' choices' values' ignored') :=
    fun hfields hchoices hnodup hvalues hignored =>
      .intro (.intro hfields (.cons (.intro hchoices) .nil) (.cons (.values hnodup hvalues) .nil)
        (.intro hignored)) .nil
  have hpackage : ∀ {message message' methods methods' extensions extensions' imports imports'},
      message.Reordered message' → methods.Perm methods' → extensions.Perm extensions' →
        imports.Perm imports' → (package message methods extensions imports).Reordered
          (package message' methods' extensions' imports') :=
    fun hmessage hmethods hextensions himports =>
      .intro (.cons (.intro (.cons hmessage .nil) .nil (.cons (.intro hmethods) .nil) hextensions
        (.intro himports)) .nil)
  have hreordered : p.Reordered q :=
    hpackage (horder (.swap _ _ _) (.swap _ _ _) (by decide) (.swap _ _ _) (.swap _ _ _))
      (List.reverse_perm methods).symm (.swap _ _ _) (.swap _ _ _)
  refine ⟨hreordered, ?_⟩
  obtain ⟨hsame, hcanonical⟩ := canonical_output p
  obtain ⟨e, he, horder⟩ : ∃ d, p.build = .ok d ∧
      d.files.map (fun f => (f.flatMessages.map fun m => m.slots.map Prod.fst,
        f.methods.map fun m => m.name)) = [([[1, 3, 4, 5]],
          ["CreateOrder", "GetB", "UpdateA", "DeleteOrder", "Getaway", "ListOrders"])] :=
    exists_ok_of_summary (by decide +kernel)
  rcases hsame q hreordered with ⟨d, hp, hq⟩ | ⟨r, r', hp, -⟩
  · obtain rfl := Except.ok.inj (he.symm.trans hp)
    exact ⟨e, hp, hq, horder, hcanonical e hp⟩
  · rw [he] at hp
    cases hp

end Package

end WireSchema

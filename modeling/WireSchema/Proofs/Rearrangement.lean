import WireSchema.Proofs.EnumValues
import WireSchema.Proofs.ExtensionNumbers
import WireSchema.Proofs.PackageOutcome
import WireSchema.Proofs.StableSort

/-!
# Declarations in another order

The order of some calls that declare a package does not matter: those for the fields of a message,
the choices of a oneof, the values of an enum with distinct numbers, the methods of a service, the
extensions and imports of a file, and the names that a message ignores. `Package.Reordered` relates
packages that differ in the order of such calls only, independently in every scope.

**Lists.** Where no number or name is given twice, the sorted list is the same for both
(`byNumber_eq_of_perm`), and so is its outcome. Where one is given twice, neither of the two builds.
Which of both is the case does not depend on the order (`FlatMessage.WellNumbered.of_perm`,
`Enum.Sound.of_perm`).

**Wholes.** `Built.success?` is the value of an outcome with its imports. It passes through every
combinator, so that wholes agree on it when their parts do (`Message.success?_build`, by induction
over what is nested; `File.success?_build`; `Package.value_built_of_reordered`).
-/

namespace WireSchema

/-! ## Values with their imports -/

namespace Built

variable {α β : Type}

/-- The value, with the imports that it asks for. -/
def success? (x : Built α) : Option (α × StringSet) := x.value.map fun a => (a, x.imports)

theorem success?_of_value_none {x : Built α} (h : x.value = none) : x.success? = none := by
  rw [success?, h]; rfl

theorem value_eq_of_success? {x y : Built α} (h : x.success? = y.success?) : x.value = y.value := by
  have hfst : ∀ z : Built α, z.success?.map Prod.fst = z.value := fun z => by
    simp [success?, Function.comp_def]
  rw [← hfst x, ← hfst y, h]

@[simp] theorem success?_map (f : α → β) (x : Built α) :
    (f <$> x).success? = x.success?.map fun a => (f a.1, a.2) := by
  simp [success?, Function.comp_def]

@[simp] theorem success?_seq (f : Built (α → β)) (x : Built α) :
    (f <*> x).success? =
      f.success?.bind fun g => x.success?.map fun a => (g.1 a.1, g.2 ∪ a.2) := by
  cases hf : f.value <;> cases hx : x.value <;> simp [success?, hf, hx]

@[simp] theorem success?_under (scope : String) (x : Built α) :
    (x.under scope).success? = x.success? := rfl

@[simp] theorem success?_importing (i : StringSet) (x : Built α) :
    (x.importing i).success? = x.success?.map fun a => (a.1, a.2 ∪ i) := by
  simp [success?, Function.comp_def]

/-- Checks agree when they find nothing in the same cases. -/
theorem success?_check_congr {v w : List Violation} (h : v = [] ↔ w = []) :
    (check (.ofViolations v)).success? = (check (.ofViolations w)).success? := by
  simp only [success?, value_check, imports_check, Report.ofViolations_eq_nil_iff, h]

theorem success?_check_of_ne_nil {v : List Violation} (h : v ≠ []) :
    (check (.ofViolations v)).success? = none :=
  success?_of_value_none (if_neg fun hnil => h (Report.ofViolations_eq_nil_iff.1 hnil))

/-- Lists agree when their entries do. -/
theorem success?_list_congr {ι κ : Type} {R : ι → κ → Prop} {l : List ι} {m : List κ}
    {f : ι → Built α} {g : κ → Built α} (h : List.Forall₂ R l m)
    (hfg : ∀ i k, R i k → (f i).success? = (g k).success?) :
    (list (l.map f)).success? = (list (m.map g)).success? := by
  induction h with
  | nil => rfl
  | cons hr _ ih => rw [List.map_cons, List.map_cons, list_cons, list_cons, success?_seq,
      success?_seq, success?_map, success?_map, hfg _ _ hr, ih]

end Built

/-! ## Calls in another order -/

/-- Sets of the same strings, added in any order. -/
inductive StringSet.Reordered : StringSet → StringSet → Prop
  | intro {added added' : List String} (h : added.Perm added') :
    Reordered (.ofList added) (.ofList added')

/-- The choices of a oneof in another order. -/
inductive Oneof.Reordered (o : Oneof) : Oneof → Prop
  | intro {choices : List (Nat × Field)} (h : o.choices.Perm choices) :
    Reordered o { o with choices }

/-- The values of an enum in another order, if their numbers are distinct. -/
inductive Enum.Reordered (e : Enum) : Enum → Prop
  | refl : Reordered e e
  | values {values : List EnumValue} (hnodup : (e.values.map EnumValue.number).Nodup)
      (h : e.values.Perm values) : Reordered e { e with values }

/-- The fields of a message, the choices of each oneof, the values of each enum and the ignored
names in another order. -/
inductive FlatMessage.Reordered (m : FlatMessage) : FlatMessage → Prop
  | intro {fields : List (Nat × Field)} {oneofs : List Oneof} {enums : List Enum}
      {ignored : StringSet} (hfields : m.fields.Perm fields)
      (honeofs : List.Forall₂ Oneof.Reordered m.oneofs oneofs)
      (henums : List.Forall₂ Enum.Reordered m.enums enums)
      (hignored : m.ignored.Reordered ignored) :
    Reordered m { m with fields, oneofs, enums, ignored }

namespace Message

mutual

/-- Each message on its own, the nested ones included. -/
inductive Reordered : Message → Message → Prop
  | intro {m m' : FlatMessage} {nested nested' : List Message} (h : m.Reordered m')
      (hnested : ReorderedAll nested nested') : Reordered ⟨m, nested⟩ ⟨m', nested'⟩

inductive ReorderedAll : List Message → List Message → Prop
  | nil : ReorderedAll [] []
  | cons {m m' : Message} {ms ms' : List Message} (h : Reordered m m')
      (hrest : ReorderedAll ms ms') : ReorderedAll (m :: ms) (m' :: ms')

end

end Message

/-- The methods of a service in another order. -/
inductive Service.Reordered (v : Service) : Service → Prop
  | intro {methods : List Method} (h : v.methods.Perm methods) : Reordered v { v with methods }

/-- The extensions and imports of a file in another order, and each of its declarations on its own.
-/
inductive File.Reordered (f : File) : File → Prop
  | intro {messages : List Message} {enums : List Enum} {services : List Service}
      {extensions : List Extension} {imports : StringSet}
      (hmessages : Message.ReorderedAll f.messages messages)
      (henums : List.Forall₂ Enum.Reordered f.enums enums)
      (hservices : List.Forall₂ Service.Reordered f.services services)
      (hextensions : f.extensions.Perm extensions) (himports : f.imports.Reordered imports) :
    Reordered f { f with messages, enums, services, extensions, imports }

/-- Each file of a package on its own. -/
inductive Package.Reordered (p : Package) : Package → Prop
  | intro {files : List File} (h : List.Forall₂ File.Reordered p.files files) :
    Reordered p { p with files }

theorem StringSet.Reordered.eq {s t : StringSet} (h : s.Reordered t) : s = t := by
  obtain ⟨h⟩ := h
  exact StringSet.ext fun p => by rw [mem_ofList, mem_ofList, h.mem_iff]

/-! ## Oneofs and enums -/

theorem Oneof.Reordered.choices_perm {o o' : Oneof} (h : o.Reordered o') :
    o.choices.Perm o'.choices := by
  obtain ⟨h⟩ := h
  exact h

theorem Oneof.build_of_reordered {o o' : Oneof} (h : o.Reordered o')
    (hnodup : (o.choices.map Prod.fst).Nodup) (s : Scope) : o.build s = o'.build s := by
  obtain ⟨h⟩ := h
  unfold build
  rw [byNumber_eq_of_perm h hnodup]
  rfl

namespace Enum

variable {e e' : Enum}

theorem success?_build (h : e.Reordered e') (s : Scope) :
    (e.build s).success? = (e'.build s).success? := by
  cases h with
  | refl => rfl
  | @values values hnodup h =>
    have hchecks : e.violations = [] ↔ violations { e with values } = [] := by
      rw [violations_eq_nil_iff, violations_eq_nil_iff]
      exact ⟨Sound.of_perm h, Sound.of_perm h.symm⟩
    have hvalues : ((e.values.map fun v => (⟨v.name, v.number, v.options⟩ :
        EnumValueDescriptor)).map EnumValueDescriptor.number).Nodup := by
      rwa [List.map_map]
    have hsorted := stableSort_eq_of_perm sortsBy_precedes
      (h.map fun v => (⟨v.name, v.number, v.options⟩ : EnumValueDescriptor))
      fun a ha b hb hab hba =>
        List.inj_on_of_nodup_map hvalues ha hb (number_eq_of_precedes hab hba)
    have hdescriptor : e.descriptor s = descriptor s { e with values } := by
      unfold descriptor
      rw [hsorted]
    rw [build, build, Built.success?_map, Built.success?_map, hdescriptor]
    exact congrArg _ (Built.success?_check_congr hchecks)

/-- Enums that stand side by side. -/
theorem success?_buildAll {enums enums' : List Enum} (h : List.Forall₂ Reordered enums enums')
    (s : Scope) : (FlatMessage.buildEnums s enums).success? =
      (FlatMessage.buildEnums s enums').success? :=
  Built.success?_list_congr h fun _ _ he => success?_build he s

theorem Reordered.name_eq (h : e.Reordered e') : e'.name = e.name := by
  cases h <;> rfl

end Enum

/-! ## Messages -/

namespace FlatMessage

variable {m m' : FlatMessage}

theorem Reordered.choices_perm {oneofs oneofs' : List Oneof}
    (h : List.Forall₂ Oneof.Reordered oneofs oneofs') :
    (oneofs.flatMap Oneof.choices).Perm (oneofs'.flatMap Oneof.choices) := by
  induction h with
  | nil => exact .refl _
  | cons ho _ ih => exact ho.choices_perm.append ih

theorem Reordered.slots_perm (h : m.Reordered m') : m.slots.Perm m'.slots := by
  obtain ⟨hfields, honeofs, -, -⟩ := h
  exact (hfields.append (choices_perm honeofs)).map _

/-- Whether a message is well numbered does not depend on the order of its slots. -/
theorem WellNumbered.of_perm (h : m.slots.Perm m'.slots) (hranges : m'.reservedRanges =
    m.reservedRanges) (hnames : m'.reservedNames = m.reservedNames) (hm : m.WellNumbered) :
    m'.WellNumbered where
  valid x hx := hm.valid x (h.mem_iff.2 hx)
  numbers_nodup := (h.map _).nodup_iff.1 hm.numbers_nodup
  names_nodup := (h.map _).nodup_iff.1 hm.names_nodup
  ranges r hr := hm.ranges r (hranges ▸ hr)
  numbers_free r hr x hx := hm.numbers_free r (hranges ▸ hr) x (h.mem_iff.2 hx)
  names_free name hname hmem := hm.names_free name (hnames ▸ hname) ((h.map _).mem_iff.2 hmem)

theorem wellNumbered_iff (h : m.Reordered m') : m.WellNumbered ↔ m'.WellNumbered := by
  have hslots := h.slots_perm
  obtain ⟨-, -, -, -⟩ := h
  exact ⟨.of_perm hslots rfl rfl, .of_perm hslots.symm rfl rfl⟩

/-! ### Drift -/

theorem Reordered.expectedTypes_perm (h : m.Reordered m') :
    m.expectedTypes.Perm m'.expectedTypes := by
  obtain ⟨hfields, honeofs, -, -⟩ := h
  exact (hfields.map _).append ((choices_perm honeofs).map _)

theorem hostFieldDrift_of_perm {expected expected' : List (String × String)}
    (h : expected.Perm expected') (f : HostField) :
    hostFieldDrift expected f = hostFieldDrift expected' f := by
  have htypes := (h.filter (·.1 == f.name)).map Prod.snd
  unfold hostFieldDrift
  revert htypes
  generalize (expected.filter (·.1 == f.name)).map Prod.snd = types
  generalize (expected'.filter (·.1 == f.name)).map Prod.snd = types'
  intro htypes
  match types, types', htypes with
  | [], types', htypes => rw [htypes.nil_eq]
  | [type], types', htypes => rw [List.singleton_perm.1 htypes]
  | a :: b :: rest, types', htypes =>
    have hlen := htypes.length_eq
    match types', hlen with
    | c :: d :: rest', hlen => simp only [hlen]

/-- A message drifts from its host record whatever the order of its fields. -/
theorem drift_eq (h : m.Reordered m') : m.drift = m'.drift := by
  have htypes := h.expectedTypes_perm
  have hdrift : hostFieldDrift m.expectedTypes = hostFieldDrift m'.expectedTypes :=
    funext (hostFieldDrift_of_perm htypes)
  have hnames : StringSet.ofList (m.expectedTypes.map Prod.fst) =
      StringSet.ofList (m'.expectedTypes.map Prod.fst) :=
    StringSet.Reordered.eq ⟨htypes.map Prod.fst⟩
  have hfrom : ∀ host, m.driftFrom host = m'.driftFrom host := fun host => by
    unfold driftFrom
    rw [hdrift, hnames]
    obtain ⟨-, -, -, hignored⟩ := h
    obtain rfl := hignored.eq
    rfl
  unfold drift
  rw [funext hfrom]
  obtain ⟨-, -, -, -⟩ := h
  rfl

/-! ### Parts -/

theorem success?_checks (h : m.Reordered m') : m.checks.success? = m'.checks.success? :=
  Built.success?_check_congr (by
    rw [List.append_eq_nil_iff, List.append_eq_nil_iff, numberingViolations_eq_nil_iff,
      numberingViolations_eq_nil_iff, wellNumbered_iff h, drift_eq h])

/-- The checks of a message that is not well numbered fail. -/
theorem success?_checks_of_not_wellNumbered (h : ¬ m.WellNumbered) : m.checks.success? = none :=
  Built.success?_check_of_ne_nil fun hnil =>
    h (m.numberingViolations_eq_nil_iff.1 (List.append_eq_nil_iff.1 hnil).2)

theorem buildFields_eq (h : m.Reordered m') (hm : m.WellNumbered) (s : Scope) :
    m.buildFields s = m'.buildFields s := by
  obtain ⟨hfields, -, -, -⟩ := h
  unfold buildFields
  rw [byNumber_eq_of_perm hfields hm.fields_nodup]

theorem buildOneofs_eq (h : m.Reordered m') (hm : m.WellNumbered) (s : Scope) :
    m.buildOneofs s = m'.buildOneofs s := by
  have hnodup : ∀ o ∈ m.oneofs, (o.choices.map Prod.fst).Nodup := fun o ho => hm.choices_nodup ho
  obtain ⟨-, honeofs, -, -⟩ := h
  unfold buildOneofs
  refine congrArg Built.list
    (map_eq_map_of_forall₂ ((List.forall₂_and_left _ _).2 ⟨hnodup, honeofs⟩) fun o o' ho => ?_)
  rw [Oneof.build_of_reordered ho.2 ho.1]
  obtain ⟨-⟩ := ho.2
  rfl

end FlatMessage

namespace Message

mutual

/-- **A message builds in any order.** Either neither of the two builds, or both do, with the same
descriptor and the same imports. -/
theorem success?_build : ∀ {m m' : Message} (s : Scope), m.Reordered m' →
    (m.build s).success? = (m'.build s).success?
  | ⟨m, nested⟩, ⟨m', nested'⟩, s, .intro h hnested => by
    have hchecks := FlatMessage.success?_checks h
    by_cases hm : m.WellNumbered
    · have hfields := FlatMessage.buildFields_eq h hm (s.enter m.name)
      have honeofs := FlatMessage.buildOneofs_eq h hm (s.enter m.name)
      have hmessages := success?_buildAll (s.enter m.name) hnested
      obtain ⟨-, -, henums, -⟩ := h
      have henums := Enum.success?_buildAll henums (s.enter m.name)
      rw [build, build]
      simp only [Built.success?_importing, Built.success?_seq, Built.success?_map]
      rw [hchecks, hfields, honeofs, hmessages, henums]
      rfl
    · -- a repeated number or name fails the checks on both sides
      have hm' : ¬ m'.WellNumbered := fun hm' => hm ((FlatMessage.wellNumbered_iff h).2 hm')
      rw [build, build]
      simp only [Built.success?_importing, Built.success?_seq, Built.success?_map,
        FlatMessage.success?_checks_of_not_wellNumbered hm,
        FlatMessage.success?_checks_of_not_wellNumbered hm', Option.map_none, Option.bind_none]

theorem success?_buildAll : ∀ {ms ms' : List Message} (s : Scope), ReorderedAll ms ms' →
    (buildAll s ms).success? = (buildAll s ms').success?
  | [], [], _, .nil => rfl
  | m :: ms, m' :: ms', s, .cons h hrest => by
    rw [buildAll, buildAll]
    simp only [Built.success?_seq, Built.success?_map, Built.success?_under]
    rw [success?_build s h, success?_buildAll s hrest]

end

mutual

/-- Messages in another order declare the same types in the same order. -/
theorem declarations_of_reordered : ∀ {m m' : Message} (outer : List String), m.Reordered m' →
    m'.declarations outer = m.declarations outer
  | ⟨m, nested⟩, ⟨m', nested'⟩, outer, .intro h hnested => by
    have hall := declarationsAll_of_reordered (outer ++ [m.name]) hnested
    obtain ⟨-, -, henums, -⟩ := h
    have hnames := map_eq_map_of_forall₂ henums fun e e' he =>
      congrArg (fun name => (".".intercalate (outer ++ [m.name] ++ [name]), DeclKind.enum))
        he.name_eq.symm
    rw [declarations, declarations, hall, hnames]

theorem declarationsAll_of_reordered : ∀ {ms ms' : List Message} (outer : List String),
    ReorderedAll ms ms' → declarationsAll outer ms' = declarationsAll outer ms
  | [], [], _, .nil => rfl
  | m :: ms, m' :: ms', outer, .cons h hrest => by
    rw [declarationsAll, declarationsAll, declarations_of_reordered outer h,
      declarationsAll_of_reordered outer hrest]

end

end Message

/-! ## Services -/

theorem Service.violations_eq_nil_iff {v : Service} :
    v.violations = [] ↔ (v.methods.map Method.name).Nodup := by
  rw [violations, List.map_eq_nil_iff, repeats_eq_nil_iff]

theorem Service.success?_build {v v' : Service} (h : v.Reordered v') (s : Scope) :
    (v.build s).success? = (v'.build s).success? := by
  cases h with
  | @intro methods h =>
    have hchecks : v.violations = [] ↔ violations { v with methods } = [] := by
      rw [violations_eq_nil_iff, violations_eq_nil_iff]
      exact (h.map Method.name).nodup_iff
    rw [build, build, Built.success?_seq, Built.success?_seq, Built.success?_map,
      Built.success?_map]
    by_cases hnodup : (v.methods.map Method.name).Nodup
    · have hsorted := stableSort_eq_of_perm Method.sortsBy_precedes h fun a ha b hb hab hba =>
        List.inj_on_of_nodup_map hnodup ha hb (Method.name_eq_of_precedes hab hba)
      have hmethods : v.buildMethods s = buildMethods s { v with methods } := by
        unfold buildMethods
        rw [hsorted]
      rw [hmethods, Built.success?_check_congr hchecks]
    · -- a repeated name fails the check on both sides
      have hv : v.violations ≠ [] := fun hnil => hnodup (violations_eq_nil_iff.1 hnil)
      have hv' : violations { v with methods } ≠ [] := fun hnil => hv (hchecks.2 hnil)
      rw [Built.success?_check_of_ne_nil hv, Built.success?_check_of_ne_nil hv']
      rfl

/-! ## Files -/

namespace File

variable {f f' : File}

/-- The declared fields that extend a target, with their numbers. -/
def declaredExtending (f : File) (target : ExtensionTarget) : List (Nat × Field) :=
  (f.extensions.filter (·.target = target)).map fun e => (e.number, e.field)

theorem declaredExtending_perm (h : f.Reordered f') (target : ExtensionTarget) :
    (f.declaredExtending target).Perm (f'.declaredExtending target) := by
  obtain ⟨-, -, -, hextensions, -⟩ := h
  exact (hextensions.filter _).map _

theorem extended_eq (h : f.Reordered f') : f'.extended = f.extended := by
  have hperm : ∀ target, (f'.extending target).Perm (f.extending target) := fun target =>
    (stableSort_perm _ _).trans ((declaredExtending_perm h target).symm.trans
      (stableSort_perm _ _).symm)
  unfold extended
  refine List.filter_congr fun target _ => ?_
  rw [(hperm target).isEmpty_eq]

theorem success?_buildExtension (h : f.Reordered f') (s : Scope) (target : ExtensionTarget) :
    (buildExtension s f target).success? = (buildExtension s f' target).success? := by
  have hperm := declaredExtending_perm h target
  rw [buildExtension, buildExtension, Built.success?_importing, Built.success?_importing,
    Built.success?_map, Built.success?_map]
  by_cases hnodup : ((f.declaredExtending target).map Prod.fst).Nodup
  · have hsame : f.extending target = f'.extending target := byNumber_eq_of_perm hperm hnodup
    rw [hsame]
  · -- a repeated number fails the block on both sides
    have hfails : ∀ g : File, ¬ ((g.declaredExtending target).map Prod.fst).Nodup →
        (buildExtending s [] (g.extending target)).success? = none := fun g hg => by
      refine Built.success?_of_value_none (Option.eq_none_iff_forall_ne_some.2 fun ds hds => hg ?_)
      have hsorted := (numbers_of_buildExtending _ [] ds hds).2.2
      exact ((stableSort_perm _ (g.declaredExtending target)).map Prod.fst).nodup_iff.1 hsorted
    rw [hfails f hnodup, hfails f' fun hf' => hnodup ((hperm.map _).nodup_iff.2 hf')]

theorem success?_buildExtensions (h : f.Reordered f') (s : Scope) :
    (Built.list (f.extended.map fun target =>
        (buildExtension s f target).under ("extend " ++ target.extendee))).success? =
      (Built.list (f'.extended.map fun target =>
        (buildExtension s f' target).under ("extend " ++ target.extendee))).success? := by
  rw [extended_eq h]
  refine Built.success?_list_congr (R := Eq) (List.forall₂_refl _) fun target _ he => ?_
  subst he
  exact success?_buildExtension h s target

theorem success?_buildServices {services services' : List Service}
    (h : List.Forall₂ Service.Reordered services services') (s : Scope) :
    (Built.list (services.map fun v => (v.build s).under (scopeOf "service" v.name))).success? =
      (Built.list (services'.map fun v =>
        (v.build s).under (scopeOf "service" v.name))).success? :=
  Built.success?_list_congr h fun _ _ hv => Service.success?_build hv s

theorem success?_buildDeclarations (h : f.Reordered f') (s : Scope) :
    (f.buildDeclarations s).success? = (f'.buildDeclarations s).success? := by
  have hextensions := success?_buildExtensions h s
  obtain ⟨hmessages, henums, hservices, -, -⟩ := h
  unfold buildDeclarations
  simp only [Built.success?_seq, Built.success?_map]
  rw [Message.success?_buildAll s hmessages, Enum.success?_buildAll henums s,
    success?_buildServices hservices s, hextensions]

/-- A built file has the imports that its declarations ask for and those that it names. -/
theorem success?_build_eq (f : File) (package : String) (registry : Registry)
    (validateImport : String) : (f.build package registry validateImport).success? =
      (f.buildDeclarations (f.scope registry validateImport)).success?.map fun d =>
        ({ name := f.name, package, imports := (d.2 ∪ f.imports).erase f.name,
           options := f.options, messages := d.1.messages, enums := d.1.enums,
           services := d.1.services, extensions := d.1.extensions }, d.2) := by
  simp [build, Built.success?, Function.comp_def]

/-- **A file builds in any order.** Either neither of the two builds, or both do, with the same
descriptor and the same imports. -/
theorem success?_build (h : f.Reordered f') (package : String) (registry : Registry)
    (validateImport : String) : (f.build package registry validateImport).success? =
      (f'.build package registry validateImport).success? := by
  have hdeclarations := success?_buildDeclarations h (f.scope registry validateImport)
  rw [success?_build_eq, success?_build_eq, hdeclarations]
  obtain ⟨-, -, -, -, himports⟩ := h
  obtain rfl := himports.eq
  rfl

theorem Reordered.name_eq (h : f.Reordered f') : f'.name = f.name := by
  obtain ⟨-, -, -, -, -⟩ := h
  rfl

theorem declarations_of_reordered (h : f.Reordered f') : f'.declarations = f.declarations := by
  obtain ⟨hmessages, henums, -, -, -⟩ := h
  have hnames := map_eq_map_of_forall₂ henums fun e e' he =>
    congrArg (fun name => (name, DeclKind.enum)) he.name_eq.symm
  unfold declarations
  rw [Message.declarationsAll_of_reordered [] hmessages, hnames]

end File

/-! ## Packages -/

namespace Package

variable {p q : Package}

theorem declaredTypes_of_reordered {files files' : List File}
    (h : List.Forall₂ File.Reordered files files') :
    declaredTypes files' = declaredTypes files := by
  induction h with
  | nil => rfl
  | cons hf _ ih =>
    unfold declaredTypes at ih ⊢
    rw [List.flatMap_cons, List.flatMap_cons, ih, File.declarations_of_reordered hf, hf.name_eq]

/-- **A package builds in any order**, with the same descriptor, if it builds at all. -/
theorem value_built_of_reordered (h : p.Reordered q) : p.built.value = q.built.value := by
  refine Built.value_eq_of_success? ?_
  cases h with
  | @intro files h =>
    have hregistry : Registry.ofFiles files = Registry.ofFiles p.files := by
      unfold Registry.ofFiles
      rw [declaredTypes_of_reordered h]
    have hnames : nameViolations { p with files } = p.nameViolations := by
      unfold nameViolations
      rw [map_eq_map_of_forall₂ h fun f f' hf => hf.name_eq.symm]
    have hfiles : ∀ registry, (p.buildFiles registry).success? =
        (buildFiles { p with files } registry).success? := fun registry =>
      Built.success?_list_congr h fun f f' hf => File.success?_build hf _ _ _
    simp only [built, Built.success?_under, Built.success?_seq, Built.success?_map, hregistry,
      hnames, hfiles]
    rfl

end Package

end WireSchema

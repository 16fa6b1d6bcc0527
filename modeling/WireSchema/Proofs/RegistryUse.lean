import WireSchema.Proofs.Nesting

/-!
# What a build asks of the registry

The registry of a package enters a build only through the references that are looked up in it. Where
the references of a declaration resolve alike in two registries, it has the same outcome in both:
value, report and imports.

* `Field.build_withRegistry`: for a field, by cases on its kind.
* `Message.build_withRegistry`: for a message, by induction over what is nested.
* `File.build_withRegistry`: for a file.
-/

namespace WireSchema

/-- The scope with the types of another registry. -/
def Scope.withRegistry (r : Registry) (s : Scope) : Scope := { s with registry := r }

/-- The references resolve with the types of `r` as they do in the scope. -/
def Scope.ResolvesAlike (s : Scope) (r : Registry) (references : List Reference) : Prop :=
  ∀ x ∈ references, x.resolve (s.withRegistry r) = x.resolve s

variable {s : Scope} {r : Registry}

/-! ## Fields -/

theorem LeafType.wireKind_withRegistry {t : LeafType} (h : ∀ x ∈ t.reference?,
    (s.withRegistry r).resolve x.1 x.2 = s.resolve x.1 x.2) :
    t.wireKind (s.withRegistry r) = t.wireKind s := by
  cases t with
  | number _ _ | bool _ | string _ | bytes _ => rfl
  | enum _ _ | message _ | timestamp _ | duration _ | any _ =>
    simp only [wireKind]
    rw [h _ rfl]

theorem LeafField.build_withRegistry {f : LeafField} (n : Nat)
    (h : s.ResolvesAlike r ((Field.leaf f).references s.path)) :
    f.build (s.withRegistry r) n = f.build s n := by
  have hkind : f.type.wireKind (s.withRegistry r) = f.type.wireKind s :=
    LeafType.wireKind_withRegistry fun x hx =>
      h ⟨s.path, x.1, x.2⟩ (List.mem_map.2 ⟨x, Option.mem_toList.2 hx, rfl⟩)
  unfold build
  rw [hkind]
  rfl

namespace Field

theorem buildElement_withRegistry {f : Field} (n : Nat) (outer : String)
    (h : s.ResolvesAlike r (f.references s.path)) :
    buildElement (s.withRegistry r) n outer f = buildElement s n outer f := by
  cases f with
  | leaf f => exact LeafField.build_withRegistry n h
  | repeated _ _ _ _ | map _ _ _ _ => rfl

theorem build_withRegistry {f : Field} (n : Nat) (h : s.ResolvesAlike r (f.references s.path)) :
    f.build (s.withRegistry r) n = f.build s n := by
  cases f with
  | leaf f => exact LeafField.build_withRegistry n h
  | repeated head item count unique =>
    have hitem : s.ResolvesAlike r (item.references s.path) := h
    simp only [build]
    rw [buildElement_withRegistry n "repeated" hitem]
    rfl
  | map head key value pairs =>
    have hkey : s.ResolvesAlike r (key.references s.path) := fun x hx =>
      h x (List.mem_append_left _ hx)
    have hvalue : s.ResolvesAlike r (value.references s.path) := fun x hx =>
      h x (List.mem_append_right _ hx)
    simp only [build]
    rw [buildElement_withRegistry 1 "map" hkey, buildElement_withRegistry 2 "map" hvalue]
    rfl

end Field

theorem Oneof.buildChoice_withRegistry {f : Field} (oneof : String) (n : Nat)
    (h : s.ResolvesAlike r (f.references s.path)) :
    buildChoice (s.withRegistry r) oneof n f = buildChoice s oneof n f := by
  have hpresent : s.ResolvesAlike r (f.withoutPresence.references s.path) := by simpa using h
  unfold buildChoice
  rw [Field.build_withRegistry n hpresent]

theorem Oneof.build_withRegistry {o : Oneof}
    (h : ∀ x ∈ o.choices, s.ResolvesAlike r (x.2.references s.path)) :
    o.build (s.withRegistry r) = o.build s := by
  have hchoices : ((byNumber o.choices).map fun x =>
      (buildChoice (s.withRegistry r) o.name x.1 x.2).under (scopeOf "field" x.2.name)) =
      (byNumber o.choices).map fun x =>
        (buildChoice s o.name x.1 x.2).under (scopeOf "field" x.2.name) :=
    List.map_congr_left fun x hx => congrArg (Built.under _)
      (buildChoice_withRegistry o.name x.1 (h x (mem_byNumber.1 hx)))
  unfold build
  rw [hchoices]
  rfl

/-! ## Messages -/

namespace FlatMessage

variable {m : FlatMessage}

theorem buildFields_withRegistry (h : ∀ x ∈ m.fields, s.ResolvesAlike r (x.2.references s.path)) :
    m.buildFields (s.withRegistry r) = m.buildFields s := by
  unfold buildFields
  exact congrArg Built.list (List.map_congr_left fun x hx => congrArg (Built.under _)
    (Field.build_withRegistry x.1 (h x (mem_byNumber.1 hx))))

theorem buildOneofs_withRegistry (h : ∀ o ∈ m.oneofs, ∀ x ∈ o.choices,
    s.ResolvesAlike r (x.2.references s.path)) :
    m.buildOneofs (s.withRegistry r) = m.buildOneofs s := by
  unfold buildOneofs
  refine congrArg Built.list (List.map_congr_left fun o ho => ?_)
  rw [Oneof.build_withRegistry (h o ho)]

end FlatMessage

namespace Message

mutual

theorem build_withRegistry : ∀ (m : Message) (s : Scope),
    (∀ x ∈ m.flatten s.path, ∀ y ∈ x.2.allFields, s.ResolvesAlike r (y.2.references x.1)) →
      m.build (s.withRegistry r) = m.build s
  | ⟨m, nested⟩, s, h => by
    -- a reference is looked up where it stands, so the scope inside the message does as well
    have hown : ∀ y ∈ m.allFields, (s.enter m.name).ResolvesAlike r
        (y.2.references (s.path ++ [m.name])) := fun y hy => h _ List.mem_cons_self y hy
    have hfields := FlatMessage.buildFields_withRegistry (s := s.enter m.name) (r := r) (m := m)
      fun x hx => hown x (List.mem_append_left _ hx)
    have honeofs := FlatMessage.buildOneofs_withRegistry (s := s.enter m.name) (r := r) (m := m)
      fun o ho x hx => hown x (List.mem_append_right _ (List.mem_flatMap.2 ⟨o, ho, hx⟩))
    have hnested := buildAll_withRegistry nested (s.enter m.name)
      fun x hx => h x (List.mem_cons_of_mem _ hx)
    have henter : (s.withRegistry r).enter m.name = (s.enter m.name).withRegistry r := rfl
    rw [build, build, henter, hfields, honeofs, hnested]
    rfl

theorem buildAll_withRegistry : ∀ (ms : List Message) (s : Scope),
    (∀ x ∈ flattenAll s.path ms, ∀ y ∈ x.2.allFields, s.ResolvesAlike r (y.2.references x.1)) →
      buildAll (s.withRegistry r) ms = buildAll s ms
  | [], _, _ => rfl
  | m :: ms, s, h => by
    rw [buildAll, buildAll,
      build_withRegistry m s fun x hx => h x (List.mem_append_left _ hx),
      buildAll_withRegistry ms s fun x hx => h x (List.mem_append_right _ hx)]

end

end Message

/-! ## Services and files -/

theorem Method.build_withRegistry {m : Method} (hs : s.path = [])
    (h : s.ResolvesAlike r m.references) : m.build (s.withRegistry r) = m.build s := by
  have htop : ∀ t : Scope, t.path = [] → ∀ target,
      Reference.resolve t ⟨[], .message, target⟩ = t.resolve .message target := by
    intro t ht target
    rw [Reference.resolve, ← ht]
  have hinput := h ⟨[], .message, m.input⟩ (by simp [references])
  have houtput := h ⟨[], .message, m.output⟩ (by simp [references])
  rw [htop (s.withRegistry r) hs, htop s hs] at hinput houtput
  unfold build buildReference
  rw [hinput, houtput]

theorem Service.build_withRegistry {v : Service} (hs : s.path = [])
    (h : ∀ m ∈ v.methods, s.ResolvesAlike r m.references) :
    v.build (s.withRegistry r) = v.build s := by
  have hmethods : v.buildMethods (s.withRegistry r) = v.buildMethods s := by
    unfold buildMethods
    refine congrArg Built.list (List.map_congr_left fun m hm => ?_)
    rw [Method.build_withRegistry hs (h m ((stableSort_perm _ _).mem_iff.1 hm))]
  rw [build, build, hmethods]

namespace File

theorem buildExtending_withRegistry (fields : List (Nat × Field)) : ∀ earlier,
    (∀ x ∈ fields, s.ResolvesAlike r (x.2.references s.path)) →
      buildExtending (s.withRegistry r) earlier fields = buildExtending s earlier fields := by
  induction fields with
  | nil => exact fun _ _ => rfl
  | cons x rest ih =>
    obtain ⟨n, f⟩ := x
    intro earlier h
    rw [buildExtending, buildExtending,
      Field.build_withRegistry n (h (n, f) List.mem_cons_self),
      ih _ fun y hy => h y (List.mem_cons_of_mem _ hy)]

/-- **A file depends on a registry through its references only.** -/
theorem build_withRegistry {package : String} {registry : Registry} {validateImport : String}
    {f : File} (h : (f.scope registry validateImport).ResolvesAlike r f.references) :
    f.build package r validateImport = f.build package registry validateImport := by
  have hscope : f.scope r validateImport = (f.scope registry validateImport).withRegistry r := rfl
  have hfield : ∀ path g, (path, g) ∈ f.fields →
      (f.scope registry validateImport).ResolvesAlike r (g.references path) :=
    fun path g hg x hx => h x (mem_references.2 (.inl ⟨path, g, hg, hx⟩))
  have hmessages := Message.buildAll_withRegistry (r := r) f.messages
    (f.scope registry validateImport) fun x hx y hy =>
      hfield x.1 y.2 (mem_fields.2 (.inl ⟨x.2, hx, y.1, hy⟩))
  have hservices : (f.services.map fun v =>
      (v.build (f.scope r validateImport)).under (scopeOf "service" v.name)) =
      f.services.map fun v =>
        (v.build (f.scope registry validateImport)).under (scopeOf "service" v.name) :=
    List.map_congr_left fun v hv => by
      rw [hscope, Service.build_withRegistry rfl fun m hm x hx =>
        h x (mem_references.2 (.inr ⟨v, hv, m, hm, hx⟩))]
  have hextensions : ∀ target, buildExtension (f.scope r validateImport) f target =
      buildExtension (f.scope registry validateImport) f target := fun target => by
    have hblock : ∀ x ∈ f.extending target,
        (f.scope registry validateImport).ResolvesAlike r (x.2.references []) := fun x hx => by
      obtain ⟨e, he, -, -, hfe⟩ := mem_extending.1 hx
      exact hfield [] x.2 (mem_fields.2 (.inr ⟨rfl, e, he, hfe⟩))
    rw [buildExtension, buildExtension, hscope, buildExtending_withRegistry _ [] hblock]
  have hdeclarations : f.buildDeclarations (f.scope r validateImport) =
      f.buildDeclarations (f.scope registry validateImport) := by
    rw [buildDeclarations, buildDeclarations, hservices, hscope, hmessages]
    simp only [← hscope, hextensions]
    rfl
  rw [build, build, hdeclarations]

end File

end WireSchema

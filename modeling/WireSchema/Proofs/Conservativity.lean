import WireSchema.Proofs.Converters
import WireSchema.Proofs.PackageOutcome
import WireSchema.Proofs.RegistryUse

/-!
# Adding and reordering files

All references of a package are looked up in one registry, which every file extends, and inner
scopes come first. A file that is added could therefore capture a reference only with a declaration
inside a message around it. The first component of such a name is a top-level message that another
file declares, which the added file may not declare again. Components are identifiers, without dots:
declaring a file checks that (`File.named_add`).

* `File.not_declares_within`: files without a common name do not reach into each other's scopes.
* `Reference.resolve_of_grown`: a reference that resolves keeps what it stands for while the
  registry grows outside of the scopes around it.
* `Package.files_conservative`: a file that is added leaves the descriptors of the others as they
  are, and files in another order have the same descriptors in that order.
-/

namespace WireSchema

/-! ## Dotted names -/

namespace Name

/-- A dotted name begins with the first of the identifiers it is made of. -/
theorem takeWhile_intercalate {n : String} (hn : isIdentifier n = true) (l : List String) :
    (".".intercalate (n :: l)).toList.takeWhile (· != '.') = n.toList := by
  have hclear : ∀ c ∈ n.toList, (c != '.') = true := fun c hc => by
    have hne : c ≠ '.' := fun he => dot_not_mem hn (he ▸ hc)
    simpa using hne
  obtain ⟨rest, hsplit, hrest⟩ : ∃ rest, (".".intercalate (n :: l)).toList = n.toList ++ rest ∧
      rest.takeWhile (· != '.') = [] := by
    cases l with
    | nil => exact ⟨[], by rw [String.intercalate_singleton, List.append_nil], rfl⟩
    | cons m l =>
      exact ⟨'.' :: (".".intercalate (m :: l)).toList, by simp [String.intercalate_cons_cons], rfl⟩
  rw [hsplit, List.takeWhile_append_of_pos hclear, hrest, List.append_nil]

/-- The first identifier of a dotted name is determined by the name. -/
theorem head_eq_of_intercalate_eq {n m : String} {l k : List String}
    (hn : isIdentifier n = true) (hm : isIdentifier m = true)
    (h : ".".intercalate (n :: l) = ".".intercalate (m :: k)) : n = m := by
  rw [← String.toList_inj, ← takeWhile_intercalate hn l, ← takeWhile_intercalate hm k, h]

end Name

/-! ## Where references stand -/

theorem Field.path_of_mem_references {path : List String} {x : Reference} : ∀ {f : Field},
    x ∈ f.references path → x.path = path
  | .leaf f, h => by
    obtain ⟨y, -, rfl⟩ := List.mem_map.1 h
    rfl
  | .repeated _ item _ _, h => path_of_mem_references (f := item) h
  | .map _ key value _, h => by
    rcases List.mem_append.1 h with h | h
    · exact path_of_mem_references (f := key) h
    · exact path_of_mem_references (f := value) h

namespace File

variable {f g : File} {x : Reference}

/-- A reference stands at package level or in a message of the file. -/
theorem path_of_mem_references (h : x ∈ f.references) :
    x.path = [] ∨ ∃ m, (x.path, m) ∈ Message.flattenAll [] f.messages := by
  rcases mem_references.1 h with ⟨path, field, hfield, hx⟩ | ⟨v, -, m, -, hx⟩
  · rw [Field.path_of_mem_references hx]
    rcases mem_fields.1 hfield with ⟨m, hm, -⟩ | ⟨rfl, -⟩
    · exact .inr ⟨m, hm⟩
    · exact .inl rfl
  · have hpair : x = ⟨[], .message, m.input⟩ ∨ x = ⟨[], .message, m.output⟩ := by
      simpa [Method.references] using hx
    rcases hpair with rfl | rfl <;> exact .inl rfl

/-- The messages around a reference are declared by its file. -/
theorem declares_around (h : x ∈ f.references) {around : List String} (haround : around <+: x.path)
    (hne : around ≠ []) : ∃ kind, (around, kind) ∈ f.declaredPaths := by
  rcases path_of_mem_references h with hnil | ⟨m, hm⟩
  · rw [hnil] at haround
    exact absurd (List.prefix_nil.1 haround) hne
  · exact mem_declaredPaths_of_prefix (mem_declaredPaths.2 (.inr ⟨_, m, hm, .inl ⟨rfl, rfl⟩⟩))
      haround hne

/-- A declared path starts at a type of the file itself. -/
theorem declares_head {n : String} {path : List String} {kind : DeclKind}
    (h : (n :: path, kind) ∈ f.declaredPaths) : ∃ kind', (n, kind') ∈ f.declarations := by
  obtain ⟨kind', hhead⟩ := mem_declaredPaths_of_prefix h (⟨path, rfl⟩ : [n] <+: n :: path) (by simp)
  refine ⟨kind', ?_⟩
  rw [declarations_eq]
  exact List.mem_map.2 ⟨([n], kind'), hhead,
    congrArg (·, kind') String.intercalate_singleton⟩

/-- **No file reaches into the scopes of another.** Inside a message around one of its references, a
file shares no name with a file that declares none of its types. -/
theorem not_declares_within (hf : f.Named) (hg : g.Named)
    (hdisjoint : ∀ full k k', (full, k) ∈ f.declarations → (full, k') ∉ g.declarations)
    (hx : x ∈ f.references) {inner : List String} (hinner : inner <+: x.path) (hne : inner ≠ [])
    (name : String) (kind : DeclKind) : (Registry.within inner name, kind) ∉ g.declarations := by
  intro hmem
  obtain ⟨k, hk⟩ := declares_around hx hinner hne
  have hinnerNames := isIdentifier_declaredPath hf hk
  rw [declarations_eq] at hmem
  obtain ⟨⟨path, kind'⟩, hpath, he⟩ := List.mem_map.1 hmem
  obtain ⟨hjoin, -⟩ := Prod.mk.inj he
  have hpathNames := isIdentifier_declaredPath hg hpath
  obtain ⟨m, path, rfl⟩ := List.exists_cons_of_ne_nil (declaredPath_ne_nil hpath)
  obtain ⟨n, inner, rfl⟩ := List.exists_cons_of_ne_nil hne
  -- both names begin with the message of `f` that is outermost around the reference
  have hwithin := Registry.within_intercalate hinnerNames (List.cons_ne_nil name [])
  rw [String.intercalate_singleton, List.cons_append] at hwithin
  rw [hwithin] at hjoin
  obtain rfl := Name.head_eq_of_intercalate_eq (hpathNames m (by simp)) (hinnerNames n (by simp))
    hjoin
  obtain ⟨_, hfm⟩ := declares_head hk
  obtain ⟨_, hgm⟩ := declares_head hpath
  exact hdisjoint _ _ _ hfm hgm

/-- Where no type is declared twice, the file that declares a name is the only one. -/
theorem eq_of_declares {files : List File} (htypes : ((declaredTypes files).map Prod.fst).Nodup)
    (hnames : (files.map File.name).Nodup) (hf : f ∈ files) (hg : g ∈ files) {full : String}
    {k k' : DeclKind} (hfd : (full, k) ∈ f.declarations) (hgd : (full, k') ∈ g.declarations) :
    f = g := by
  have hfmem : (full, ⟨f.name, k⟩) ∈ declaredTypes files := mem_declaredTypes.2 ⟨f, hf, rfl, hfd⟩
  have hgmem : (full, ⟨g.name, k'⟩) ∈ declaredTypes files := mem_declaredTypes.2 ⟨g, hg, rfl, hgd⟩
  have hsame := List.inj_on_of_nodup_map htypes hfmem hgmem rfl
  simp only [Prod.mk.injEq, Declaration.mk.injEq, true_and] at hsame
  exact List.inj_on_of_nodup_map hnames hf hg hsame.1

end File

/-! ## Growing registries -/

/-- The innermost scope with a property stays the innermost one while others get the property, as
long as none of these is further in. -/
theorem Registry.Innermost.of_grown {p q : List String → Prop} {scope outer : List String}
    (h : Innermost p scope outer) (hpq : ∀ o, p o → q o)
    (hqp : ∀ inner, inner <+: scope → inner ≠ [] → q inner → p inner) :
    Innermost q scope outer where
  encloses := h.encloses
  holds := hpq outer h.holds
  longest inner hinner hlt hq := by
    have hne : inner ≠ [] := List.ne_nil_of_length_pos (Nat.zero_lt_of_lt hlt)
    exact h.longest inner hinner hlt (hqp inner hinner hne hq)

/-- A reference that resolves stands for the same type in a registry that has all the declarations
of its own one and no more of them inside the scopes around the reference. -/
theorem Reference.resolve_of_grown {s : Scope} {r : Registry} {x : Reference} {t : TypeRef}
    (h : x.resolve s = .ok t)
    (hkeeps : ∀ full d, s.registry.find? full = some d → r.find? full = some d)
    (hinner : ∀ inner, inner <+: x.path → inner ≠ [] → ∀ name,
      r.Declares (Registry.within inner name) →
        s.registry.Declares (Registry.within inner name)) :
    x.resolve (s.withRegistry r) = .ok t := by
  obtain ⟨path, expected, target⟩ := x
  cases target with
  | external name importPath => exact h
  | wellKnown w => exact h
  | declared name =>
    obtain ⟨outer, d, hinnermost, hfind, hkind, rfl⟩ := Reference.resolve_declared rfl h
    have hgrows : ∀ full, s.registry.Declares full → r.Declares full := fun full hd => by
      obtain ⟨e, he⟩ := Option.isSome_iff_exists.1 hd
      exact Option.isSome_iff_exists.2 ⟨e, hkeeps full e he⟩
    have hresolve : r.resolve? path name = some (Registry.within outer name, d) :=
      Registry.resolve?_eq_some_iff.2 ⟨outer,
        hinnermost.of_grown (fun o => hgrows _) (fun o ho hne => hinner o ho hne name), rfl,
        hkeeps _ d hfind⟩
    simp only [Reference.resolve, Scope.resolve, Scope.withRegistry, hresolve, if_pos hkind]
    rfl

/-- Registries that answer alike resolve alike. -/
theorem Scope.ResolvesAlike.of_find? {s : Scope} {r : Registry}
    (h : ∀ full, r.find? full = s.registry.find? full) (references : List Reference) :
    s.ResolvesAlike r references := by
  have hresolve : ∀ path name, r.resolve? path name = s.registry.resolve? path name :=
    fun path name => by simp only [Registry.resolve?, h]
  intro x _
  simp only [Reference.resolve, Scope.resolve, Scope.withRegistry, hresolve]
  rfl

/-! ## Converters of files in another order -/

namespace ConverterDescriptor

/-- Among distinct names a host is found under its own name. -/
theorem find?_hosts_eq_some_iff {hosts : Hosts} (h : (hosts.map Prod.fst).Nodup)
    {name host : String} : hosts.find? name = some host ↔ (name, host) ∈ hosts := by
  have hreverse : (hosts.reverse.map Prod.fst).Nodup := by
    rw [List.map_reverse, List.nodup_reverse]
    exact h
  rw [Hosts.find?, lookup_eq_some_iff_mem hreverse, List.mem_reverse]

/-- Among distinct names the order of the hosts does not matter. -/
theorem find?_hosts_of_perm {a b : Hosts} (h : a.Perm b) (ha : (a.map Prod.fst).Nodup)
    (name : String) : a.find? name = b.find? name := by
  have hb : (b.map Prod.fst).Nodup := (h.map Prod.fst).nodup_iff.1 ha
  ext host
  rw [find?_hosts_eq_some_iff ha, find?_hosts_eq_some_iff hb, h.mem_iff]

theorem ofKind_congr (module : String) {a b : Hosts} (h : ∀ name, a.find? name = b.find? name) :
    ∀ kind, Conversion.ofKind module a kind = Conversion.ofKind module b kind
  | .scalar _ | .enum _ => rfl
  | .message t => by simp only [Conversion.ofKind, h]
  | .repeated ⟨_, item⟩ => by simp only [Conversion.ofKind, ofKind_congr module h item]
  | .map _ ⟨_, value⟩ => by simp only [Conversion.ofKind, ofKind_congr module h value]

theorem ofMessage?_congr (module : String) {a b : Hosts}
    (h : ∀ name, a.find? name = b.find? name) :
    MessageConverter.ofMessage? module a = MessageConverter.ofMessage? module b := by
  have hfield : ∀ d, Conversion.ofField module a d = Conversion.ofField module b d :=
    fun d => by simp only [Conversion.ofField, ofKind_congr module h]
  have hbound : ∀ m host, MessageConverter.ofBound module a m host =
      MessageConverter.ofBound module b m host := fun m host => by
    simp only [MessageConverter.ofBound, MessageConverter.conversions, hfield]
  funext m
  exact congrArg (m.host.map ·) (funext (hbound m))

theorem hosts_keys_sublist (messages : List FlatMessageDescriptor) :
    ((hosts messages).map Prod.fst).Sublist (messages.map fun m => m.fullName) :=
  map_filterMap_sublist (fun m x hx => by
    obtain ⟨host, -, rfl⟩ := Option.map_eq_some_iff.1 hx
    rfl) messages

end ConverterDescriptor

/-! ## Packages -/

instance : Inhabited FileDescriptor := ⟨⟨"", "", ∅, [], [], [], [], []⟩⟩

/-- A list of outcomes that all come out is the image of a function. -/
theorem exists_map_of_forall₂ {α β : Type} [Inhabited β] {F : α → Option β} {l : List α}
    {m : List β} (h : List.Forall₂ (fun a b => F a = some b) l m) :
    ∃ G : α → β, m = l.map G ∧ ∀ a ∈ l, F a = some (G a) := by
  refine ⟨fun a => (F a).getD default, ?_, fun a ha => ?_⟩
  · induction h with
    | nil => rfl
    | cons hab _ ih => rw [List.map_cons, ← ih, hab]; rfl
  · obtain ⟨b, -, hb⟩ := exists_of_forall₂_left h ha
    simp [hb]

namespace Package

/-- The package with other files. -/
def withFiles (p : Package) (files : List File) : Package := { p with files }

/-- The outcome of a file as part of the package. -/
def outcome (p : Package) (f : File) : Built FileDescriptor :=
  f.build p.config.package (Registry.ofFiles p.files).1 p.config.validateImport

variable {p : Package} {d d' : PackageDescriptor}

/-- A package that builds describes each of its files. -/
theorem exists_describe (h : p.build = .ok d) : ∃ describe : File → FileDescriptor,
    d.files = p.files.map describe ∧ ∀ f ∈ p.files, (p.outcome f).value = some (describe f) :=
  exists_map_of_forall₂ (value_files h).2

/-- References resolve in a package that builds. -/
theorem exists_resolve (h : p.build = .ok d) {f : File} (hf : f ∈ p.files) {x : Reference}
    (hx : x ∈ f.references) : ∃ t, x.resolve (p.fileScope f) = .ok t := by
  obtain ⟨fd, -, hfd⟩ := exists_of_forall₂_left (files_of_build h).2.2 hf
  obtain ⟨t, -, ht⟩ := exists_of_forall₂_left (hfd.references rfl) hx
  exact ⟨t, ht⟩

/-! ### A file more -/

section

variable {before after : List File} {g : File}

/-- **No capture.** What the references of a package stand for does not change with a file that is
added. -/
theorem resolve_withFiles (hfiles : p.files = before ++ after)
    (hnamed : ∀ f ∈ g :: p.files, f.Named) (hp : p.build = .ok d)
    (hq : (p.withFiles (before ++ g :: after)).build = .ok d') {f : File} (hf : f ∈ p.files)
    {x : Reference} (hx : x ∈ f.references) :
    x.resolve ((p.withFiles (before ++ g :: after)).fileScope f) = x.resolve (p.fileScope f) := by
  obtain ⟨htypes, -, -⟩ := build_eq_ok_iff.1 hp
  obtain ⟨htypes', hnames', -⟩ := build_eq_ok_iff.1 hq
  change ((declaredTypes (before ++ g :: after)).map Prod.fst).Nodup at htypes'
  change ((before ++ g :: after).map File.name).Nodup at hnames'
  have hmem : ∀ f', f' ∈ before ++ g :: after ↔ f' = g ∨ f' ∈ p.files := fun f' => by
    rw [hfiles]; simp [or_left_comm]
  have hne : f ≠ g := by
    rintro rfl
    rw [List.map_append, List.map_cons, List.nodup_middle, List.nodup_cons, ← List.map_append,
      ← hfiles] at hnames'
    exact hnames'.1 (List.mem_map_of_mem hf)
  have hdisjoint : ∀ full k k', (full, k) ∈ f.declarations → (full, k') ∉ g.declarations :=
    fun full k k' hk hk' => hne (File.eq_of_declares htypes' hnames' ((hmem f).2 (.inr hf))
      ((hmem g).2 (.inl rfl)) hk hk')
  obtain ⟨t, ht⟩ := exists_resolve hp hf hx
  rw [ht]
  refine Reference.resolve_of_grown ht (fun full e he => ?_) fun inner hinner hine name hd => ?_
  · obtain ⟨f', hf', hdecl⟩ := (Registry.find?_ofFiles_iff htypes).1 he
    exact (Registry.find?_ofFiles_iff htypes').2 ⟨f', (hmem f').2 (.inr hf'), hdecl⟩
  · obtain ⟨e, he⟩ := Option.isSome_iff_exists.1 hd
    obtain ⟨f', hf', hfile, hdecl⟩ := (Registry.find?_ofFiles_iff htypes').1 he
    rcases (hmem f').1 hf' with rfl | hf'
    · exact absurd hdecl (File.not_declares_within (hnamed f (List.mem_cons_of_mem _ hf))
        (hnamed f' List.mem_cons_self) hdisjoint hx hinner hine name e.kind)
    · exact Option.isSome_iff_exists.2
        ⟨e, (Registry.find?_ofFiles_iff htypes).2 ⟨f', hf', hfile, hdecl⟩⟩

end

/-! ### Files in another order -/

section

variable {files : List File}

theorem declaredTypes_perm (h : p.files.Perm files) :
    (declaredTypes p.files).Perm (declaredTypes files) :=
  h.flatMap_right _

/-- The files have the same outcomes in any order in which no type is declared twice. -/
theorem outcome_of_perm (h : p.files.Perm files)
    (htypes : ((declaredTypes p.files).map Prod.fst).Nodup) (f : File) :
    (p.withFiles files).outcome f = p.outcome f := by
  have htypes' : ((declaredTypes files).map Prod.fst).Nodup :=
    ((declaredTypes_perm h).map _).nodup_iff.1 htypes
  have hfind : ∀ full, (Registry.ofFiles files).1.find? full =
      (Registry.ofFiles p.files).1.find? full := fun full => by
    ext e
    simp only [Registry.find?_ofFiles_iff htypes, Registry.find?_ofFiles_iff htypes', h.mem_iff]
  exact File.build_withRegistry (.of_find? hfind _)

/-- A package that builds also builds with its files in another order, from the same descriptors.
-/
theorem build_of_perm (h : p.files.Perm files) (hp : p.build = .ok d) :
    ∃ describe : File → FileDescriptor, d.files = p.files.map describe ∧
      (p.withFiles files).build = .ok (p.descriptor (files.map describe)) := by
  obtain ⟨htypes, hnames, -⟩ := build_eq_ok_iff.1 hp
  obtain ⟨describe, hd, hdescribe⟩ := exists_describe hp
  refine ⟨describe, hd, build_eq_ok_iff.2 ⟨((declaredTypes_perm h).map _).nodup_iff.1 htypes,
    (h.map _).nodup_iff.1 hnames, files.map describe, ?_, rfl⟩⟩
  refine List.forall₂_map_right_iff.2 (List.forall₂_same.2 fun f hf => ?_)
  have hsame := congrArg Built.value (outcome_of_perm h htypes f)
  exact hsame.trans (hdescribe f (h.mem_iff.2 hf))

/-- The converters of a package that builds come in the order of its files. -/
theorem converters_of_perm (hp : p.build = .ok d) {ds : List FileDescriptor}
    (h : d.files.Perm ds) :
    (p.descriptor ds).converters.messages.Perm d.converters.messages := by
  have hmessages : (ds.flatMap FileDescriptor.flatMessages).Perm d.messages :=
    h.symm.flatMap_right _
  have hhosts : (ConverterDescriptor.hosts (ds.flatMap FileDescriptor.flatMessages)).Perm
      (ConverterDescriptor.hosts d.messages) := hmessages.filterMap _
  have hkeys : ((ConverterDescriptor.hosts d.messages).map Prod.fst).Nodup :=
    (fullName_nodup hp).sublist (ConverterDescriptor.hosts_keys_sublist _)
  have hsame := ConverterDescriptor.ofMessage?_congr p.config.generatedModule
    (ConverterDescriptor.find?_hosts_of_perm hhosts.symm hkeys)
  rw [converters_eq hp, hsame]
  exact hmessages.filterMap _

end

/-! ### Both -/

/-- **Files do not disturb each other.** When a package still builds with one more file, at any
position, every other file has the descriptor that it had, and its references stand for what they
stood for. With its files in another order a package builds just when it did, and then each file has
the descriptor that it had; the converters are those it had, in some order. -/
theorem files_conservative (p : Package) :
    (∀ before after g, p.files = before ++ after → (∀ f ∈ g :: p.files, f.Named) → ∀ d d',
      p.build = .ok d → (p.withFiles (before ++ g :: after)).build = .ok d' →
        (∃ describe : File → FileDescriptor, d.files = p.files.map describe ∧
          d'.files = (before ++ g :: after).map describe) ∧
        ∀ f ∈ p.files, ∀ x ∈ f.references,
          x.resolve ((p.withFiles (before ++ g :: after)).fileScope f) =
            x.resolve (p.fileScope f)) ∧
    ∀ files, p.files.Perm files →
      ((∃ d, p.build = .ok d) ↔ ∃ d', (p.withFiles files).build = .ok d') ∧
      ∀ d d', p.build = .ok d → (p.withFiles files).build = .ok d' →
        d'.package = d.package ∧ d'.converters.messages.Perm d.converters.messages ∧
          ∃ describe : File → FileDescriptor, d.files = p.files.map describe ∧
            d'.files = files.map describe := by
  refine ⟨fun before after g hfiles hnamed d d' hp hq => ?_, fun files hperm => ⟨⟨?_, ?_⟩, ?_⟩⟩
  · have hresolve : ∀ f ∈ p.files, ∀ x ∈ f.references, _ := fun f hf x hx =>
      resolve_withFiles hfiles hnamed hp hq hf hx
    obtain ⟨describe, hd', hdescribe⟩ := exists_describe hq
    refine ⟨⟨describe, ?_, hd'⟩, hresolve⟩
    obtain ⟨old, hd, hold⟩ := exists_describe hp
    rw [hd]
    refine List.map_congr_left fun f hf => Option.some.inj ?_
    have hsame : (p.withFiles (before ++ g :: after)).outcome f = p.outcome f :=
      File.build_withRegistry (hresolve f hf)
    have hmem : f ∈ (p.withFiles (before ++ g :: after)).files := by
      have hsplit : f ∈ before ++ after := hfiles ▸ hf
      exact (List.sublist_cons_self g after).append_left before |>.subset hsplit
    rw [← hold f hf, ← hdescribe f hmem, hsame]
  · intro h
    obtain ⟨d, hd⟩ := h
    obtain ⟨describe, -, hd'⟩ := build_of_perm hperm hd
    exact ⟨_, hd'⟩
  · intro h
    obtain ⟨d', hd'⟩ := h
    obtain ⟨describe, -, hd⟩ := build_of_perm (p := p.withFiles files) hperm.symm hd'
    exact ⟨_, hd⟩
  · intro d d' hd hd'
    obtain ⟨describe, hfiles, hbuild⟩ := build_of_perm hperm hd
    rw [hbuild] at hd'
    cases hd'
    refine ⟨?_, converters_of_perm hd ?_, describe, hfiles, rfl⟩
    · rw [(value_files hd).1]; rfl
    · rw [hfiles]; exact hperm.map describe

/-- `Order` refers to the `Line` that it nests and to an `Item` of another file. A file with a
`Basket` that nests a `Line` and an `Order` as well leaves it alone, and so does a swap. -/
theorem files_conservative_basket :
    let order : File := { name := "order.proto", messages := [
      { name := "Order", messages := [{ name := "Line" }], fields := [
        (1, .leaf { head := { name := "line" }, type := .message (.declared "Line") }),
        (2, .leaf { head := { name := "item" }, type := .message (.declared "Item") })] }] }
    let item : File := { name := "item.proto", messages := [{ name := "Item" }] }
    let basket : File := { name := "basket.proto", messages := [
      { name := "Basket", messages := [{ name := "Line" },
        { name := "Order", messages := [{ name := "Line" }] }] }] }
    let p : Package := { config := { package := "shop" }, files := [order, item] }
    ∃ d added swapped : PackageDescriptor, p.build = .ok d ∧
      (p.withFiles [order, basket, item]).build = .ok added ∧
      (p.withFiles [item, order]).build = .ok swapped ∧
      (∃ describe : File → FileDescriptor, d.files = [describe order, describe item] ∧
        added.files = [describe order, describe basket, describe item]) ∧
      ∃ describe : File → FileDescriptor, d.files = [describe order, describe item] ∧
        swapped.files = [describe item, describe order] := by
  intro order item basket p
  obtain ⟨d, hd⟩ : ∃ d, p.build = .ok d := exists_ok_of_isSome (by decide +kernel)
  obtain ⟨added, hadded⟩ : ∃ d, (p.withFiles [order, basket, item]).build = .ok d :=
    exists_ok_of_isSome (by decide +kernel)
  obtain ⟨swapped, hswapped⟩ : ∃ d, (p.withFiles [item, order]).build = .ok d :=
    exists_ok_of_isSome (by decide +kernel)
  have hnamed : ∀ f ∈ basket :: p.files, f.Named := by decide
  have hconservative := files_conservative p
  obtain ⟨hsame, -⟩ := hconservative.1 [order] [item] basket rfl hnamed d added hd hadded
  obtain ⟨-, -, hreordered⟩ :=
    (hconservative.2 [item, order] (.swap item order [])).2 d swapped hd hswapped
  exact ⟨d, added, swapped, hd, hadded, hswapped, hsame, hreordered⟩

end Package

end WireSchema

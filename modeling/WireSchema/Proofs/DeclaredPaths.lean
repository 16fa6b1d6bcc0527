import WireSchema.Proofs.Nesting
import WireSchema.Proofs.TypeRegistry

/-!
# Paths of declared types

The registry knows a type by its dotted name. Where all names are identifiers, that name determines
the path of the type, and what encloses a declared type is declared too.

* `Name.intercalate_injective`: a dotted name determines the identifiers it is made of.
* `File.mem_declaredPaths_of_prefix`: the messages around a declared type are declared, by induction
  over what is nested.
* `Message.named_add`, `File.named_add`: names are identifiers from the first line of a declaration
  to the last.
* `Registry.declares_intercalate`: the dotted name of a path is registered just when a file declares
  a type at the path.
-/

namespace WireSchema

/-! ## Dotted names -/

namespace Name

theorem dot_not_mem {name : String} (h : isIdentifier name = true) : '.' ∉ name.toList := by
  have hstart : isStart '.' = false := by decide
  have hpart : isPart '.' = false := by decide
  unfold isIdentifier at h
  cases hl : name.toList with
  | nil => simp
  | cons c cs =>
    rw [hl] at h
    simp only [identifierChars, Bool.and_eq_true, List.all_eq_true] at h
    intro hmem
    rcases List.mem_cons.1 hmem with rfl | hmem
    · rw [hstart] at h; exact Bool.false_ne_true h.1
    · rw [h.2 _ hmem] at hpart; cases hpart

theorem ne_empty {name : String} (h : isIdentifier name = true) : name ≠ "" := by
  rintro rfl
  revert h; decide

/-- Parts without dots are found again in the text that they are joined to. -/
theorem splitOn_intercalate {l : List String} (hne : l ≠ []) (hl : ∀ n ∈ l, '.' ∉ n.toList) :
    (".".intercalate l).toList.splitOn '.' = l.map String.toList := by
  rw [String.toList_intercalate]
  exact List.splitOn_intercalate '.' (List.forall_mem_map.2 hl) (by simpa using hne)

/-- A dotted name determines the identifiers it is made of. -/
theorem intercalate_injective {l m : List String} (hlne : l ≠ []) (hmne : m ≠ [])
    (hl : ∀ n ∈ l, isIdentifier n = true) (hm : ∀ n ∈ m, isIdentifier n = true)
    (h : ".".intercalate l = ".".intercalate m) : l = m := by
  have hmap : l.map String.toList = m.map String.toList := by
    rw [← splitOn_intercalate hlne fun n hn => dot_not_mem (hl n hn),
      ← splitOn_intercalate hmne fun n hn => dot_not_mem (hm n hn), h]
  exact List.map_injective_iff.2 (fun _ _ => String.toList_inj.1) hmap

theorem intercalate_ne_empty {l : List String} (hne : l ≠ [])
    (hl : ∀ n ∈ l, isIdentifier n = true) : ".".intercalate l ≠ "" := by
  intro h
  have hsplit := splitOn_intercalate hne fun n hn => dot_not_mem (hl n hn)
  rw [h] at hsplit
  have hone : l.map String.toList = ["".toList] := hsplit.symm
  obtain ⟨n, rfl⟩ : ∃ n, l = [n] := by
    rw [← List.length_eq_one_iff, ← List.length_map (f := String.toList), hone]; rfl
  simp at hone
  exact ne_empty (hl n (by simp)) hone

end Name

/-- Inside a scope of identifiers, a name is prefixed with them. -/
theorem Registry.within_intercalate {scope name : List String}
    (hscope : ∀ n ∈ scope, Name.isIdentifier n = true) (hname : name ≠ []) :
    within scope (".".intercalate name) = ".".intercalate (scope ++ name) := by
  unfold within
  by_cases hs : scope = []
  · subst hs; rfl
  · have hne : (".".intercalate scope).isEmpty = false := by
      simpa using Name.intercalate_ne_empty hs hscope
    rw [String.intercalate_append_of_ne_nil hs hname]
    simp [hne]

/-! ## Paths of declarations -/

/-- The paths of a message and of the enums nested in it. -/
def FlatMessage.declaredPaths (path : List String) (m : FlatMessage) :
    List (List String × DeclKind) :=
  (path, .message) :: m.enums.map fun e => (path ++ [e.name], .enum)

/-- The paths of the types that a file declares. -/
def File.declaredPaths (f : File) : List (List String × DeclKind) :=
  f.enums.map (fun e => ([e.name], .enum))
    ++ (Message.flattenAll [] f.messages).flatMap fun (path, m) => m.declaredPaths path

/-- A message whose name and whose enums' names are identifiers. -/
structure FlatMessage.Named (m : FlatMessage) : Prop where
  name : Name.isIdentifier m.name = true
  enums : ∀ e ∈ m.enums, Name.isIdentifier e.name = true

/-- The types that a file declares have identifiers for names. -/
structure File.Named (f : File) : Prop where
  enums : ∀ e ∈ f.enums, Name.isIdentifier e.name = true
  messages : ∀ x ∈ Message.flattenAll [] f.messages, x.2.Named

instance (m : FlatMessage) : Decidable m.Named :=
  decidable_of_iff
    (Name.isIdentifier m.name = true ∧ ∀ e ∈ m.enums, Name.isIdentifier e.name = true)
    ⟨fun h => ⟨h.1, h.2⟩, fun h => ⟨h.name, h.enums⟩⟩

instance (f : File) : Decidable f.Named :=
  decidable_of_iff ((∀ e ∈ f.enums, Name.isIdentifier e.name = true) ∧
    ∀ x ∈ Message.flattenAll [] f.messages, x.2.Named)
    ⟨fun h => ⟨h.1, h.2⟩, fun h => ⟨h.enums, h.messages⟩⟩

namespace Message

mutual

theorem declarations_eq (outer : List String) : ∀ m : Message, m.declarations outer =
    ((m.flatten outer).flatMap fun (path, m) => m.declaredPaths path).map fun (path, kind) =>
      (".".intercalate path, kind)
  | ⟨m, nested⟩ => by
    simp [declarations, flatten, FlatMessage.declaredPaths, declarationsAll_eq _ nested]

theorem declarationsAll_eq (outer : List String) : ∀ ms : List Message,
    declarationsAll outer ms =
      ((flattenAll outer ms).flatMap fun (path, m) => m.declaredPaths path).map
        fun (path, kind) => (".".intercalate path, kind)
  | [] => rfl
  | m :: ms => by
    simp [declarationsAll, flattenAll, declarations_eq outer m, declarationsAll_eq outer ms]

end

mutual

/-- The messages in a message lie beneath the path around it. -/
theorem prefix_of_mem_flatten {outer : List String} : ∀ {m : Message}
    {x : List String × FlatMessage}, x ∈ m.flatten outer → outer ++ [m.name] <+: x.1
  | ⟨m, nested⟩, x, h => by
    rcases List.mem_cons.1 h with rfl | h
    · exact List.prefix_rfl
    · obtain ⟨name, hname⟩ := prefix_of_mem_flattenAll h
      exact (List.prefix_append _ _).trans hname

theorem prefix_of_mem_flattenAll {outer : List String} : ∀ {ms : List Message}
    {x : List String × FlatMessage}, x ∈ flattenAll outer ms → ∃ name, outer ++ [name] <+: x.1
  | [], x, h => by cases h
  | m :: ms, x, h => by
    rcases List.mem_append.1 h with h | h
    · exact ⟨m.name, prefix_of_mem_flatten h⟩
    · exact prefix_of_mem_flattenAll h

end

mutual

/-- The messages around a message are declared too. -/
theorem mem_flatten_of_prefix {outer : List String} : ∀ {m : Message}
    {x : List String × FlatMessage} {path : List String}, x ∈ m.flatten outer →
      path <+: x.1 → outer.length < path.length → ∃ m', (path, m') ∈ m.flatten outer
  | ⟨m, nested⟩, x, path, h, hpath, hlen => by
    have hown : outer ++ [m.name] <+: x.1 := prefix_of_mem_flatten h
    by_cases hdeep : (outer ++ [m.name]).length < path.length
    · rcases List.mem_cons.1 h with rfl | h
      · have hle : path.length ≤ (outer ++ [m.name]).length := hpath.length_le
        omega
      · obtain ⟨m', hm'⟩ := mem_flattenAll_of_prefix h hpath hdeep
        exact ⟨m', List.mem_cons_of_mem _ hm'⟩
    · have heq : path = outer ++ [m.name] :=
        (List.prefix_of_prefix_length_le hpath hown (by omega)).eq_of_length (by
          rw [List.length_append, List.length_singleton] at hdeep ⊢; omega)
      exact ⟨m, heq ▸ List.mem_cons_self⟩

theorem mem_flattenAll_of_prefix {outer : List String} : ∀ {ms : List Message}
    {x : List String × FlatMessage} {path : List String}, x ∈ flattenAll outer ms →
      path <+: x.1 → outer.length < path.length → ∃ m', (path, m') ∈ flattenAll outer ms
  | [], x, path, h, _, _ => by cases h
  | m :: ms, x, path, h, hpath, hlen => by
    rcases List.mem_append.1 h with h | h
    · obtain ⟨m', hm'⟩ := mem_flatten_of_prefix h hpath hlen
      exact ⟨m', List.mem_append_left _ hm'⟩
    · obtain ⟨m', hm'⟩ := mem_flattenAll_of_prefix h hpath hlen
      exact ⟨m', List.mem_append_right _ hm'⟩

end

mutual

/-- Where all messages are named by identifiers, so are their paths. -/
theorem isIdentifier_of_mem_flatten {outer : List String}
    (houter : ∀ n ∈ outer, Name.isIdentifier n = true) : ∀ {m : Message},
    (∀ y ∈ m.flatten outer, y.2.Named) → ∀ {x : List String × FlatMessage}, x ∈ m.flatten outer →
      ∀ n ∈ x.1, Name.isIdentifier n = true
  | ⟨m, nested⟩, hnamed, x, h => by
    have hinner : ∀ n ∈ outer ++ [m.name], Name.isIdentifier n = true := by
      intro n hn
      rcases List.mem_append.1 hn with hn | hn
      · exact houter n hn
      · rw [List.mem_singleton.1 hn]
        exact (hnamed _ List.mem_cons_self).name
    rcases List.mem_cons.1 h with rfl | h
    · exact hinner
    · exact isIdentifier_of_mem_flattenAll hinner
        (fun y hy => hnamed y (List.mem_cons_of_mem _ hy)) h

theorem isIdentifier_of_mem_flattenAll {outer : List String}
    (houter : ∀ n ∈ outer, Name.isIdentifier n = true) : ∀ {ms : List Message},
    (∀ y ∈ flattenAll outer ms, y.2.Named) → ∀ {x : List String × FlatMessage},
      x ∈ flattenAll outer ms → ∀ n ∈ x.1, Name.isIdentifier n = true
  | [], _, x, h => by cases h
  | m :: ms, hnamed, x, h => by
    rcases List.mem_append.1 h with h | h
    · exact isIdentifier_of_mem_flatten houter
        (fun y hy => hnamed y (List.mem_append_left _ hy)) h
    · exact isIdentifier_of_mem_flattenAll houter
        (fun y hy => hnamed y (List.mem_append_right _ hy)) h

end

end Message

namespace File

theorem declarations_eq (f : File) : f.declarations =
    f.declaredPaths.map fun (path, kind) => (".".intercalate path, kind) := by
  simp [declarations, declaredPaths, Message.declarationsAll_eq]

theorem mem_declaredPaths {f : File} {path : List String} {kind : DeclKind} :
    (path, kind) ∈ f.declaredPaths ↔ (kind = .enum ∧ ∃ e ∈ f.enums, path = [e.name]) ∨
      ∃ q m, (q, m) ∈ Message.flattenAll [] f.messages ∧
        ((kind = .message ∧ path = q) ∨ (kind = .enum ∧ ∃ e ∈ m.enums, path = q ++ [e.name])) := by
  simp only [declaredPaths, FlatMessage.declaredPaths, List.mem_append, List.mem_map,
    List.mem_flatMap, List.mem_cons, Prod.exists, Prod.mk.injEq]
  refine or_congr ⟨?_, ?_⟩ (exists₂_congr fun q m => and_congr_right fun _ => or_congr ?_ ⟨?_, ?_⟩)
  · intro h
    obtain ⟨e, he, rfl, rfl⟩ := h
    exact ⟨rfl, e, he, rfl⟩
  · intro h
    obtain ⟨rfl, e, he, rfl⟩ := h
    exact ⟨e, he, rfl, rfl⟩
  · exact and_comm
  · intro h
    obtain ⟨e, he, rfl, rfl⟩ := h
    exact ⟨rfl, e, he, rfl⟩
  · intro h
    obtain ⟨rfl, e, he, rfl⟩ := h
    exact ⟨e, he, rfl, rfl⟩

theorem declaredPath_ne_nil {f : File} {path : List String} {kind : DeclKind}
    (h : (path, kind) ∈ f.declaredPaths) : path ≠ [] := by
  rcases mem_declaredPaths.1 h with ⟨_, e, _, rfl⟩ | ⟨q, m, hm, ⟨_, rfl⟩ | ⟨_, e, _, rfl⟩⟩
  · simp
  · obtain ⟨name, hname⟩ := Message.prefix_of_mem_flattenAll hm
    rintro rfl
    simp at hname
  · simp

/-- What stands around a declared type is declared. -/
theorem mem_declaredPaths_of_prefix {f : File} {path around : List String} {kind : DeclKind}
    (h : (path, kind) ∈ f.declaredPaths) (haround : around <+: path) (hne : around ≠ []) :
    ∃ kind', (around, kind') ∈ f.declaredPaths := by
  have hmessage : ∀ {q m}, (q, m) ∈ Message.flattenAll [] f.messages → around <+: q →
      ∃ kind', (around, kind') ∈ f.declaredPaths := by
    intro q m hm hq
    obtain ⟨m', hm'⟩ := Message.mem_flattenAll_of_prefix hm hq (List.length_pos_of_ne_nil hne)
    exact ⟨.message, mem_declaredPaths.2 (.inr ⟨around, m', hm', .inl ⟨rfl, rfl⟩⟩)⟩
  rcases mem_declaredPaths.1 h with ⟨_, e, he, rfl⟩ | ⟨q, m, hm, ⟨_, rfl⟩ | ⟨rfl, e, he, rfl⟩⟩
  · rcases List.prefix_concat_iff.1 (show around <+: [] ++ [e.name] from haround) with rfl | hnil
    · exact ⟨kind, h⟩
    · exact absurd (List.prefix_nil.1 hnil) hne
  · exact hmessage hm haround
  · rcases List.prefix_concat_iff.1 haround with rfl | hq
    · exact ⟨.enum, h⟩
    · exact hmessage hm hq

/-- The paths of types in a file whose names are identifiers. -/
theorem isIdentifier_declaredPath {f : File} (hf : f.Named) {path : List String} {kind : DeclKind}
    (h : (path, kind) ∈ f.declaredPaths) : ∀ n ∈ path, Name.isIdentifier n = true := by
  have hmessage : ∀ {q m}, (q, m) ∈ Message.flattenAll [] f.messages →
      ∀ n ∈ q, Name.isIdentifier n = true := fun hm =>
    Message.isIdentifier_of_mem_flattenAll (by simp) hf.messages hm
  rcases mem_declaredPaths.1 h with ⟨_, e, he, rfl⟩ | ⟨q, m, hm, ⟨_, rfl⟩ | ⟨_, e, he, rfl⟩⟩
  · simpa using hf.enums e he
  · exact hmessage hm
  · intro n hn
    rcases List.mem_append.1 hn with hn | hn
    · exact hmessage hm n hn
    · rw [List.mem_singleton.1 hn]
      exact (hf.messages _ hm).enums e he

end File

/-! ## Names are checked as they are declared -/

/-- A message all of whose types have identifiers for names. -/
def Message.Named (m : Message) : Prop := ∀ x ∈ m.flatten [], x.2.Named

theorem Name.isIdentifier_of_ok {what name : String} (h : identifier what name = .ok ()) :
    isIdentifier name = true := by
  unfold identifier at h
  split at h
  · assumption
  · cases h

namespace Message

mutual

theorem map_flatten (outer outer' : List String) : ∀ m : Message,
    (m.flatten outer).map Prod.snd = (m.flatten outer').map Prod.snd
  | ⟨m, nested⟩ => by
    simp only [flatten, List.map_cons, map_flattenAll _ (outer' ++ [m.name]) nested]

theorem map_flattenAll (outer outer' : List String) : ∀ ms : List Message,
    (flattenAll outer ms).map Prod.snd = (flattenAll outer' ms).map Prod.snd
  | [] => rfl
  | m :: ms => by
    simp only [flattenAll, List.map_append, map_flatten outer outer' m,
      map_flattenAll outer outer' ms]

end

/-- A property of the messages in a list does not look at their paths. -/
theorem forall_flattenAll_iff (P : FlatMessage → Prop) {outer : List String} {ms : List Message} :
    (∀ x ∈ flattenAll outer ms, P x.2) ↔ ∀ m ∈ ms, ∀ x ∈ m.flatten [], P x.2 := by
  have hpath : ∀ m : Message, (∀ x ∈ m.flatten outer, P x.2) ↔ ∀ x ∈ m.flatten [], P x.2 :=
    fun m => by
      have hsame := map_flatten outer [] m
      simp only [← List.forall_mem_map (f := Prod.snd) (P := P), hsame]
  induction ms with
  | nil => simp [flattenAll]
  | cons m ms ih =>
    rw [flattenAll, List.forall_mem_append, List.forall_mem_cons]
    exact and_congr (hpath m) ih

theorem forall_mem_flattenAll {outer : List String} {ms : List Message} :
    (∀ x ∈ flattenAll outer ms, x.2.Named) ↔ ∀ m ∈ ms, m.Named :=
  forall_flattenAll_iff FlatMessage.Named

theorem named_iff {m : FlatMessage} {nested : List Message} :
    Named ⟨m, nested⟩ ↔ m.Named ∧ ∀ n ∈ nested, n.Named := by
  rw [Named, flatten, List.forall_mem_cons, forall_mem_flattenAll]

/-- A new message has an identifier for a name. -/
theorem named_ofName {name : String} {m : Message} (h : ofName name = .ok m) : m.Named := by
  obtain ⟨_, hname, h⟩ := exists_of_bind_ok h
  cases h
  exact named_iff.2 ⟨⟨Name.isIdentifier_of_ok hname, by simp⟩, by simp⟩

/-- **Names stay identifiers.** A message keeps identifiers for names when something is added whose
names are identifiers. -/
theorem named_add {m m' : Message} {item : Item} (h : m.add item = .ok m') (hm : m.Named)
    (hmessage : ∀ n, item = .message n → n.Named)
    (henum : ∀ e, item = .enum e → Name.isIdentifier e.name = true) : m'.Named := by
  obtain ⟨flat, nested⟩ := m
  obtain ⟨flat', nested'⟩ := m'
  obtain ⟨hflat, hnested⟩ := named_iff.1 hm
  have hkeep : flat'.name = flat.name → flat'.enums = flat.enums → nested' = nested →
      Named ⟨flat', nested'⟩ := fun hn he hms =>
    named_iff.2 ⟨⟨hn ▸ hflat.name, he ▸ hflat.enums⟩, hms ▸ hnested⟩
  cases item with
  | message n =>
    cases h
    exact named_iff.2 ⟨hflat, by simpa [or_imp, forall_and] using ⟨hnested, hmessage n rfl⟩⟩
  | enum e =>
    cases h
    refine named_iff.2 ⟨⟨hflat.name, ?_⟩, hnested⟩
    simpa [or_imp, forall_and] using ⟨hflat.enums, henum e rfl⟩
  | reservedName n =>
    obtain ⟨_, -, h⟩ := exists_of_bind_ok h
    cases h
    exact hkeep rfl rfl rfl
  | option e =>
    obtain ⟨_, -, h⟩ := exists_of_bind_ok h
    cases h
    exact hkeep rfl rfl rfl
  | _ => cases h; exact hkeep rfl rfl rfl

end Message

/-- A new enum has an identifier for a name. -/
theorem Enum.isIdentifier_ofName {name : String} {e : Enum} (h : ofName name = .ok e) :
    Name.isIdentifier e.name = true := by
  obtain ⟨_, hname, h⟩ := exists_of_bind_ok h
  cases h
  exact Name.isIdentifier_of_ok hname

/-- Nothing that is added to an enum changes its name. -/
theorem Enum.name_add {e e' : Enum} {item : Item} (h : e.add item = .ok e') : e'.name = e.name := by
  cases item with
  | reservedName n =>
    obtain ⟨_, -, h⟩ := exists_of_bind_ok h
    cases h
    rfl
  | option o =>
    obtain ⟨_, -, h⟩ := exists_of_bind_ok h
    cases h
    rfl
  | _ => cases h; rfl

namespace File

/-- A new file declares nothing yet. -/
theorem named_ofName {name : String} {f : File} (h : ofName name = .ok f) : f.Named := by
  obtain ⟨_, -, h⟩ := exists_of_bind_ok h
  cases h
  exact ⟨by simp, by simp [Message.flattenAll]⟩

/-- **Names stay identifiers** in a file as well. -/
theorem named_add {f f' : File} {item : Item} (h : f.add item = .ok f') (hf : f.Named)
    (hmessage : ∀ m, item = .message m → m.Named)
    (henum : ∀ e, item = .enum e → Name.isIdentifier e.name = true) : f'.Named := by
  have hms := Message.forall_mem_flattenAll.1 hf.messages
  have hkeep : f'.enums = f.enums → f'.messages = f.messages → f'.Named := fun he hm =>
    ⟨he ▸ hf.enums, hm ▸ hf.messages⟩
  cases item with
  | message m =>
    cases h
    refine ⟨hf.enums, Message.forall_mem_flattenAll.2 ?_⟩
    simpa [or_imp, forall_and] using ⟨hms, hmessage m rfl⟩
  | enum e =>
    cases h
    exact ⟨by simpa [or_imp, forall_and] using ⟨hf.enums, henum e rfl⟩, hf.messages⟩
  | option e =>
    obtain ⟨_, -, h⟩ := exists_of_bind_ok h
    cases h
    exact hkeep rfl rfl
  | _ => cases h; exact hkeep rfl rfl

end File

/-! ## Registered names -/

/-- A dotted name is registered when some file declares a type at its path. -/
theorem Registry.declares_intercalate {files : List File} (hfiles : ∀ f ∈ files, f.Named)
    {path : List String} (hne : path ≠ []) (hpath : ∀ n ∈ path, Name.isIdentifier n = true) :
    (ofFiles files).1.Declares (".".intercalate path) ↔
      ∃ f ∈ files, ∃ kind, (path, kind) ∈ f.declaredPaths := by
  rw [declares_ofFiles, List.mem_map]
  constructor
  · intro h
    obtain ⟨⟨full, d⟩, hd, rfl⟩ := h
    obtain ⟨f, hf, -, hmem⟩ := mem_declaredTypes.1 hd
    rw [f.declarations_eq] at hmem
    obtain ⟨⟨q, kind⟩, hq, he⟩ := List.mem_map.1 hmem
    obtain ⟨hjoin, -⟩ := Prod.mk.inj he
    obtain rfl := Name.intercalate_injective (File.declaredPath_ne_nil hq) hne
      (File.isIdentifier_declaredPath (hfiles f hf) hq) hpath hjoin
    exact ⟨f, hf, kind, hq⟩
  · intro h
    obtain ⟨f, hf, kind, hq⟩ := h
    refine ⟨(".".intercalate path, ⟨f.name, kind⟩), mem_declaredTypes.2 ⟨f, hf, rfl, ?_⟩, rfl⟩
    rw [f.declarations_eq]
    exact List.mem_map.2 ⟨(path, kind), hq, rfl⟩

end WireSchema

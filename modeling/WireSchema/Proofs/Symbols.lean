import WireSchema.Proofs.Converters

/-!
# Names declared in one scope

Among the names that are declared in one scope, two groups are kept distinct: the fields and oneof
choices of a message, and the types that stand directly in a message or at package level. Names of
the two groups may coincide, and so may those of oneofs, services and extensions.

* `Package.symbols_distinct`: in a package that builds, the names of each group are distinct, in
  every message at any depth and at package level across all files.
* `Package.symbols_shared`: a package that builds although one of its messages and its files share
  names between and within the other groups.
-/

namespace WireSchema

/-! ## Scopes -/

/-- The names of the fields and oneof choices of a message. -/
def FlatMessage.fieldNames (m : FlatMessage) : List String := m.allFields.map fun x => x.2.name

namespace Message

/-- The names of the enums and messages that stand directly in a message. -/
def typeNames (m : Message) : List String :=
  m.enums.map Enum.name ++ m.messages.map fun n => n.name

/-- All names that are declared directly in a message. -/
def symbols (m : Message) : List String :=
  m.fieldNames ++ m.oneofs.map Oneof.name ++ m.typeNames

mutual

/-- A message and those nested in it at any depth, each with what it nests. -/
def scopes : Message → List Message
  | ⟨m, nested⟩ => ⟨m, nested⟩ :: scopesAll nested

def scopesAll : List Message → List Message
  | [] => []
  | m :: ms => scopes m ++ scopesAll ms

end

end Message

namespace File

/-- The names of the enums and messages that stand at package level in the file. -/
def typeNames (f : File) : List String := f.enums.map Enum.name ++ f.messages.map fun m => m.name

/-- All names that the file declares at package level. -/
def symbols (f : File) : List String :=
  f.typeNames ++ f.services.map Service.name ++ f.extensions.map fun e => e.field.name

end File

namespace Package

/-- The messages of a package at every depth, each with what it nests. -/
def scopes (p : Package) : List Message := p.files.flatMap fun f => Message.scopesAll f.messages

def typeNames (p : Package) : List String := p.files.flatMap File.typeNames

/-- All names declared at package level, across all files. -/
def symbols (p : Package) : List String := p.files.flatMap File.symbols

end Package

/-! ## Types in a scope -/

namespace Message

mutual

/-- The messages at every depth are those that a message is flattened into. -/
theorem map_scopes (outer : List String) : ∀ m : Message,
    m.scopes.map Message.toFlatMessage = (m.flatten outer).map Prod.snd
  | ⟨m, nested⟩ => by
    rw [scopes, flatten, List.map_cons, List.map_cons, map_scopesAll (outer ++ [m.name]) nested]

theorem map_scopesAll (outer : List String) : ∀ ms : List Message,
    (scopesAll ms).map Message.toFlatMessage = (flattenAll outer ms).map Prod.snd
  | [] => rfl
  | m :: ms => by
    rw [scopesAll, flattenAll, List.map_append, List.map_append, map_scopes outer m,
      map_scopesAll outer ms]

end

/-- The names that the types in `scope` are registered by. -/
def qualified (scope : List String) (names : List String) : List String :=
  names.map fun name => ".".intercalate (scope ++ [name])

theorem qualified_sublist_declarationsAll (outer : List String) (ms : List Message) :
    (qualified outer (ms.map fun m => m.name)).Sublist
      ((declarationsAll outer ms).map Prod.fst) := by
  induction ms with
  | nil => exact .refl _
  | cons m ms ih =>
    obtain ⟨m, nested⟩ := m
    rw [declarationsAll, declarations, List.map_append]
    exact .cons_cons _ (ih.trans (List.sublist_append_right _ _))

theorem qualified_typeNames_sublist (outer : List String) (m : FlatMessage)
    (nested : List Message) : (qualified (outer ++ [m.name]) (typeNames ⟨m, nested⟩)).Sublist
      ((declarations outer ⟨m, nested⟩).map Prod.fst) := by
  have henums : (qualified (outer ++ [m.name]) (m.enums.map Enum.name)).Sublist
      ((m.enums.map fun e =>
        (".".intercalate (outer ++ [m.name] ++ [e.name]), DeclKind.enum)).map Prod.fst) := by
    simp [qualified, Function.comp_def]
  have hnested := qualified_sublist_declarationsAll (outer ++ [m.name]) nested
  rw [declarations, typeNames, qualified, List.map_append, List.cons_append, List.map_cons,
    List.map_append]
  exact (henums.append hnested).cons _

mutual

/-- The types in each message are registered by the names that they have in its scope. -/
theorem exists_qualified_sublist (outer : List String) : ∀ (m : Message), ∀ n ∈ m.scopes,
    ∃ scope, (qualified scope n.typeNames).Sublist ((m.declarations outer).map Prod.fst)
  | ⟨m, nested⟩, n, hn => by
    rw [scopes] at hn
    rcases List.mem_cons.1 hn with rfl | hn
    · exact ⟨_, qualified_typeNames_sublist outer m nested⟩
    · obtain ⟨scope, hscope⟩ := exists_qualified_sublist_all (outer ++ [m.name]) nested n hn
      refine ⟨scope, hscope.trans ?_⟩
      rw [declarations, List.map_append]
      exact List.sublist_append_right _ _

theorem exists_qualified_sublist_all (outer : List String) : ∀ (ms : List Message),
    ∀ n ∈ scopesAll ms,
      ∃ scope, (qualified scope n.typeNames).Sublist ((declarationsAll outer ms).map Prod.fst)
  | [], n, hn => by cases hn
  | m :: ms, n, hn => by
    rw [declarationsAll, List.map_append]
    rw [scopesAll] at hn
    rcases List.mem_append.1 hn with hn | hn
    · obtain ⟨scope, hscope⟩ := exists_qualified_sublist outer m n hn
      exact ⟨scope, hscope.trans (List.sublist_append_left _ _)⟩
    · obtain ⟨scope, hscope⟩ := exists_qualified_sublist_all outer ms n hn
      exact ⟨scope, hscope.trans (List.sublist_append_right _ _)⟩

end

end Message

namespace File

/-- The types at package level are registered by their own names. -/
theorem typeNames_sublist (f : File) : f.typeNames.Sublist (f.declarations.map Prod.fst) := by
  have hmessages := Message.qualified_sublist_declarationsAll [] f.messages
  have hnames : Message.qualified [] (f.messages.map fun m => m.name) =
      f.messages.map fun m => m.name := by
    simp [Message.qualified, Function.comp_def]
  have henums : (f.enums.map Enum.name).Sublist
      ((f.enums.map fun e => (e.name, DeclKind.enum)).map Prod.fst) := by
    simp [Function.comp_def]
  rw [hnames] at hmessages
  rw [declarations, typeNames, List.map_append]
  exact henums.append hmessages

theorem declarations_sublist {files : List File} {f : File} (hf : f ∈ files) :
    (f.declarations.map Prod.fst).Sublist ((declaredTypes files).map Prod.fst) := by
  rw [map_declaredTypes]
  exact List.sublist_flatten_of_mem (List.mem_map_of_mem hf)

end File

/-! ## Packages -/

namespace Package

variable {p : Package} {d : PackageDescriptor}

/-- The fields and choices of each message of a package that builds have distinct names. -/
theorem fieldNames_nodup (h : p.build = .ok d) {m : Message} (hm : m ∈ p.scopes) :
    m.fieldNames.Nodup := by
  obtain ⟨f, hf, hm⟩ := List.mem_flatMap.1 hm
  have hflat : m.toFlatMessage ∈ (Message.flattenAll [] f.messages).map Prod.snd :=
    Message.map_scopesAll [] f.messages ▸ List.mem_map_of_mem hm
  obtain ⟨x, hx, hflat⟩ := List.mem_map.1 hflat
  obtain ⟨e, -, s, -, hbuilt⟩ :=
    exists_of_forall₂_left (builtFrom h) (List.mem_flatMap.2 ⟨f, hf, hx⟩)
  have hnames := hbuilt.wellNumbered.names_nodup
  rwa [hflat, FlatMessage.slots, List.map_map] at hnames

/-- So do the types that stand directly in it. -/
theorem typeNames_nodup (h : p.build = .ok d) {m : Message} (hm : m ∈ p.scopes) :
    m.typeNames.Nodup := by
  obtain ⟨f, hf, hm⟩ := List.mem_flatMap.1 hm
  obtain ⟨scope, hscope⟩ := Message.exists_qualified_sublist_all [] f.messages m hm
  have hfile : ((Message.declarationsAll [] f.messages).map Prod.fst).Sublist
      (f.declarations.map Prod.fst) := by
    rw [File.declarations, List.map_append]
    exact List.sublist_append_right _ _
  have hall := hscope.trans (hfile.trans (File.declarations_sublist hf))
  exact .of_map _ ((files_of_build h).1.sublist hall)

/-- **Distinct names.** In a package that builds, the fields and choices of each message, at any
depth, have distinct names, and so do the messages and enums that stand directly in it; so do the
messages and enums that stand at package level, in all files together. -/
theorem symbols_distinct (h : p.build = .ok d) :
    (∀ m ∈ p.scopes, m.fieldNames.Nodup ∧ m.typeNames.Nodup) ∧ p.typeNames.Nodup := by
  refine ⟨fun m hm => ⟨fieldNames_nodup h hm, typeNames_nodup h hm⟩, ?_⟩
  have hsub : p.typeNames.Sublist ((declaredTypes p.files).map Prod.fst) := by
    rw [map_declaredTypes]
    exact .flatMap_right _ fun f _ => f.typeNames_sublist
  exact (files_of_build h).1.sublist hsub

/-- The same names in different scopes: `Order` nests a `Unit` and a `Line` with a `Unit`, and
another file declares a `Line`. -/
theorem symbols_distinct_order :
    let text (name : String) : Field := .leaf { head := { name }, type := .string {} }
    let order : Message := {
      name := "Order", fields := [(1, text "id")],
      oneofs := [{ name := "ref", choices := [(2, text "sku"), (3, text "url")] }],
      messages := [{ name := "Line", enums := [{ name := "Unit", values := [
        { name := "NONE", number := 0 }] }] }, { name := "Unit" }] }
    let p : Package := {
      config := { package := "shop" }, files := [{ name := "order.proto", messages := [order] },
        { name := "line.proto", messages := [{ name := "Line" }] }] }
    ∃ d, p.build = .ok d ∧ (∀ m ∈ p.scopes, m.fieldNames.Nodup ∧ m.typeNames.Nodup) ∧
      p.typeNames = ["Order", "Line"] ∧ p.typeNames.Nodup := by
  intro text order p
  obtain ⟨d, hd⟩ : ∃ d, p.build = .ok d := exists_ok_of_isSome (by decide +kernel)
  obtain ⟨hscopes, htypes⟩ := symbols_distinct hd
  exact ⟨d, hd, hscopes, rfl, htypes⟩

/-- **Shared names.** This package builds. In `Item`, the oneofs share names with each other and
with a field, a choice, a nested message and a nested enum, and these with fields and choices. At
package level, services and extensions share names with each other and with a message and an enum.
-/
theorem symbols_shared :
    let text (name : String) : Field := .leaf { head := { name }, type := .string {} }
    let enum (name : String) : Enum := { name, values := [{ name := "NONE", number := 0 }] }
    let item : Message := {
      name := "Item", fields := [(1, text "a"), (2, text "b")], oneofs := [
        { name := "a", choices := [(3, text "c"), (4, text "d")] },
        { name := "b", choices := [(5, text "e")] }, { name := "c", choices := [(6, text "f")] },
        { name := "c", choices := [(7, text "g")] }],
      messages := [{ name := "a" }, { name := "c" }], enums := [enum "b", enum "d"] }
    let p : Package := {
      config := { package := "shop" }, files := [{
        name := "shop.proto", messages := [item], enums := [enum "Kind"],
        services := [{ name := "Item" }, { name := "Item" }, { name := "Kind" }], extensions := [
          ⟨.field, 50001, text "Item"⟩, ⟨.field, 50002, text "Kind"⟩,
          ⟨.message, 50001, text "Item"⟩] }] }
    (∃ d, p.build = .ok d) ∧ item ∈ p.scopes ∧
      item.symbols = ["a", "b", "c", "d", "e", "f", "g", "a", "b", "c", "c", "b", "d", "a", "c"] ∧
      p.symbols = ["Kind", "Item", "Item", "Item", "Kind", "Item", "Kind", "Item"] ∧
      ¬ item.symbols.Nodup ∧ ¬ p.symbols.Nodup := by
  intro text enum item p
  have hitem : item.symbols =
      ["a", "b", "c", "d", "e", "f", "g", "a", "b", "c", "c", "b", "d", "a", "c"] := rfl
  have hpackage : p.symbols =
      ["Kind", "Item", "Item", "Item", "Kind", "Item", "Kind", "Item"] := rfl
  have hbuild : ∃ d, p.build = .ok d := exists_ok_of_isSome (by decide +kernel)
  refine ⟨hbuild, List.mem_cons_self, hitem, hpackage, ?_, ?_⟩
  · rw [hitem]; decide
  · rw [hpackage]; decide

end Package

end WireSchema

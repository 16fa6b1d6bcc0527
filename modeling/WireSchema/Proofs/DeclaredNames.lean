import WireSchema.Proofs.DeclaredPaths
import WireSchema.Proofs.PackageOutcome

/-!
# Declared names and built names

A type gets its full name twice. Before anything is built, the names of a file are listed for the
registry, each message handing its own dotted name down to what it nests. During the build, the
session keeps the names of the messages it is inside of, and a descriptor joins these with its own.

* `Message.declarationsUnder_eq`: handing dotted names down lists the names of the paths of the
  types, where all names are identifiers.
* `File.types_of_value`: the descriptors of a file that builds carry the names that the file
  declares, by induction over what is nested.
* `Package.types_declared`: so they do after a run of the session, and in a package that builds the
  registry knows each descriptor by its name, with its file and kind.
-/

namespace WireSchema

/-! ## Names handed down -/

/-- The full name of something declared beneath what has the full name `outer`; at package level
that is empty. -/
def Name.below (outer name : String) : String :=
  if outer.isEmpty then name else outer ++ "." ++ name

namespace Message

mutual

/-- The types that a message declares beneath the full name `outer`, itself first. -/
def declarationsUnder (outer : String) : Message → List (String × DeclKind)
  | ⟨m, nested⟩ =>
    (Name.below outer m.name, .message)
      :: m.enums.map (fun e => (Name.below outer m.name ++ "." ++ e.name, .enum))
      ++ declarationsAllUnder (Name.below outer m.name) nested

def declarationsAllUnder (outer : String) : List Message → List (String × DeclKind)
  | [] => []
  | m :: ms => declarationsUnder outer m ++ declarationsAllUnder outer ms

end

end Message

/-- The types that a file declares: its enums, then its messages with what they nest. -/
def File.declarationsByName (f : File) : List (String × DeclKind) :=
  f.enums.map (fun e => (e.name, .enum)) ++ Message.declarationsAllUnder "" f.messages

/-- Beneath the dotted name of a path stands the dotted name of the longer path. -/
theorem Name.below_intercalate {path : List String} (hpath : ∀ n ∈ path, isIdentifier n = true)
    (name : String) : below (".".intercalate path) name = ".".intercalate (path ++ [name]) :=
  Registry.within_intercalate hpath (List.cons_ne_nil name [])

namespace Message

mutual

theorem declarationsUnder_eq {path : List String}
    (hpath : ∀ n ∈ path, Name.isIdentifier n = true) : ∀ {m : Message},
    (∀ x ∈ m.flatten path, x.2.Named) →
      declarationsUnder (".".intercalate path) m = declarations path m
  | ⟨m, nested⟩, hnamed => by
    have hinner : ∀ n ∈ path ++ [m.name], Name.isIdentifier n = true := by
      have hname := (hnamed _ List.mem_cons_self).name
      simpa [or_imp, forall_and] using ⟨hpath, hname⟩
    have hnested := declarationsAllUnder_eq hinner
      fun x hx => hnamed x (List.mem_cons_of_mem _ hx)
    have henum : ∀ e : Enum, ".".intercalate (path ++ [m.name]) ++ "." ++ e.name =
        ".".intercalate (path ++ [m.name] ++ [e.name]) := fun e => by
      have hne : path ++ [m.name] ≠ [] := by simp
      rw [String.intercalate_append_of_ne_nil hne (List.cons_ne_nil _ _),
        String.intercalate_singleton]
    rw [declarationsUnder, declarations, Name.below_intercalate hpath, hnested]
    simp only [henum]

theorem declarationsAllUnder_eq {path : List String}
    (hpath : ∀ n ∈ path, Name.isIdentifier n = true) : ∀ {ms : List Message},
    (∀ x ∈ flattenAll path ms, x.2.Named) →
      declarationsAllUnder (".".intercalate path) ms = declarationsAll path ms
  | [], _ => rfl
  | m :: ms, hnamed => by
    rw [declarationsAllUnder, declarationsAll,
      declarationsUnder_eq hpath fun x hx => hnamed x (List.mem_append_left _ hx),
      declarationsAllUnder_eq hpath fun x hx => hnamed x (List.mem_append_right _ hx)]

end

end Message

theorem File.declarationsByName_eq {f : File} (hf : f.Named) :
    f.declarationsByName = f.declarations := by
  have hempty : ∀ n ∈ ([] : List String), Name.isIdentifier n = true := nofun
  have hmessages := Message.declarationsAllUnder_eq hempty hf.messages
  rw [declarationsByName, declarations, ← hmessages]
  rfl

/-! ## Names in descriptors -/

/-- A built message and the enums nested in it, by their full names. -/
def FlatMessageDescriptor.types (d : FlatMessageDescriptor) : List (String × DeclKind) :=
  (d.fullName, .message) :: d.enums.map fun e => (e.fullName, .enum)

/-- The message and enum descriptors of a built file, nested ones included, by their full names. -/
def FileDescriptor.types (d : FileDescriptor) : List (String × DeclKind) :=
  d.enums.map (fun e => (e.fullName, .enum)) ++ d.flatMessages.flatMap FlatMessageDescriptor.types

theorem Enum.fullName_of_value {s : Scope} {e : Enum} {d : EnumDescriptor}
    (h : (e.build s).value = some d) : d.fullName = ".".intercalate (s.path ++ [e.name]) := by
  obtain ⟨_, -, rfl⟩ := Option.map_eq_some_iff.1 h
  rfl

/-- The enums of a scope get the names of the paths that they are declared at. -/
theorem FlatMessage.fullNames_of_buildEnums {s : Scope} {enums : List Enum}
    {ds : List EnumDescriptor} (h : (buildEnums s enums).value = some ds) :
    (ds.map fun d => (d.fullName, DeclKind.enum)) =
      enums.map fun e => (".".intercalate (s.path ++ [e.name]), .enum) := by
  have hall := Built.forall₂_of_value_list h
  refine (map_eq_map_of_forall₂ hall fun e d hd => ?_).symm
  rw [← Enum.fullName_of_value hd]

theorem FlatMessageDescriptor.BuiltFrom.types_eq {s : Scope} {m : FlatMessage}
    {d : FlatMessageDescriptor} (h : d.BuiltFrom s m) : d.types =
      (m.declaredPaths s.path).map fun (path, kind) => (".".intercalate path, kind) := by
  rw [types, h.fullName, FlatMessage.fullNames_of_buildEnums h.enums]
  simp [FlatMessage.declaredPaths]

namespace File

variable {package : String} {registry : Registry} {validateImport : String} {f : File}
  {d : FileDescriptor}

/-- The descriptors of a file that builds carry the names that the file declares. -/
theorem types_of_value (h : (f.build package registry validateImport).value = some d) :
    d.types = f.declarations := by
  have hmessages : d.flatMessages.flatMap FlatMessageDescriptor.types =
      (Message.flattenAll [] f.messages).flatMap fun x =>
        (x.2.declaredPaths x.1).map fun (path, kind) => (".".intercalate path, kind) := by
    rw [List.flatMap_def, List.flatMap_def]
    exact congrArg _ (map_eq_map_of_forall₂ (builtFrom h) fun x e he => he.types_eq.symm).symm
  obtain ⟨e, he, rfl⟩ := Option.map_eq_some_iff.1 h
  have henums := FlatMessage.fullNames_of_buildEnums (value_buildDeclarations he).2.1
  rw [FileDescriptor.types, hmessages, declarations_eq, declaredPaths, List.map_append,
    List.map_flatMap, List.map_map, henums]
  rfl

theorem name_of_value (h : (f.build package registry validateImport).value = some d) :
    d.name = f.name := by
  obtain ⟨e, -, rfl⟩ := Option.map_eq_some_iff.1 h
  rfl

end File

namespace Package

/-- **Declared and built names agree.** When the session of a file runs through, in any registry,
the messages and enums of the descriptor carry just the names and kinds that the file declares, in
the same order; those are the names that the messages hand down if all are identifiers. In a package
that builds, the registry has each descriptor under its full name, with its file and kind. -/
theorem types_declared :
    (∀ (f : File) (package : String) (registry : Registry) (validateImport : String)
      (d : FileDescriptor), f.run package registry validateImport = .ok d →
        d.types = f.declarations ∧ (f.Named → f.declarationsByName = f.declarations)) ∧
    ∀ (p : Package) (d : PackageDescriptor), p.build = .ok d →
      ∀ fd ∈ d.files, ∀ x ∈ fd.types,
        (Registry.ofFiles p.files).1.find? x.1 = some ⟨fd.name, x.2⟩ := by
  refine ⟨fun f package registry validateImport d h => ?_, fun p d h fd hfd x hx => ?_⟩
  · rw [File.run_eq, Built.result_eq_ok_iff] at h
    exact ⟨File.types_of_value h, File.declarationsByName_eq⟩
  · obtain ⟨htypes, -, -⟩ := build_eq_ok_iff.1 h
    obtain ⟨f, hf, hvalue⟩ := exists_of_forall₂_right (value_files h).2 hfd
    rw [File.types_of_value hvalue] at hx
    exact (Registry.find?_ofFiles_iff htypes).2 ⟨f, hf, File.name_of_value hvalue, hx⟩

/-- `Order` nests an enum and a `Line`, which nests an enum of the same name; the file has an enum
of its own besides. -/
theorem types_declared_order :
    let unit : Enum := { name := "Unit", values := [{ name := "NONE", number := 0 }] }
    let kind : Enum := { name := "Kind", values := [{ name := "NONE", number := 0 }] }
    let order : File := { name := "order.proto", enums := [kind], messages := [
      { name := "Order", enums := [unit], messages := [{ name := "Line", enums := [unit] }] }] }
    let p : Package := { config := { package := "shop" }, files := [order] }
    let names : List (String × DeclKind) := [("Kind", .enum), ("Order", .message),
      ("Order.Unit", .enum), ("Order.Line", .message), ("Order.Line.Unit", .enum)]
    (∃ d, order.run "shop" ∅ "validate.proto" = .ok d ∧ d.types = names ∧
      order.declarationsByName = names) ∧
    ∃ d, p.build = .ok d ∧ ∀ fd ∈ d.files, ∀ x ∈ fd.types,
      (Registry.ofFiles p.files).1.find? x.1 = some ⟨fd.name, x.2⟩ := by
  intro unit kind order p names
  obtain ⟨fd, hfd⟩ : ∃ d, order.run "shop" ∅ "validate.proto" = .ok d :=
    exists_ok_of_isSome (by decide +kernel)
  obtain ⟨d, hd⟩ : ∃ d, p.build = .ok d := exists_ok_of_isSome (by decide +kernel)
  have hnamed : order.Named := by decide
  have hnames : order.declarations = names := by decide
  obtain ⟨htypes, hbyName⟩ := types_declared.1 order "shop" ∅ "validate.proto" fd hfd
  exact ⟨⟨fd, hfd, htypes.trans hnames, (hbyName hnamed).trans hnames⟩, d, hd,
    types_declared.2 p d hd⟩

end Package

end WireSchema

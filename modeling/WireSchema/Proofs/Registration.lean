import WireSchema.Proofs.DeclaredNames

/-!
# Registering the types of a package

The registry is filled on a walk over the files: in each file first its enums, then every message,
followed by its enums and then by the messages nested in it. Messages and enums share one space of
names, across files and depths, and a name may come up any number of times. The walk keeps the first
declaration of each name and reports every other one as it comes to it.

* `Message.visit_eq`: a visit of a message calls back once for each of its types, in order, by
  induction over what is nested.
* `Registry.collect_eq`: so the walk records the same as registering the listed types.
* `redeclarations_eq`: what is reported, read off the places in the list.
* `Registry.types_recorded`: the names, declarations and violations that are recorded.
-/

namespace WireSchema

/-! ## The walk -/

/-- What a walk has recorded so far. -/
structure Recorded where
  registry : Registry := ∅
  violations : List Violation := []

/-- Records one more declaration in a file: it is registered, or reported if its name is taken. -/
def Recorded.declare (file : String) (c : Recorded) (name : String) (kind : DeclKind) : Recorded :=
  match c.registry.register name ⟨file, kind⟩ with
  | .ok grown => { c with registry := grown }
  | .error first => { c with violations := c.violations ++ [.duplicateType name first.file file] }

section Visits

variable {σ : Type} (f : σ → String → DeclKind → σ)

namespace Message

mutual

/-- Calls back for a message beneath the full name `outer`, then for its enums, then for all that is
nested in it. -/
def visit (outer : String) (s : σ) : Message → σ
  | ⟨m, nested⟩ =>
    let name := Name.below outer m.name
    visitAll name
      (m.enums.foldl (fun s e => f s (name ++ "." ++ e.name) .enum) (f s name .message)) nested

def visitAll (outer : String) (s : σ) : List Message → σ
  | [] => s
  | m :: ms => visitAll outer (visit outer s m) ms

end

end Message

/-- Calls back for every type that a file declares. -/
def File.visit (s : σ) (file : File) : σ :=
  Message.visitAll f "" (file.enums.foldl (fun s e => f s e.name .enum) s) file.messages

/-- What the callback makes of types that are listed. -/
def foldTypes (s : σ) (types : List (String × DeclKind)) : σ :=
  types.foldl (fun s t => f s t.1 t.2) s

end Visits

/-- The walk over the files. -/
def Registry.collect (files : List File) : Recorded :=
  files.foldl (fun c file => file.visit (Recorded.declare file.name) c) {}

/-! ## Visits and lists -/

section

variable {σ : Type} (f : σ → String → DeclKind → σ)

namespace Message

mutual

/-- A visit calls back for the listed types, in their order. -/
theorem visit_eq (outer : String) (s : σ) : ∀ m : Message,
    visit f outer s m = foldTypes f s (declarationsUnder outer m)
  | ⟨m, nested⟩ => by
    rw [visit, visitAll_eq, declarationsUnder, foldTypes, foldTypes, List.cons_append,
      List.foldl_cons, List.foldl_append, List.foldl_map]

theorem visitAll_eq (outer : String) (s : σ) : ∀ ms : List Message,
    visitAll f outer s ms = foldTypes f s (declarationsAllUnder outer ms)
  | [] => rfl
  | m :: ms => by
    rw [visitAll, visit_eq outer s m, visitAll_eq outer _ ms, declarationsAllUnder, foldTypes,
      foldTypes, foldTypes, List.foldl_append]

end

end Message

theorem File.visit_eq (s : σ) (file : File) :
    file.visit f s = foldTypes f s file.declarationsByName := by
  rw [visit, Message.visitAll_eq, declarationsByName, foldTypes, foldTypes, List.foldl_append,
    List.foldl_map]

end

/-- The types as declared in a file. -/
def declaredIn (file : String) (types : List (String × DeclKind)) : List (String × Declaration) :=
  types.map fun (name, kind) => (name, ⟨file, kind⟩)

namespace Recorded

/-- Registers declarations, and adds what is reported meanwhile. -/
def registerAll (c : Recorded) (ds : List (String × Declaration)) : Recorded :=
  ⟨(c.registry.registerAll ds).1, c.violations ++ (c.registry.registerAll ds).2⟩

/-- Recording listed types is registering them. -/
theorem foldTypes_declare (file : String) (types : List (String × DeclKind)) : ∀ c : Recorded,
    foldTypes (declare file) c types = c.registerAll (declaredIn file types) := by
  induction types with
  | nil => intro c; simp [foldTypes, declaredIn, registerAll, Registry.registerAll]
  | cons t types ih =>
    obtain ⟨name, kind⟩ := t
    intro c
    rw [foldTypes, List.foldl_cons, ← foldTypes, ih, declaredIn, declaredIn, List.map_cons,
      registerAll, registerAll, Registry.registerAll, declare]
    cases c.registry.register name ⟨file, kind⟩ with
    | ok grown => rfl
    | error first => simp

end Recorded

namespace Registry

theorem registerAll_append (r : Registry) (ds es : List (String × Declaration)) :
    r.registerAll (ds ++ es) =
      (((r.registerAll ds).1.registerAll es).1,
        (r.registerAll ds).2 ++ ((r.registerAll ds).1.registerAll es).2) := by
  induction ds generalizing r with
  | nil => simp [registerAll]
  | cons d ds ih =>
    obtain ⟨name, d⟩ := d
    rw [List.cons_append, registerAll, registerAll]
    cases r.register name d with
    | ok grown => exact ih grown
    | error first => simp [ih]

/-- **The walk registers the declared types.** -/
theorem collect_eq {files : List File} (h : ∀ f ∈ files, f.Named) :
    collect files = ⟨(ofFiles files).1, (ofFiles files).2⟩ := by
  have hfold : ∀ c : Recorded,
      files.foldl (fun c file => file.visit (Recorded.declare file.name) c) c =
        c.registerAll (declaredTypes files) := by
    induction files with
    | nil => intro c; simp [declaredTypes, Recorded.registerAll, registerAll]
    | cons file files ih =>
      obtain ⟨hfile, hfiles⟩ := List.forall_mem_cons.1 h
      have htypes : declaredTypes (file :: files) =
          declaredIn file.name file.declarations ++ declaredTypes files := List.flatMap_cons
      intro c
      rw [List.foldl_cons, File.visit_eq, File.declarationsByName_eq hfile,
        Recorded.foldTypes_declare, ih hfiles, htypes, Recorded.registerAll, Recorded.registerAll,
        Recorded.registerAll, registerAll_append, List.append_assoc]
  exact hfold {}

/-! ## What is recorded -/

/-- Each declaration is either registered or reported. -/
theorem size_registerAll (ds : List (String × Declaration)) : ∀ r : Registry,
    (r.registerAll ds).1.size + (r.registerAll ds).2.length = r.size + ds.length := by
  induction ds with
  | nil => intro r; rfl
  | cons d ds ih =>
    obtain ⟨name, d⟩ := d
    intro r
    rw [registerAll]
    cases hr : r.register name d with
    | ok grown =>
      have hgrown : grown.size = r.size + 1 := by
        unfold register at hr
        split at hr
        · cases hr
        · cases hr
          simp [size]
      simp only [ih, hgrown, List.length_cons]
      omega
    | error first =>
      have hrest := ih r
      simp only [List.length_cons]
      omega

end Registry

/-- The types that the files declare, in the order of the walk. -/
def typesInOrder (files : List File) : List (String × Declaration) :=
  files.flatMap fun f => f.declaredPaths.map fun (path, kind) =>
    (".".intercalate path, ⟨f.name, kind⟩)

theorem declaredTypes_eq (files : List File) : declaredTypes files = typesInOrder files := by
  simp [declaredTypes, typesInOrder, File.declarations_eq, Function.comp_def]

/-- The violation of a declaration of a name that is declared in front of it. -/
def redeclaration? (earlier : List (String × Declaration)) (d : String × Declaration) :
    Option Violation :=
  (earlier.lookup d.1).map fun first => .duplicateType d.1 first.file d.2.file

/-- Each declaration is reported by its place, if its name is declared at a place before. -/
theorem redeclarations_eq (ds : List (String × Declaration)) :
    ∀ earlier, redeclarations earlier ds =
      (List.finRange ds.length).filterMap fun i : Fin ds.length =>
        redeclaration? (earlier ++ ds.take i) ds[i] := by
  induction ds with
  | nil => exact fun _ => rfl
  | cons d ds ih =>
    obtain ⟨name, d⟩ := d
    intro earlier
    have hplaces : List.finRange ((name, d) :: ds).length =
        0 :: (List.finRange ds.length).map Fin.succ := List.finRange_succ
    rw [redeclarations, ih, hplaces, List.filterMap_cons, List.filterMap_map]
    cases hfirst : earlier.lookup name with
    | none => simp [redeclaration?, hfirst, Function.comp_def]
    | some first => simp [redeclaration?, hfirst, Function.comp_def]

/-- **Every declaration is recorded once.** The walk over the files registers just the names of the
types that they declare. A name stands for its first declaration in the order of the walk, and there
is one violation for each later one, in that order, with the two files. -/
theorem Registry.types_recorded (files : List File) :
    let ds := typesInOrder files
    ((∀ f ∈ files, f.Named) → collect files = ⟨(ofFiles files).1, (ofFiles files).2⟩) ∧
    (∀ name, name ∈ (ofFiles files).1.entries.map Prod.fst ↔ name ∈ ds.map Prod.fst) ∧
    (∀ name, (ofFiles files).1.find? name = ds.lookup name) ∧
    (ofFiles files).2 =
      ((List.finRange ds.length).filterMap fun i : Fin ds.length =>
        redeclaration? (ds.take i) ds[i]) ∧
    (ofFiles files).1.size + (ofFiles files).2.length = ds.length := by
  intro ds
  have hds : declaredTypes files = ds := declaredTypes_eq files
  have hfind : ∀ name, (ofFiles files).1.find? name = ds.lookup name := fun name => by
    rw [find?_ofFiles, hds]
  refine ⟨collect_eq, fun name => ?_, hfind, ?_, ?_⟩
  · rw [← not_iff_not, ← lookup_eq_none, ← lookup_eq_none]
    exact iff_of_eq (congrArg (· = none) (hfind name))
  · rw [violations_ofFiles, redeclarations_eq, hds]
    rfl
  · rw [← hds, ofFiles, size_registerAll]
    exact Nat.zero_add _

/-- An enum and a message of one name inside of a message, and names that a second file declares
again. -/
theorem Registry.types_recorded_twice :
    let line : Enum := { name := "Line", values := [{ name := "NONE", number := 0 }] }
    let files : List File := [
      { name := "a.proto", enums := [line], messages := [
        { name := "Order", enums := [line], messages := [{ name := "Line" }] }] },
      { name := "b.proto", messages := [{ name := "Line" }, { name := "Order" }] }]
    (∀ f ∈ files, f.Named) ∧ collect files = ⟨(ofFiles files).1, (ofFiles files).2⟩ ∧
    (ofFiles files).1.find? "Order.Line" = some ⟨"a.proto", .enum⟩ ∧
    (ofFiles files).2 = [.duplicateType "Order.Line" "a.proto" "a.proto",
      .duplicateType "Line" "a.proto" "b.proto", .duplicateType "Order" "a.proto" "b.proto"] ∧
    (ofFiles files).1.size + (ofFiles files).2.length = 6 := by
  intro line files
  have hnamed : ∀ f ∈ files, f.Named := by decide
  obtain ⟨hwalk, -, hfind, hviolations, hsize⟩ := types_recorded files
  exact ⟨hnamed, hwalk hnamed, (hfind _).trans (by decide), hviolations.trans (by decide), hsize⟩

end WireSchema

/-!
# The type registry

Every message and enum of a package, by its name relative to the package (`Order`, `Order.Line`),
with its kind and the file that declares it. The first declaration of a name stays; a reference is
looked up in the innermost scope first, then in each enclosing scope, then at package level.
-/

namespace WireSchema

inductive DeclKind where
  | message
  | enum
deriving DecidableEq, Repr

structure Declaration where
  file : String
  kind : DeclKind
deriving DecidableEq, Repr

/-- The declared types, in the order of their registration. -/
structure Registry where
  entries : List (String × Declaration)
  distinct : (entries.map Prod.fst).Nodup

namespace Registry

def empty : Registry := ⟨[], .nil⟩

instance : EmptyCollection Registry := ⟨empty⟩
instance : Inhabited Registry := ⟨empty⟩

def find? (r : Registry) (name : String) : Option Declaration := r.entries.lookup name

def size (r : Registry) : Nat := r.entries.length
def isEmpty (r : Registry) : Bool := r.entries.isEmpty

theorem lookup_eq_none {α : Type} {name : String} {l : List (String × α)} :
    l.lookup name = none ↔ name ∉ l.map Prod.fst := by
  induction l with
  | nil => simp
  | cons e es ih =>
    obtain ⟨k, v⟩ := e
    by_cases h : name = k
    · subst h; simp
    · have hb : (name == k) = false := by simpa using h
      rw [List.lookup_cons, hb]
      simp only [List.map_cons, List.mem_cons, not_or, ih]
      exact ⟨fun h' => ⟨h, h'⟩, fun h' => h'.2⟩

/-- Adds a declaration, or returns the one that has its name already. -/
def register (r : Registry) (name : String) (d : Declaration) : Except Declaration Registry :=
  match h : r.find? name with
  | some existing => .error existing
  | none =>
    .ok ⟨r.entries ++ [(name, d)], by
      rw [List.map_append, List.nodup_append]
      refine ⟨r.distinct, by simp, ?_⟩
      intro a ha b hb
      have hb : b = name := by simpa using hb
      subst hb
      rintro rfl
      exact (lookup_eq_none.1 h) ha⟩

/-- `name` as seen inside the scope with these names, outermost first. -/
def within (scope : List String) (name : String) : String :=
  let outer := ".".intercalate scope
  if outer.isEmpty then name else outer ++ "." ++ name

/-- The scope itself and the scopes around it, innermost first. -/
def enclosing (scope : List String) : List (List String) :=
  (List.range (scope.length + 1)).reverse.map scope.take

/-- The declaration a name refers to from inside `scope`, with its full name. -/
def resolve? (r : Registry) (scope : List String) (name : String) : Option (String × Declaration) :=
  (enclosing scope).findSome? fun outer =>
    (r.find? (within outer name)).map fun d => (within outer name, d)

end Registry
end WireSchema

import WireSchema.Package
import WireSchema.Proofs.Outcome

/-!
# Fields and references at every depth

A file as flat lists: its messages with what they nest, each with its path; the fields of all
messages and of the extensions; and the references that these and the methods make. The same lists
are read off the descriptor of a file, in the same order.

`File.mem_fields` and `File.mem_references` say that nothing is left out: the fields of a file are
those that its messages and its extensions declare, the references those of its fields and methods.
-/

namespace WireSchema

/-! ## References -/

/-- A reference to a type: the messages around it, the kind of type that it expects, and how it is
written. -/
structure Reference where
  path : List String
  expected : DeclKind
  target : TypeName
deriving DecidableEq, Repr

/-- What a reference stands for where it is made. -/
def Reference.resolve (s : Scope) (r : Reference) : Except Violation TypeRef :=
  ({ s with path := r.path } : Scope).resolve r.expected r.target

/-- The reference that a leaf type makes, with the kind of type that it expects. -/
def LeafType.reference? : LeafType → Option (DeclKind × TypeName)
  | enum t _ => some (.enum, t)
  | message t => some (.message, t)
  | timestamp _ => some (.message, .wellKnown .timestamp)
  | duration _ => some (.message, .wellKnown .duration)
  | any _ => some (.message, .wellKnown .any)
  | _ => none

namespace Field

/-- The references of a field inside the messages of this path, those of its elements included. -/
def references (path : List String) : Field → List Reference
  | leaf f => f.type.reference?.toList.map fun (expected, target) => ⟨path, expected, target⟩
  | repeated _ item _ _ => item.references path
  | map _ key value _ => key.references path ++ value.references path

/-- The heads of a field and of its elements. -/
def heads : Field → List FieldHead
  | leaf f => [f.head]
  | repeated h item _ _ => h :: item.heads
  | map h key value _ => h :: (key.heads ++ value.heads)

@[simp] theorem references_withoutPresence (path : List String) (f : Field) :
    f.withoutPresence.references path = f.references path := by
  cases f <;> rfl

@[simp] theorem heads_withoutPresence (f : Field) : f.withoutPresence.heads = f.heads := by
  cases f <;> rfl

end Field

/-- The references that a built kind holds. -/
def WireKind.references : WireKind → List TypeRef
  | .scalar _ => []
  | .enum t | .message t => [t]
  | .repeated ⟨_, item⟩ => item.references
  | .map ⟨_, key⟩ ⟨_, value⟩ => key.references ++ value.references

@[simp] theorem WireKind.references_repeated (item : FieldDescriptor) :
    (WireKind.repeated item).references = item.kind.references := by
  cases item; rfl

@[simp] theorem WireKind.references_map (key value : FieldDescriptor) :
    (WireKind.map key value).references = key.kind.references ++ value.kind.references := by
  cases key; cases value; rfl

/-! ## Lists of what a file declares -/

namespace Message

mutual

/-- A message and everything nested in it, each with its path. -/
def flatten (outer : List String) : Message → List (List String × FlatMessage)
  | ⟨m, nested⟩ => (outer ++ [m.name], m) :: flattenAll (outer ++ [m.name]) nested

def flattenAll (outer : List String) : List Message → List (List String × FlatMessage)
  | [] => []
  | m :: ms => flatten outer m ++ flattenAll outer ms

end

end Message

/-- The fields and choices of a message in the order of its descriptor. -/
def FlatMessage.orderedFields (m : FlatMessage) : List (Nat × Field) :=
  byNumber m.fields ++ m.oneofs.flatMap fun o => byNumber o.choices

def Method.references (m : Method) : List Reference :=
  [⟨[], .message, m.input⟩, ⟨[], .message, m.output⟩]

namespace File

/-- Every field, oneof choice and extension of a file, with the path of its message. -/
def fields (f : File) : List (List String × Field) :=
  ((Message.flattenAll [] f.messages).flatMap fun (path, m) =>
      m.orderedFields.map fun (_, g) => (path, g))
    ++ f.extended.flatMap fun target => (f.extending target).map fun (_, g) => ([], g)

def methods (f : File) : List Method :=
  f.services.flatMap fun v => stableSort Method.precedes v.methods

/-- Every reference of a file to a type. -/
def references (f : File) : List Reference :=
  (f.fields.flatMap fun (path, g) => g.references path) ++ f.methods.flatMap Method.references

end File

/-- The scope that the declarations of a file of the package stand in. -/
def Package.fileScope (p : Package) (f : File) : Scope :=
  f.scope (Registry.ofFiles p.files).1 p.config.validateImport

namespace FileDescriptor

def flatMessages (d : FileDescriptor) : List FlatMessageDescriptor :=
  MessageDescriptor.flattenAll d.messages

/-- Every field, oneof choice and extension of a built file. -/
def fields (d : FileDescriptor) : List FieldDescriptor :=
  d.flatMessages.flatMap FlatMessageDescriptor.allFields
    ++ d.extensions.flatMap ExtensionDescriptor.fields

def methods (d : FileDescriptor) : List MethodDescriptor :=
  d.services.flatMap ServiceDescriptor.methods

/-- Every resolved reference of a built file. -/
def references (d : FileDescriptor) : List TypeRef :=
  (d.fields.flatMap fun g => g.kind.references) ++ d.methods.flatMap fun m => [m.input, m.output]

end FileDescriptor

theorem mem_byNumber {α : Type} {x : Nat × α} {l : List (Nat × α)} : x ∈ byNumber l ↔ x ∈ l :=
  (stableSort_perm _ l).mem_iff

theorem FlatMessage.mem_orderedFields {m : FlatMessage} {x : Nat × Field} :
    x ∈ m.orderedFields ↔ x ∈ m.allFields := by
  simp [orderedFields, allFields, mem_byNumber]

namespace File

theorem mem_extending {f : File} {target : ExtensionTarget} {n : Nat} {g : Field} :
    (n, g) ∈ f.extending target ↔
      ∃ e ∈ f.extensions, e.target = target ∧ e.number = n ∧ e.field = g := by
  simp [extending, mem_byNumber, and_assoc]

theorem mem_extended {f : File} {target : ExtensionTarget} :
    target ∈ f.extended ↔ ∃ e ∈ f.extensions, e.target = target := by
  have hall : target ∈ ExtensionTarget.all := by cases target <;> decide
  have hsome : (!(f.extending target).isEmpty) = true ↔ ∃ x, x ∈ f.extending target := by
    rw [Bool.not_eq_true', List.isEmpty_eq_false_iff_exists_mem]
  rw [extended, List.mem_filter, hsome]
  constructor
  · intro h
    obtain ⟨_, ⟨n, g⟩, hx⟩ := h
    obtain ⟨e, he, ht, _⟩ := mem_extending.1 hx
    exact ⟨e, he, ht⟩
  · intro h
    obtain ⟨e, he, ht⟩ := h
    exact ⟨hall, _, mem_extending.2 ⟨e, he, ht, rfl, rfl⟩⟩

theorem extended_ne_nil {f : File} : f.extended ≠ [] ↔ f.extensions ≠ [] := by
  simp only [ne_eq, List.eq_nil_iff_forall_not_mem, mem_extended, not_forall, not_not]
  exact ⟨fun ⟨_, e, he, _⟩ => ⟨e, he⟩, fun ⟨e, he⟩ => ⟨_, e, he, rfl⟩⟩

/-- The fields of a file are those that its messages and its extensions declare. -/
theorem mem_fields {f : File} {path : List String} {g : Field} :
    (path, g) ∈ f.fields ↔
      (∃ m, (path, m) ∈ Message.flattenAll [] f.messages ∧ ∃ n, (n, g) ∈ m.allFields)
        ∨ path = [] ∧ ∃ e ∈ f.extensions, e.field = g := by
  unfold fields
  rw [List.mem_append]
  refine or_congr ?_ ?_
  · simp only [List.mem_flatMap, List.mem_map, Prod.exists, Prod.mk.injEq,
      FlatMessage.mem_orderedFields]
    constructor
    · intro h
      obtain ⟨_, m, hm, n, _, hg, rfl, rfl⟩ := h
      exact ⟨m, hm, n, hg⟩
    · intro h
      obtain ⟨m, hm, n, hg⟩ := h
      exact ⟨path, m, hm, n, g, hg, rfl, rfl⟩
  · simp only [List.mem_flatMap, List.mem_map, Prod.exists, Prod.mk.injEq, mem_extended,
      mem_extending]
    constructor
    · intro h
      obtain ⟨_, _, _, _, ⟨e, he, _, _, rfl⟩, rfl, rfl⟩ := h
      exact ⟨rfl, e, he, rfl⟩
    · intro h
      obtain ⟨rfl, e, he, rfl⟩ := h
      exact ⟨e.target, ⟨e, he, rfl⟩, e.number, e.field, ⟨e, he, rfl, rfl, rfl⟩, rfl, rfl⟩

theorem mem_methods {f : File} {m : Method} :
    m ∈ f.methods ↔ ∃ v ∈ f.services, m ∈ v.methods := by
  simp [methods, (stableSort_perm _ _).mem_iff]

/-- The references of a file are those that its fields and methods make. -/
theorem mem_references {f : File} {r : Reference} : r ∈ f.references ↔
    (∃ path g, (path, g) ∈ f.fields ∧ r ∈ g.references path) ∨
      ∃ v ∈ f.services, ∃ m ∈ v.methods, r ∈ m.references := by
  rw [references, List.mem_append, List.mem_flatMap, List.mem_flatMap]
  refine or_congr ⟨?_, ?_⟩ ⟨?_, ?_⟩
  · intro h
    obtain ⟨⟨path, g⟩, hg, hr⟩ := h
    exact ⟨path, g, hg, hr⟩
  · intro h
    obtain ⟨path, g, hg, hr⟩ := h
    exact ⟨(path, g), hg, hr⟩
  · intro h
    obtain ⟨m, hm, hr⟩ := h
    obtain ⟨v, hv, hm⟩ := mem_methods.1 hm
    exact ⟨v, hv, m, hm, hr⟩
  · intro h
    obtain ⟨v, hv, m, hm, hr⟩ := h
    exact ⟨m, mem_methods.2 ⟨v, hv, hm⟩, hr⟩

end File

end WireSchema

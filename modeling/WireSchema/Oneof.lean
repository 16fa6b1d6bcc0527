import WireSchema.Descriptor.File
import WireSchema.Field.Build
import WireSchema.Sorting

/-!
# Oneofs

A oneof is a group of fields of which at most one is populated. Its choices are built in ascending
order of their numbers; a collection cannot be a choice, and presence means nothing inside a oneof.
-/

namespace WireSchema

structure Oneof where
  name : String
  choices : List (Nat × Field) := []
  required : Bool := false
  options : List OptionEntry := []

namespace Oneof

/-- One line of a oneof declaration. -/
inductive Item where
  | choice (number : Nat) (field : Field)
  /-- Exactly one choice must be populated. -/
  | required
  | option (edit : OptionEdit)

def ofName (name : String) : Except InvalidName Oneof := do
  Name.identifier "oneof" name
  return { name }

def add (o : Oneof) : Item → Except InvalidName Oneof
  | .choice number field => return { o with choices := o.choices ++ [(number, field)] }
  | .required => return { o with required := true }
  | .option e => return { o with options := ← e.applyChecked o.options }

/-! ## Building -/

def buildChoice (s : Scope) (oneof : String) (number : Nat) (f : Field) : Built FieldDescriptor :=
  if f.isCollection then
    .reject (.ofViolations [.collectionInOneof f.kindName]) (by simp [Report.ofViolations])
  else (fun d => { d with oneof := some oneof }) <$> f.withoutPresence.build s number

def rules (o : Oneof) : List Rule := if o.required then [.flag ["required"]] else []

def build (s : Scope) (o : Oneof) : Built OneofDescriptor :=
  let fields := Built.list ((byNumber o.choices).map fun (n, f) =>
    (buildChoice s o.name n f).under (scopeOf "field" f.name))
  ((fun fields => ⟨o.name, fields, o.rules, o.options⟩) <$> fields).importing
    (if o.rules.isEmpty then ∅ else .singleton s.validateImport)

end Oneof
end WireSchema

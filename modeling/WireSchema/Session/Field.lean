import WireSchema.Oneof
import WireSchema.Session.Basic

/-!
# Fields and oneofs in a session

A field resolves its reference in the scope of the session and leaves its imports there, also when
its rules are broken; a reference that does not resolve leaves none. A composite runs the builders
of its elements in the same session and reads its own imports off their descriptors.
-/

namespace WireSchema

def FieldContent.run (c : FieldContent) (number : Nat) (h : FieldHead) :
    Builder FieldDescriptor := fun s =>
  (Report.toExcept (.ofViolations (c.violations ++ c.constantViolations h))
    (c.descriptor s.scope number h), s.importing (c.imports s.scope h))

def LeafField.run (number : Nat) (f : LeafField) : Builder FieldDescriptor := fun s =>
  match f.type.wireKind s.scope with
  | .error v => (.error (.ofViolations (f.type.violations ++ [v])), s)
  | .ok kind =>
    FieldContent.run
      { kind, optional := f.optional, violations := f.type.violations, rules := f.type.rules,
        constant := f.type.constantRule?, examples := f.type.exampleRules }
      number f.head s

namespace Field

/-- Runs an element of a collection, which is a leaf without presence. -/
def runElement (number : Nat) (outer : String) : Field → Builder FieldDescriptor
  | leaf f => { f with optional := false : LeafField }.run number
  | other => fun s => (.error (.ofViolations [.nestedCollection outer other.kindName]), s)

def run (number : Nat) : Field → Builder FieldDescriptor
  | leaf f => f.run number
  | repeated head item count unique => fun s =>
    if repeatedViolations item count unique = [] then
      match runElement number "repeated" item s with
      | (.ok item, s) => (repeatedContent count unique item).run number head s
      | (.error r, s) => (.error (r.under "items"), s)
    else (.error (.ofViolations (repeatedViolations item count unique)), s)
  | map head key value pairs => fun s =>
    if mapViolations key value pairs = [] then
      let (key, s) := runElement 1 "map" key s
      let (value, s) := runElement 2 "map" value s
      match key, value with
      | .ok key, .ok value => (mapContent pairs key value).run number head s
      | .ok _, .error r => (.error (r.under "value"), s)
      | .error r, .ok _ => (.error (r.under "key"), s)
      | .error q, .error r => (.error (q.under "key" ++ r.under "value"), s)
    else (.error (.ofViolations (mapViolations key value pairs)), s)

end Field

namespace Oneof

def runChoice (oneof : String) (number : Nat) (f : Field) : Builder FieldDescriptor :=
  if f.isCollection then fun s => (.error (.ofViolations [.collectionInOneof f.kindName]), s)
  else (f.withoutPresence.run number).map fun d => { d with oneof := some oneof }

def run (o : Oneof) : Builder OneofDescriptor := fun s =>
  let (fields, s) := Builder.gather
    ((byNumber o.choices).map fun (n, f) => (scopeOf "field" f.name, runChoice o.name n f)) s
  (fields.report.toExcept ⟨o.name, fields.values, o.rules, o.options⟩,
    if o.required then s.importing (.singleton s.scope.validateImport) else s)

end Oneof
end WireSchema

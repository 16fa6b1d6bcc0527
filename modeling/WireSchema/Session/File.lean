import WireSchema.File
import WireSchema.Session.Message

/-!
# Services and files in a session

The declarations of a file run in one session that starts without imports: messages, enums,
services, then the extensions of each target. What the session has gathered at the end are the
imports of the file, apart from itself.
-/

namespace WireSchema

/-- The import a resolved reference asks for. -/
def referenceImports : Except Violation TypeRef → StringSet
  | .ok t => .ofList t.importPath.toList
  | .error _ => ∅

/-- A method whose types are looked up, with the imports of both. -/
def Method.run (m : Method) : Builder MethodDescriptor := fun s =>
  let input := s.scope.resolve .message m.input
  let output := s.scope.resolve .message m.output
  let s := s.importing (referenceImports input ∪ referenceImports output)
  match input, output with
  | .ok i, .ok o =>
    (.ok ⟨m.name, i, o, m.clientStreaming, m.serverStreaming, m.options⟩, s)
  | .ok _, .error v | .error v, .ok _ => (.error (.ofViolations [v]), s)
  | .error v, .error w => (.error (.ofViolations [v, w]), s)

def Service.run (v : Service) : Builder ServiceDescriptor := fun s =>
  let (methods, s) := Builder.gather
    ((stableSort Method.precedes v.methods).map fun m => (scopeOf "method" m.name, m.run)) s
  (Report.toExcept (.ofViolations v.violations ++ methods.report)
    ⟨v.name, methods.values, v.options⟩, s)

namespace File

/-- Runs the fields of a block that follow `earlier`. -/
def runExtending (earlier : List (Nat × String)) :
    List (Nat × Field) → Session → Gathered FieldDescriptor × Session
  | [], s => ({}, s)
  | (number, f) :: rest, s =>
    let (result, s) := f.run number s
    let (g, s) := runExtending (earlier ++ [(number, f.name)]) rest s
    let g := g.add (scopeOf "field" f.name) result
    let numbers := Report.ofViolations (numberViolations earlier number f.name)
    ({ g with report := numbers.under (scopeOf "field" f.name) ++ g.report }, s)

def runExtension (f : File) (target : ExtensionTarget) : Builder ExtensionDescriptor := fun s =>
  let (fields, s) := runExtending [] (f.extending target)
    (s.importing (.singleton descriptorImport))
  (fields.report.toExcept ⟨target, fields.values⟩, s)

/-- Runs the declarations of a file one after another in a session of their own. -/
def run (package : String) (registry : Registry) (validateImport : String) (f : File) :
    Except Report FileDescriptor :=
  let (messages, s) := Message.runAll f.messages { scope := f.scope registry validateImport }
  let (enums, s) := FlatMessage.runEnums f.enums s
  let (services, s) := Builder.gather
    (f.services.map fun v => (scopeOf "service" v.name, v.run)) s
  let (extensions, s) := Builder.gather
    (f.extended.map fun target => ("extend " ++ target.extendee, f.runExtension target)) s
  Report.toExcept
    (messages.report ++ enums.report ++ services.report ++ extensions.report)
    { name := f.name, package, imports := (s.imports ∪ f.imports).erase f.name,
      options := f.options, messages := messages.values, enums := enums.values,
      services := services.values, extensions := extensions.values }

end File
end WireSchema

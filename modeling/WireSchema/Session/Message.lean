import WireSchema.Message.Build
import WireSchema.Session.Field

/-!
# Enums and messages in a session

A message enters its own name for as long as its parts run and leaves it again whether they failed
or not, so that the next builder finds the scope it would have found without the message.
-/

namespace WireSchema

def Enum.run (e : Enum) : Builder EnumDescriptor := fun s =>
  (Report.toExcept (.ofViolations e.violations) (e.descriptor s.scope), s)

namespace FlatMessage

def runFields (m : FlatMessage) : Session → Gathered FieldDescriptor × Session :=
  Builder.gather ((byNumber m.fields).map fun (n, f) => (scopeOf "field" f.name, f.run n))

def runOneofs (m : FlatMessage) : Session → Gathered OneofDescriptor × Session :=
  Builder.gather (m.oneofs.map fun o => (scopeOf "oneof" o.name, o.run))

def runEnums (enums : List Enum) : Session → Gathered EnumDescriptor × Session :=
  Builder.gather (enums.map fun e => (scopeOf "enum" e.name, e.run))

end FlatMessage

namespace Message

mutual
def run : Message → Builder MessageDescriptor
  | ⟨m, nested⟩ => fun s =>
    let outer := s.scope
    let (fields, s) := m.runFields (s.enter m.name)
    let (oneofs, s) := m.runOneofs s
    let (messages, s) := runAll nested s
    let (enums, s) := FlatMessage.runEnums m.enums s
    let s := s.leave
    (Report.toExcept
        (.ofViolations (m.drift ++ m.numberingViolations) ++ fields.report ++ oneofs.report
          ++ messages.report ++ enums.report)
        (m.assemble outer fields.values oneofs.values messages.values enums.values),
      if m.rules.isEmpty then s else s.importing (.singleton s.scope.validateImport))

/-- Runs messages that stand side by side. -/
def runAll : List Message → Session → Gathered MessageDescriptor × Session
  | [], s => ({}, s)
  | m :: ms, s =>
    let (result, s) := run m s
    let (g, s) := runAll ms s
    (g.add (scopeOf "message" m.name) result, s)
end

end Message
end WireSchema

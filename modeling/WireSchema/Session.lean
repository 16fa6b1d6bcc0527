import WireSchema.Session.File

/-!
# Steps of a session

A session runs one declaration after another in one scope and gathers the imports that they ask
for, those of failed builds included.
-/

namespace WireSchema

/-- A declaration to build. -/
inductive Step where
  | field (number : Nat) (f : Field)
  | oneof (o : Oneof)
  | enum (e : Enum)
  | message (m : Message)
  | service (s : Service)

/-- What a step builds. -/
inductive Product where
  | field (d : FieldDescriptor)
  | oneof (d : OneofDescriptor)
  | enum (d : EnumDescriptor)
  | message (d : MessageDescriptor)
  | service (d : ServiceDescriptor)

/-- What a step yields in a scope on its own. -/
def Step.build (scope : Scope) : Step → Built Product
  | field number f => .field <$> f.build scope number
  | oneof o => .oneof <$> o.build scope
  | enum e => .enum <$> e.build scope
  | message m => .message <$> m.build scope
  | service s => .service <$> s.build scope

def Step.run : Step → Builder Product
  | field number f => (f.run number).map .field
  | oneof o => o.run.map .oneof
  | enum e => e.run.map .enum
  | message m => m.run.map .message
  | service s => s.run.map .service

namespace Session

/-- The result of one step and the session after it. -/
def step (s : Session) (next : Step) : Except Report Product × Session := next.run s

/-- The results of the steps in order and the session after them. -/
def run (s : Session) : List Step → List (Except Report Product) × Session
  | [] => ([], s)
  | next :: rest =>
    let (result, s) := s.step next
    let (results, s) := s.run rest
    (result :: results, s)

end Session
end WireSchema

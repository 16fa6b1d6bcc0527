import WireSchema.Built
import WireSchema.Scope

/-!
# Sessions

A session is what the builds of one file share: the scope that the next one takes place in, and the
imports asked for so far, those of failed builds included. A builder runs in a session, yields a
value or a report, and leaves the session for the builder after it.

Several builders run one after another (`Builder.gather`): the report of each that fails is kept
beneath its scope, the values of the others in order, and the session goes through all of them.
-/

namespace WireSchema

/-- Where the next build takes place, and the imports asked for so far. -/
structure Session where
  scope : Scope
  imports : StringSet := ∅

namespace Session

/-- The session with more imports. -/
def importing (imports : StringSet) (s : Session) : Session :=
  { s with imports := s.imports ∪ imports }

/-- The session inside the message of this name. -/
def enter (name : String) (s : Session) : Session := { s with scope := s.scope.enter name }

/-- The session outside the innermost message. -/
def leave (s : Session) : Session := { s with scope := s.scope.leave }

@[simp] theorem scope_importing (i : StringSet) (s : Session) :
    (s.importing i).scope = s.scope := rfl
@[simp] theorem imports_importing (i : StringSet) (s : Session) :
    (s.importing i).imports = s.imports ∪ i := rfl
@[simp] theorem scope_enter (name : String) (s : Session) :
    (s.enter name).scope = s.scope.enter name := rfl

end Session

/-- A build that takes place in a session. -/
abbrev Builder (α : Type) := Session → Except Report α × Session

/-- What several builders yield. -/
structure Gathered (α : Type) where
  /-- What the failed ones report, each beneath its scope. -/
  report : Report := []
  /-- The values of the others. -/
  values : List α := []

namespace Gathered

variable {α : Type}

/-- With the outcome of a builder in front. -/
def add (scope : String) (result : Except Report α) (g : Gathered α) : Gathered α :=
  match result with
  | .ok a => { g with values := a :: g.values }
  | .error r => { g with report := r.under scope ++ g.report }

end Gathered

namespace Builder

variable {α β : Type}

def map (f : α → β) (x : Builder α) : Builder β := fun s =>
  let (result, s) := x s
  (result.map f, s)

/-- Runs builders one after another, each under the name of its scope. -/
def gather : List (String × Builder α) → Session → Gathered α × Session
  | [], s => ({}, s)
  | (scope, x) :: rest, s =>
    let (result, s) := x s
    let (g, s) := gather rest s
    (g.add scope result, s)

end Builder
end WireSchema

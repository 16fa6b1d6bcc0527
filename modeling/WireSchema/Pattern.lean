/-!
# Patterns

Regular expressions are compiled by an engine of their own, which this library asks one thing: what
is wrong with a text. The engine is a parameter, and nothing is assumed about which texts it refuses
or why. A pattern carries what the engine said of it, so a declaration is checked without the engine.
-/

namespace WireSchema

/-- An engine for regular expressions. What it says depends on the text alone. -/
structure PatternEngine where
  /-- Why the text does not compile, in the words of the engine; nothing if it does. -/
  refusal? : String → Option String

/-- The text of a pattern and what its engine said of it. -/
structure Pattern where
  text : String
  refusal? : Option String

namespace PatternEngine

def read (engine : PatternEngine) (text : String) : Pattern := ⟨text, engine.refusal? text⟩

end PatternEngine
end WireSchema

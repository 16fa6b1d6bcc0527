import WireSchema.Text.CodeRun

/-!
# White space

The Unicode property `White_Space`, and texts with all of it removed.
-/

namespace WireSchema.Text

/-- The property `White_Space`. -/
def blankRuns : List CodeRun :=
  [⟨9, 13, 1⟩, ⟨32, 32, 1⟩, ⟨133, 133, 1⟩, ⟨160, 160, 1⟩, ⟨5760, 5760, 1⟩, ⟨8192, 8202, 1⟩,
   ⟨8232, 8233, 1⟩, ⟨8239, 8239, 1⟩, ⟨8287, 8287, 1⟩, ⟨12288, 12288, 1⟩]

def isBlank (c : Char) : Bool := CodeRun.anyHas blankRuns c

/-- The text without its white space. -/
def stripBlanks (s : String) : String := String.ofList (s.toList.filter fun c => !isBlank c)

end WireSchema.Text

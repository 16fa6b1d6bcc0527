/-!
# Lines of generated text

Generated text is a list of lines. A block is a head that opens a brace, a body one step further
in, and the closing brace; sections are set apart by blank lines, which are never indented.
-/

namespace WireSchema.Text

def blanks (width : Nat) : String := String.ofList (List.replicate width ' ')

/-- The line moved to the right, unless it is blank. -/
def indentLine (width : Nat) (line : String) : String :=
  if line.isEmpty then line else blanks width ++ line

def indent (width : Nat) (lines : List String) : List String := lines.map (indentLine width)

/-- A head, a body between braces, and what follows the closing brace. -/
def block (width : Nat) (head : String) (body : List String) (tail : String) : List String :=
  (head ++ " \x7b") :: indent width body ++ ["\x7d" ++ tail]

/-- The sections that have lines, with a blank line between each two. -/
def sections (parts : List (List String)) : List String :=
  [""].intercalate (parts.filter fun part => !part.isEmpty)

/-- The lines with a comma after all but the last. -/
def commaLines : List String → List String
  | [] => []
  | [line] => [line]
  | line :: lines => (line ++ ",") :: commaLines lines

/-- The text of these lines, each ended by a newline. -/
def ofLines (lines : List String) : String := String.join (lines.map (· ++ "\n"))

end WireSchema.Text

import WireSchema.Literal.Basic
import WireSchema.Name

/-!
# Options

The options of a declaration are a list of entries. An assignment gives an option its only value,
in the place of its first entry; an addition keeps every earlier entry of the name.
-/

namespace WireSchema

/-- A literal option, such as `deprecated = true` or `(acme.sensitive) = true`. -/
structure OptionEntry where
  name : String
  value : Literal

/-- A change to the options of a declaration. -/
inductive OptionEdit where
  | assign (name : String) (value : Literal)
  | add (name : String) (value : Literal)

namespace OptionEdit

def name : OptionEdit → String
  | assign n _ | add n _ => n

/-- The entries with `name` assigned: overwritten where it first stands, dropped elsewhere, and put
last if there is none. -/
def assigned (name : String) (value : Literal) : List OptionEntry → List OptionEntry
  | [] => [⟨name, value⟩]
  | e :: es =>
    if e.name = name then ⟨name, value⟩ :: es.filter (·.name != name)
    else e :: assigned name value es

/-- The entries after the change. -/
def apply (options : List OptionEntry) : OptionEdit → List OptionEntry
  | assign n v => assigned n v options
  | add n v => options ++ [⟨n, v⟩]

/-- The entries after a change whose name is checked first. -/
def applyChecked (options : List OptionEntry) (edit : OptionEdit) :
    Except InvalidName (List OptionEntry) := do
  Name.option edit.name
  return edit.apply options

/-- The switch `deprecated = true`. -/
def deprecated : OptionEdit := assign "deprecated" (.bool true)

end OptionEdit
end WireSchema

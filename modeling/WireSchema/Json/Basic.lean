import WireSchema.Number.Shortest
import WireSchema.Text.Lines
import WireSchema.Text.Quoted

/-!
# JSON values

A JSON value whose objects keep the order of their members, and its indented text.
-/

namespace WireSchema

inductive Json where
  | null
  | bool (value : Bool)
  | int (value : Int)
  | float (value : Binary64)
  | string (text : String)
  | array (items : List Json)
  | object (members : List (String × Json))
deriving Inhabited

namespace Json

def strings (texts : List String) : Json := array (texts.map string)

/-- The value, or null. -/
def ofOption {α : Type} (f : α → Json) (v : Option α) : Json := (v.map f).getD null

def ofList {α : Type} (f : α → Json) (l : List α) : Json := array (l.map f)

/-- An object whose first member names the form of the value. -/
def tagged (kind : String) (members : List (String × Json)) : Json :=
  object (("kind", string kind) :: members)

/-! ## Views -/

/-- The first member of an object with this name. -/
def member? (name : String) : Json → Option Json
  | object members => members.lookup name
  | _ => none

def string? : Json → Option String
  | string s => some s
  | _ => none

def int? : Json → Option Int
  | int i => some i
  | _ => none

def nat? : Json → Option Nat
  | int (.ofNat n) => some n
  | _ => none

def items? : Json → Option (List Json)
  | array items => some items
  | _ => none

/-- The text of a member. -/
def text? (name : String) (v : Json) : Option String := (v.member? name).bind string?

/-- The text of a member that may be null. -/
def optionalText? (name : String) (v : Json) : Option (Option String) :=
  match v.member? name with
  | some null => some none
  | some (string s) => some (some s)
  | _ => none

/-- The items of a member, each read by `f`. -/
def listOf? {α : Type} (f : Json → Option α) (name : String) (v : Json) : Option (List α) :=
  ((v.member? name).bind items?).bind fun items => items.mapM f

/-! ## Text -/

/-- The shortest decimal, a tie going to the even one: positional where its first digit stands
between the fifth place after the point and the sixteenth before it. Only finite numbers have a
text. -/
def floatText (x : Binary64) : String :=
  if x.isFinite then
    let d := x.shortest .even
    x.withSign (if -5 ≤ d.firstPlace && d.firstPlace ≤ 15 then d.positional true else d.scientific)
  else "null"

/-- Entries one a line between brackets, two blanks further in. -/
def enclosed (depth : Nat) (opening closing : String) (entries : List String) : String :=
  if entries.isEmpty then opening ++ closing
  else
    opening ++ "\n"
      ++ ",\n".intercalate (entries.map (Text.blanks (2 * (depth + 1)) ++ ·))
      ++ "\n" ++ Text.blanks (2 * depth) ++ closing

mutual
/-- The indented text of a value that stands inside `depth` brackets. -/
def textAt (depth : Nat) : Json → String
  | null => "null"
  | bool b => if b then "true" else "false"
  | int i => toString i
  | float x => floatText x
  | string s => Text.quote s
  | array items => enclosed depth "[" "]" (itemTexts (depth + 1) items)
  | object members => enclosed depth "\x7b" "\x7d" (memberTexts (depth + 1) members)

def itemTexts (depth : Nat) : List Json → List String
  | [] => []
  | v :: vs => textAt depth v :: itemTexts depth vs

def memberTexts (depth : Nat) : List (String × Json) → List String
  | [] => []
  | (name, v) :: vs => (Text.quote name ++ ": " ++ textAt depth v) :: memberTexts depth vs
end

def text (v : Json) : String := v.textAt 0

end Json
end WireSchema

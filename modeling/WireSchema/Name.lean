import WireSchema.Text.Pieces
import WireSchema.Text.Quoted

/-!
# Names

The grammars of the names a schema may use: identifiers, dotted names (types and packages),
relative `.proto` paths and option names. A name outside its grammar could never be written into a
file, so the declaration that carries it is refused with an `InvalidName`.
-/

namespace WireSchema

/-- A name that cannot be written, with what it was meant for. -/
inductive InvalidName where
  | identifier (what name : String)
  | typeName (what name : String)
  | package (name : String)
  | file (name : String)
  | option (name : String)
deriving DecidableEq, Repr

namespace InvalidName

def message : InvalidName → String
  | identifier what name =>
    "The " ++ what ++ " name " ++ Text.quote name ++ " is not a valid identifier"
  | typeName what name =>
    "The " ++ what ++ " type name " ++ Text.quote name ++ " is not a valid type reference"
  | package name => "The package name " ++ Text.quote name ++ " is not a valid package"
  | file name => "The file name " ++ Text.quote name ++ " is not a relative .proto path"
  | option name => "The option name " ++ Text.quote name ++ " is not a valid option"

end InvalidName

namespace Name

/-! ## Grammars -/

def isStart (c : Char) : Bool := c.isAlpha || c == '_'
def isPart (c : Char) : Bool := c.isAlphanum || c == '_'

/-- An ASCII letter or underscore, then ASCII letters, digits and underscores. -/
def identifierChars : List Char → Bool
  | [] => false
  | c :: cs => isStart c && cs.all isPart

mutual
/-- One identifier or more, with single dots between them. -/
def dottedChars : List Char → Bool
  | [] => false
  | c :: cs => isStart c && dottedRest cs
/-- The rest of a dotted name inside one of its identifiers. -/
def dottedRest : List Char → Bool
  | [] => true
  | c :: cs => if c == '.' then dottedChars cs else isPart c && dottedRest cs
end

def isPathChar (c : Char) : Bool := c.isAlphanum || c == '_' || c == '-'

def pathSegment (cs : List Char) : Bool := !cs.isEmpty && cs.all isPathChar

/-- The characters before `ending`, if `cs` ends in it. -/
def dropEnding? (ending cs : List Char) : Option (List Char) :=
  if ending.isSuffixOf cs then some (cs.take (cs.length - ending.length)) else none

/-- Segments of letters, digits, `_` and `-` between slashes, then `.proto`. -/
def pathChars (cs : List Char) : Bool :=
  match dropEnding? ".proto".toList cs with
  | some stem => (Text.pieces '/' stem).all pathSegment
  | none => false

/-- What stands between the parentheses of an extension name. -/
def extensionChars : List Char → Bool
  | [] => false
  | c :: cs => isStart c && cs.all fun d => isPart d || d == '.'

/-- Nothing, or a dot and a dotted name. -/
def optionTail : List Char → Bool
  | [] => true
  | c :: cs => c == '.' && dottedChars cs

/-- A dotted name, or a parenthesized extension with a dotted tail. -/
def optionChars : List Char → Bool
  | '(' :: cs =>
    match cs.dropWhile (· != ')') with
    | [] => false
    | _ :: tail => extensionChars (cs.takeWhile (· != ')')) && optionTail tail
  | cs => dottedChars cs

def isIdentifier (s : String) : Bool := identifierChars s.toList
def isDotted (s : String) : Bool := dottedChars s.toList
def isProtoPath (s : String) : Bool := pathChars s.toList
def isOptionName (s : String) : Bool := optionChars s.toList

/-! ## Checks -/

def identifier (what name : String) : Except InvalidName Unit :=
  if isIdentifier name then .ok () else .error (.identifier what name)

def typeName (what name : String) : Except InvalidName Unit :=
  if isDotted name then .ok () else .error (.typeName what name)

def package (name : String) : Except InvalidName Unit :=
  if isDotted name then .ok () else .error (.package name)

def file (name : String) : Except InvalidName Unit :=
  if isProtoPath name then .ok () else .error (.file name)

def option (name : String) : Except InvalidName Unit :=
  if isOptionName name then .ok () else .error (.option name)

end Name
end WireSchema

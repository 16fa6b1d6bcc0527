import WireSchema.Text.CaseMap
import WireSchema.Text.Letter
import WireSchema.Text.Pieces

/-!
# Casing of names

`toPascalCase` and `toSnakeCase` recase a name word by word. Words end at underscores and, for
snake case, before a capital that starts a new word; runs of capitals stay one word
(`sessionID` is `session_id`).
-/

namespace WireSchema.Text

def upperText (cs : List Char) : List Char := cs.flatMap upperOf

/-- A cased character comes first once case-ignorable ones are skipped. -/
def startsCased (cs : List Char) : Bool :=
  ((cs.dropWhile isCaseIgnorable).head?).any isCased

/-- Lower case of the characters that follow `before` (nearest first). A capital sigma takes its
final form at the end of a word: after a cased character and before none. -/
def lowerAfter (before : List Char) : List Char → List Char
  | [] => []
  | c :: cs =>
    (if c = 'Σ' then [if startsCased before && !startsCased cs then 'ς' else 'σ'] else lowerOf c)
      ++ lowerAfter (c :: before) cs

def lowerText (cs : List Char) : List Char := lowerAfter [] cs

/-- The first letter in upper case; the rest in lower case or as it is. -/
def capitalize (lowerRest : Bool) : List Char → List Char
  | [] => []
  | c :: cs => upperOf c ++ if lowerRest then lowerText cs else cs

/-- Underscored and all-capital names are recased word by word; any other name keeps its inner
casing. -/
def toPascalCase (s : String) : String :=
  let cs := s.toList
  if cs.contains '_' then
    String.ofList (((pieces '_' cs).filter fun w => !w.isEmpty).flatMap (capitalize true))
  else String.ofList (capitalize (cs == upperText cs) cs)

/-- A capital after `previous` starts a new word when the previous character is no capital, or
when a small letter follows it. -/
def startsWord (previous : Option Char) (next : List Char) : Bool :=
  match previous with
  | none => false
  | some p => !isUppercase p || next.head?.any isLowercase

/-- Snake case of the characters that follow `previous`. -/
def snakeAfter (previous : Option Char) : List Char → List Char
  | [] => []
  | c :: cs =>
    (if isUppercase c then (if startsWord previous cs then ['_'] else []) ++ lowerOf c else [c])
      ++ snakeAfter (some c) cs

def toSnakeCase (s : String) : String := String.ofList (snakeAfter none s.toList)

end WireSchema.Text

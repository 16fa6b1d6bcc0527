import WireSchema.Built
import WireSchema.Field.Basic
import WireSchema.Scope

/-!
# Building fields

A field is checked against the rules of its type, its reference is resolved, and what it declares
becomes the rules of its descriptor: those of the type first, then `required`, the expression
constraints and the examples. A constant stands in front of them and tolerates none.

A composite looks at itself first and builds its elements only if nothing was wrong; their rules
then appear beneath its own.
-/

namespace WireSchema

/-! ## Checks of the leaf types -/

/-- Whether a field of this kind can hold the value. -/
def NumericKind.fits (k : NumericKind) (v : Literal) : Bool :=
  match k.range? with
  | none => v.isNumeric
  | some (least, greatest) =>
    match v.integer? with
    | some i => least ≤ i && i ≤ greatest
    | none => false

namespace NumberRules

/-- Every value the rules mention, by rule name. -/
def named (r : NumberRules) : List (String × Literal) :=
  r.range.named ++ r.members.named ++ r.samples.named

def violations (k : NumericKind) (r : NumberRules) : List Violation :=
  ((r.named.filter fun (_, v) => !k.fits v).map fun (name, v) =>
      .boundTypeMismatch name v.describe k.protoName)
    ++ r.range.violations
    ++ r.members.violations
    ++ (if r.finite && !k.isFloat then [.finiteOnNonFloat k.protoName] else [])

def rules (k : NumericKind) (r : NumberRules) : List Rule :=
  r.range.rules k.protoName
    ++ r.members.rules k.protoName
    ++ (if r.finite then [.flag [k.protoName, "finite"]] else [])

end NumberRules

namespace Affixes

variable {α : Type}

/-- The pattern has to compile. -/
def violations (a : Affixes α) : List Violation :=
  match a.pattern with
  | none => []
  | some p => p.refusal?.toList.map fun reason => .invalidPattern p.text reason

def rules (group : String) (a : Affixes Literal) : List Rule :=
  [("pattern", a.pattern.map fun p => .string p.text), ("prefix", a.leading), ("suffix", a.trailing),
    ("contains", a.contains), ("not_contains", a.notContains)].filterMap fun (name, v) =>
      v.map fun v => ⟨[group, name], v⟩

end Affixes

namespace StringRules

def violations (r : StringRules) : List Violation :=
  r.length.violations Length.units
    ++ r.bytes.violations Length.bytes
    ++ (r.members.map Literal.string).violations
    ++ r.affixes.violations
    ++ Format.violations r.formats

def rules (r : StringRules) : List Rule :=
  r.length.rules "string" Length.units
    ++ r.bytes.rules "string" Length.bytes
    ++ (r.affixes.map Literal.string).rules "string"
    ++ (r.members.map Literal.string).rules "string"
    ++ Format.rules "string" r.formats

end StringRules

namespace BytesRules

def violations (r : BytesRules) : List Violation :=
  r.length.violations Length.units
    ++ (r.members.map Literal.bytes).violations
    ++ r.affixes.violations
    ++ Format.violations r.formats

def rules (r : BytesRules) : List Rule :=
  r.length.rules "bytes" Length.units
    ++ (r.affixes.map Literal.bytes).rules "bytes"
    ++ (r.members.map Literal.bytes).rules "bytes"
    ++ Format.rules "bytes" r.formats

end BytesRules

namespace EnumRules

def violations (r : EnumRules) : List Violation := (r.members.map Literal.int).violations

def rules (r : EnumRules) : List Rule :=
  (if r.definedOnly then [.flag ["enum", "defined_only"]] else [])
    ++ (r.members.map Literal.int).rules "enum"

end EnumRules

/-- A value that no duration on the wire can hold. -/
def durationViolation (rule : String) (v : Literal) : List Violation :=
  if v.inDurationRange then [] else [.durationOutOfRange rule v.describe]

namespace TimestampRules

/-- The rules that cannot be combined with the current time as a bound. -/
def conflicts (r : TimestampRules) : List (Bool × String × String) :=
  [(r.ltNow && r.range.lt.isSome, "lt", "lt_now"),
   (r.ltNow && r.range.lte.isSome, "lte", "lt_now"),
   (r.gtNow && r.range.gt.isSome, "gt", "gt_now"),
   (r.gtNow && r.range.gte.isSome, "gte", "gt_now"),
   (r.ltNow && r.gtNow, "lt_now", "gt_now")]

def violations (r : TimestampRules) : List Violation :=
  (r.range.map Literal.ofInstant).violations
    ++ (match r.within with
      | some d => durationViolation "within" (.ofSpan d)
      | none => [])
    ++ (r.conflicts.filter (·.1)).map fun (_, first, second) => .conflictingRules first second

def rules (r : TimestampRules) : List Rule :=
  (r.range.map Literal.ofInstant).rules "timestamp"
    ++ (if r.ltNow then [.flag ["timestamp", "lt_now"]] else [])
    ++ (if r.gtNow then [.flag ["timestamp", "gt_now"]] else [])
    ++ (r.within.map fun d => ⟨["timestamp", "within"], Literal.ofSpan d⟩).toList

end TimestampRules

namespace DurationRules

def violations (r : DurationRules) : List Violation :=
  let range := r.range.map Literal.ofSpan
  let members := r.members.map Literal.ofSpan
  let constant := r.samples.constant.toList.map fun v => ("const", Literal.ofSpan v)
  range.violations
    ++ members.violations
    ++ (range.named ++ members.named ++ constant).flatMap fun (rule, v) => durationViolation rule v

def rules (r : DurationRules) : List Rule :=
  (r.range.map Literal.ofSpan).rules "duration" ++ (r.members.map Literal.ofSpan).rules "duration"

end DurationRules

namespace LeafType

def violations : LeafType → List Violation
  | number k r => r.violations k
  | bool _ => []
  | string r => r.violations
  | bytes r => r.violations
  | enum _ r => r.violations
  | message _ => []
  | timestamp r => r.violations
  | duration r => r.violations
  | any m => (m.map Literal.string).violations

/-- The rules of the type, sample values apart. -/
def rules : LeafType → List Rule
  | number k r => r.rules k
  | bool _ => []
  | string r => r.rules
  | bytes r => r.rules
  | enum _ r => r.rules
  | message _ => []
  | timestamp r => r.rules
  | duration r => r.rules
  | any m => (m.map Literal.string).rules "any"

def samples : LeafType → Samples Literal
  | number _ r => r.samples
  | bool s => s.map Literal.bool
  | string r => r.samples.map Literal.string
  | bytes r => r.samples.map Literal.bytes
  | enum _ r => r.samples.map Literal.int
  | message _ => {}
  | timestamp r => r.samples.map Literal.ofInstant
  | duration r => r.samples.map Literal.ofSpan
  | any _ => {}

/-- The rule group of the type in the validation extension. -/
def group? : LeafType → Option String
  | number k _ => some k.protoName
  | bool _ => some "bool"
  | string _ => some "string"
  | bytes _ => some "bytes"
  | enum _ _ => some "enum"
  | message t => t.wellKnown?.bind WellKnown.ruleGroup?
  | timestamp _ => some "timestamp"
  | duration _ => some "duration"
  | any _ => some "any"

def constantRule? (t : LeafType) : Option Rule := do
  let group ← t.group?
  let v ← t.samples.constant
  some ⟨[group, "const"], v⟩

def exampleRules (t : LeafType) : List Rule :=
  match t.group? with
  | some group => t.samples.examples.map fun v => ⟨[group, "example"], v⟩
  | none => []

/-- The layout of a value, with its reference resolved. -/
def wireKind (s : Scope) : LeafType → Except Violation WireKind
  | number k _ => .ok (.scalar (.numeric k))
  | bool _ => .ok (.scalar .bool)
  | string _ => .ok (.scalar .string)
  | bytes _ => .ok (.scalar .bytes)
  | enum t _ => (s.resolve .enum t).map WireKind.enum
  | message t => (s.resolve .message t).map WireKind.message
  | timestamp _ => (s.resolve .message (.wellKnown .timestamp)).map WireKind.message
  | duration _ => (s.resolve .message (.wellKnown .duration)).map WireKind.message
  | any _ => (s.resolve .message (.wellKnown .any)).map WireKind.message

end LeafType

/-! ## Descriptors -/

/-- The imports a kind asks for: the file of its type, or those of its elements. -/
def WireKind.imports : WireKind → StringSet
  | .scalar _ => ∅
  | .enum t | .message t => .ofList t.importPath.toList
  | .repeated item => item.imports
  | .map key value => key.imports ∪ value.imports

/-- The rules of the head: `required`, then the expression constraints in order. -/
def FieldHead.rules (h : FieldHead) : List Rule :=
  (if h.required then [.flag ["required"]] else []) ++ h.constraints.map Constraint.rule

/-- What the type of a field contributes to its descriptor. -/
structure FieldContent where
  kind : WireKind
  optional : Bool := false
  violations : List Violation := []
  rules : List Rule
  constant : Option Rule := none
  examples : List Rule := []

namespace FieldContent

/-- All rules but the constant. -/
def otherRules (c : FieldContent) (h : FieldHead) : List Rule := c.rules ++ h.rules ++ c.examples

/-- A constant stands alone and is never absent. -/
def constantViolations (c : FieldContent) (h : FieldHead) : List Violation :=
  if c.constant.isSome then
    (if (c.otherRules h).isEmpty then [] else [.constWithRules (Rule.names (c.otherRules h))])
      ++ (if c.optional then [.constOptional] else [])
  else []

def allRules (c : FieldContent) (h : FieldHead) : List Rule := c.constant.toList ++ c.otherRules h

/-- The imports of the kind, of the rules and of the head. -/
def imports (c : FieldContent) (s : Scope) (h : FieldHead) : StringSet :=
  c.kind.imports
    ∪ (if (c.allRules h).isEmpty then ∅ else .singleton s.validateImport)
    ∪ h.imports

/-- The descriptor of a field with this head and content. -/
def descriptor (c : FieldContent) (s : Scope) (number : Nat) (h : FieldHead) : FieldDescriptor where
  name := h.name
  number := number
  kind := c.kind
  optional := c.optional
  constant := c.constant.isSome
  oneof := none
  rules := c.allRules h
  options := h.options
  imports := c.imports s h

def build (c : FieldContent) (s : Scope) (number : Nat) (h : FieldHead) : Built FieldDescriptor :=
  ((fun _ => c.descriptor s number h) <$>
    Built.check (.ofViolations (c.violations ++ c.constantViolations h))).importing (c.imports s h)

end FieldContent

/-! ## Fields -/

def LeafField.build (s : Scope) (number : Nat) (f : LeafField) : Built FieldDescriptor :=
  match f.type.wireKind s with
  | .error v => .reject (.ofViolations (f.type.violations ++ [v])) (by simp [Report.ofViolations])
  | .ok kind =>
    FieldContent.build
      { kind, optional := f.optional, violations := f.type.violations, rules := f.type.rules,
        constant := f.type.constantRule?, examples := f.type.exampleRules }
      s number f.head

namespace Field

/-- A collection inside a collection. -/
def nestingViolations (outer : String) (inner : Field) : List Violation :=
  if inner.isCollection then [.nestedCollection outer inner.kindName] else []

def repeatedViolations (item : Field) (count : Size) (unique : Bool) : List Violation :=
  nestingViolations "repeated" item
    ++ (if unique && item.scalar?.isNone then [.uniqueOnNonScalar item.kindName] else [])
    ++ count.violations Size.items

def mapViolations (key value : Field) (pairs : Size) : List Violation :=
  (if key.scalar?.any ScalarKind.isMapKey then [] else [.invalidMapKey key.kindName])
    ++ nestingViolations "map" value
    ++ pairs.violations Size.pairs

/-- The content of a repeated field around a built item. -/
def repeatedContent (count : Size) (unique : Bool) (item : FieldDescriptor) : FieldContent where
  kind := .repeated item
  rules := count.rules "repeated" Size.items
    ++ (if unique then [.flag ["repeated", "unique"]] else [])
    ++ item.rules.map (Rule.wrapped ["repeated", "items"])

/-- The content of a map around a built key and value. -/
def mapContent (pairs : Size) (key value : FieldDescriptor) : FieldContent where
  kind := .map key value
  rules := pairs.rules "map" Size.pairs
    ++ key.rules.map (Rule.wrapped ["map", "keys"])
    ++ value.rules.map (Rule.wrapped ["map", "values"])

/-- Builds an element of a collection, which is a leaf without presence. -/
def buildElement (s : Scope) (number : Nat) (outer : String) : Field → Built FieldDescriptor
  | leaf f => { f with optional := false : LeafField }.build s number
  | other => .reject (.ofViolations [.nestedCollection outer other.kindName]) (by
      simp [Report.ofViolations])

/-- Checks a field and resolves it to its descriptor. -/
def build (s : Scope) (number : Nat) : Field → Built FieldDescriptor
  | leaf f => f.build s number
  | repeated head item count unique =>
    .ifClear (.ofViolations (repeatedViolations item count unique)) <|
      ((buildElement s number "repeated" item).under "items").andThen fun item =>
        (repeatedContent count unique item).build s number head
  | map head key value pairs =>
    .ifClear (.ofViolations (mapViolations key value pairs)) <|
      (Prod.mk <$> (buildElement s 1 "map" key).under "key"
        <*> (buildElement s 2 "map" value).under "value").andThen fun (key, value) =>
          (mapContent pairs key value).build s number head

end Field
end WireSchema

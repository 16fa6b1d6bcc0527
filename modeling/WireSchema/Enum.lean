import WireSchema.Built
import WireSchema.Descriptor.File
import WireSchema.Scope
import WireSchema.Sorting

/-!
# Enums

An enum needs a value numbered zero, distinct names, distinct numbers unless aliases are allowed,
and no value on a reserved number or name. Its values come out with the zero value first and the
rest in ascending order; aliases keep the order of their declaration.
-/

namespace WireSchema

structure EnumValue where
  name : String
  number : Int
  options : List OptionEntry := []

namespace EnumValue

def ofName (name : String) (number : Int) : Except InvalidName EnumValue := do
  Name.identifier "enum value" name
  return { name, number }

def edit (v : EnumValue) (e : OptionEdit) : Except InvalidName EnumValue :=
  return { v with options := ← e.applyChecked v.options }

end EnumValue

structure Enum where
  name : String
  values : List EnumValue := []
  allowAlias : Bool := false
  reservedRanges : List ReservedNumbers := []
  reservedNames : List String := []
  options : List OptionEntry := []

namespace Enum

/-- One line of an enum declaration. -/
inductive Item where
  | value (v : EnumValue)
  /-- Several names may share a number. -/
  | allowAlias
  | reserved (range : ReservedNumbers)
  | reservedName (name : String)
  | option (edit : OptionEdit)

def ofName (name : String) : Except InvalidName Enum := do
  Name.identifier "enum" name
  return { name }

/-- The switch that permits aliases in the written enum. -/
def aliasOption : OptionEdit := .assign "allow_alias" (.bool true)

def add (e : Enum) : Item → Except InvalidName Enum
  | .value v => return { e with values := e.values ++ [v] }
  | .allowAlias => return { e with allowAlias := true, options := aliasOption.apply e.options }
  | .reserved r => return { e with reservedRanges := e.reservedRanges ++ [r] }
  | .reservedName n => do
    Name.identifier "reserved" n
    return { e with reservedNames := e.reservedNames ++ [n] }
  | .option o => return { e with options := ← o.applyChecked e.options }

/-! ## Checks -/

/-- What is wrong with one value among those declared before it. -/
def valueViolations (allowAlias : Bool) (earlier : List EnumValue) (v : EnumValue) :
    List Violation :=
  (if earlier.any (·.name == v.name) then [.duplicateName v.name] else [])
    ++ (match earlier.find? (·.number == v.number) with
      | some first =>
        if allowAlias then [] else [.duplicateEnumNumber v.number first.name v.name]
      | none => [])

/-- What is wrong with the values that follow `earlier`. -/
def valuesViolations (allowAlias : Bool) (earlier : List EnumValue) :
    List EnumValue → List Violation
  | [] => []
  | v :: vs =>
    valueViolations allowAlias earlier v ++ valuesViolations allowAlias (earlier ++ [v]) vs

def reservedRangeViolations (values : List EnumValue) (r : ReservedNumbers) : List Violation :=
  if r.last < r.first then [.invalidReservedRange r.first r.last]
  else (values.filter (r.contains ·.number)).map fun v => .reservedNumberInUse v.number v.name

def reservedNameViolations (values : List EnumValue) (name : String) : List Violation :=
  if values.any (·.name == name) then [.reservedNameInUse name] else []

def violations (e : Enum) : List Violation :=
  (if e.values.any (·.number == 0) then [] else [.enumMissingZero])
    ++ valuesViolations e.allowAlias [] e.values
    ++ e.reservedRanges.flatMap (reservedRangeViolations e.values)
    ++ e.reservedNames.flatMap (reservedNameViolations e.values)

/-! ## Building -/

/-- The zero value before all others, the others by number. -/
def precedes (a b : EnumValueDescriptor) : Bool :=
  if a.number = 0 then true else if b.number = 0 then false else a.number ≤ b.number

def descriptor (s : Scope) (e : Enum) : EnumDescriptor where
  name := e.name
  fullName := s.qualify e.name
  values := stableSort precedes (e.values.map fun v => ⟨v.name, v.number, v.options⟩)
  reservedRanges := e.reservedRanges
  reservedNames := e.reservedNames
  options := e.options

def build (s : Scope) (e : Enum) : Built EnumDescriptor :=
  (fun _ => e.descriptor s) <$> Built.check (.ofViolations e.violations)

end Enum
end WireSchema

/-!
# Scalar kinds

The scalar types of the wire format, their keywords and the host types that hold them.
-/

namespace WireSchema

/-- The numeric wire types. -/
inductive NumericKind where
  | double | float
  | int32 | int64 | uint32 | uint64 | sint32 | sint64
  | fixed32 | fixed64 | sfixed32 | sfixed64
deriving DecidableEq, Repr

namespace NumericKind

/-- The proto3 keyword, which is also the name of the kind's rule group. -/
def protoName : NumericKind → String
  | double => "double"
  | float => "float"
  | int32 => "int32"
  | int64 => "int64"
  | uint32 => "uint32"
  | uint64 => "uint64"
  | sint32 => "sint32"
  | sint64 => "sint64"
  | fixed32 => "fixed32"
  | fixed64 => "fixed64"
  | sfixed32 => "sfixed32"
  | sfixed64 => "sfixed64"

/-- The type of the field in generated code. -/
def hostType : NumericKind → String
  | double => "f64"
  | float => "f32"
  | int32 | sint32 | sfixed32 => "i32"
  | int64 | sint64 | sfixed64 => "i64"
  | uint32 | fixed32 => "u32"
  | uint64 | fixed64 => "u64"

def isFloat : NumericKind → Bool
  | double | float => true
  | _ => false

def isSigned : NumericKind → Bool
  | int32 | int64 | sint32 | sint64 | sfixed32 | sfixed64 => true
  | _ => false

/-- The least and the greatest value of an integer kind. -/
def range? : NumericKind → Option (Int × Int)
  | double | float => none
  | int32 | sint32 | sfixed32 => some (-Nat.pow 2 31, Nat.pow 2 31 - 1)
  | int64 | sint64 | sfixed64 => some (-Nat.pow 2 63, Nat.pow 2 63 - 1)
  | uint32 | fixed32 => some (0, Nat.pow 2 32 - 1)
  | uint64 | fixed64 => some (0, Nat.pow 2 64 - 1)

def all : List NumericKind :=
  [double, float, int32, int64, uint32, uint64, sint32, sint64, fixed32, fixed64, sfixed32, sfixed64]

end NumericKind

/-- The scalar wire types. -/
inductive ScalarKind where
  | numeric (kind : NumericKind)
  | bool
  | string
  | bytes
deriving DecidableEq, Repr

namespace ScalarKind

def protoName : ScalarKind → String
  | numeric k => k.protoName
  | bool => "bool"
  | string => "string"
  | bytes => "bytes"

def hostType : ScalarKind → String
  | numeric k => k.hostType
  | bool => "bool"
  | string => "String"
  | bytes => "Vec<u8>"

def isFloat : ScalarKind → Bool
  | numeric k => k.isFloat
  | _ => false

def isSigned : ScalarKind → Bool
  | numeric k => k.isSigned
  | _ => false

def isInteger : ScalarKind → Bool
  | numeric k => !k.isFloat
  | _ => false

def isNumeric : ScalarKind → Bool
  | numeric _ => true
  | _ => false

/-- Map keys may be of any integral kind, strings or booleans. -/
def isMapKey : ScalarKind → Bool
  | numeric k => !k.isFloat
  | bool | string => true
  | bytes => false

def all : List ScalarKind := NumericKind.all.map numeric ++ [bool, string, bytes]

end ScalarKind
end WireSchema

import WireSchema.Number.Binary64
import WireSchema.Time

/-!
# Literals

The constants of rules and options. Lists and messages (named aggregates) nest; the fields of a
message keep their order, and the first field of a name is the one that counts.
-/

namespace WireSchema

/-- A constant attached to a rule or an option. -/
inductive Literal where
  | bool (value : Bool)
  | int (value : Int)
  | uint (value : Nat)
  | float (value : Binary64)
  | string (text : String)
  | bytes (data : List UInt8)
  | ident (name : String)
  | list (items : List Literal)
  | message (fields : List (String × Literal))

namespace Literal

/-! ## Views -/

def asBool : Literal → Bool
  | bool v => v
  | _ => false

/-- The text of a string or an identifier, else the empty text. -/
def asString : Literal → String
  | string s | ident s => s
  | _ => ""

def asList : Literal → List Literal
  | list items => items
  | _ => []

/-- The first field of a message with this name. -/
def get? (name : String) : Literal → Option Literal
  | message fields => fields.lookup name
  | _ => none

/-- The value of an integer literal of either signedness. -/
def integer? : Literal → Option Int
  | int v => some v
  | uint v => some v
  | _ => none

def isFloat : Literal → Bool
  | float _ => true
  | _ => false

def isNumeric : Literal → Bool
  | int _ | uint _ | float _ => true
  | _ => false

/-! ## Spans and instants -/

/-- The most seconds a signed 64-bit field holds. -/
def maxSeconds : Nat := Nat.pow 2 63 - 1

/-- Largest magnitude, in seconds, of a duration on the wire (about 10,000 years). -/
def durationLimit : Nat := 315576000000

/-- The aggregate of a duration or a timestamp. -/
def secondsNanos (seconds nanos : Int) : Literal :=
  message [("seconds", int seconds), ("nanos", int nanos)]

/-- A span as an aggregate; seconds beyond 64 bits are clamped. -/
def ofSpan (d : Span) : Literal := secondsNanos (min d.seconds maxSeconds : Nat) d.nanos

/-- An instant as an aggregate. Before the epoch the distance is negated, borrowing a second when
it has nanoseconds; its seconds are clamped first. -/
def ofInstant (i : Instant) : Literal :=
  let d := i.distance
  let seconds : Nat := min d.seconds maxSeconds
  if 0 ≤ i.seconds then secondsNanos seconds d.nanos
  else if d.nanos = 0 then secondsNanos (-seconds) 0
  else secondsNanos (-seconds - 1) (1000000000 - d.nanos)

/-- False for an aggregate whose integer seconds no duration can hold. -/
def inDurationRange (v : Literal) : Bool :=
  match (v.get? "seconds").bind integer? with
  | some s => s.natAbs ≤ durationLimit
  | none => true

/-! ## Equality of values -/

mutual
/-- Equality constructor by constructor; numbers that are not a NaN by value, a NaN never. -/
def same : Literal → Literal → Bool
  | bool a, bool b => a == b
  | int a, int b => a == b
  | uint a, uint b => a == b
  | float a, float b => a.compare b == some .eq
  | string a, string b => a == b
  | bytes a, bytes b => a == b
  | ident a, ident b => a == b
  | list a, list b => sameItems a b
  | message a, message b => sameFields a b
  | _, _ => false

def sameItems : List Literal → List Literal → Bool
  | [], [] => true
  | a :: as, b :: bs => same a b && sameItems as bs
  | _, _ => false

def sameFields : List (String × Literal) → List (String × Literal) → Bool
  | [], [] => true
  | (n, a) :: as, (m, b) :: bs => n == m && same a b && sameFields as bs
  | _, _ => false
end

end Literal
end WireSchema

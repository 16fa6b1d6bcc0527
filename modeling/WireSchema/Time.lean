/-!
# Spans and instants

A span is a length of time, an instant a point in time; both count whole seconds and nanoseconds
below a billion. An instant counts from the epoch downwards to the whole second before it, so its
nanoseconds are never negative. Instants reach as far as signed 64-bit seconds do.
-/

namespace WireSchema

/-- A length of time. -/
structure Span where
  seconds : Nat
  nanos : Nat
  nanos_lt : nanos < 1000000000

/-- A point in time: whole seconds since the epoch, rounded down, and the nanoseconds since then. -/
structure Instant where
  seconds : Int
  nanos : Nat
  nanos_lt : nanos < 1000000000

namespace Instant

/-- The instant lies outside the signed 64-bit seconds around the epoch. -/
inductive Overflow where
  | future
  | past
deriving DecidableEq, Repr

def Overflow.message : Overflow → String
  | future => "overflow when adding duration to instant"
  | past => "overflow when subtracting duration from instant"

/-- The instant `d` after the epoch. -/
def after (d : Span) : Except Overflow Instant :=
  if d.seconds < Nat.pow 2 63 then .ok ⟨d.seconds, d.nanos, d.nanos_lt⟩ else .error .future

/-- The instant `d` before the epoch. -/
def before (d : Span) : Except Overflow Instant :=
  let i : Instant :=
    if h : d.nanos = 0 then ⟨-d.seconds, 0, by omega⟩
    else ⟨-d.seconds - 1, 1000000000 - d.nanos, by omega⟩
  if -Nat.pow 2 63 ≤ i.seconds then .ok i else .error .past

/-- Nanoseconds since the epoch. -/
def offset (i : Instant) : Int := i.seconds * 1000000000 + i.nanos

/-- The span between the epoch and the instant. -/
def distance (i : Instant) : Span :=
  if 0 ≤ i.seconds then ⟨i.seconds.toNat, i.nanos, i.nanos_lt⟩
  else if h : i.nanos = 0 then ⟨(-i.seconds).toNat, 0, by omega⟩
  else ⟨(-i.seconds - 1).toNat, 1000000000 - i.nanos, by omega⟩

end Instant
end WireSchema

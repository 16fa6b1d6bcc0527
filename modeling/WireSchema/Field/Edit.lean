import WireSchema.Field.Basic

/-!
# Declaring fields

A field of a leaf type is declared change by change: to its head, to its presence, or to the rules
of its type. A rule that is set again gets the new value, and a switch stays on; listed values,
examples and formats add up.
-/

namespace WireSchema

/-! ## Changes to limits -/

namespace Bounds

/-- Sets one of the bounds. -/
inductive Edit (α : Type) where
  | lt (v : α)
  | lte (v : α)
  | gt (v : α)
  | gte (v : α)

def edit {α : Type} (b : Bounds α) : Edit α → Bounds α
  | .lt v => { b with lt := some v }
  | .lte v => { b with lte := some v }
  | .gt v => { b with gt := some v }
  | .gte v => { b with gte := some v }

end Bounds

namespace Members

inductive Edit (α : Type) where
  | allow (values : List α)
  | deny (values : List α)

def edit {α : Type} (m : Members α) : Edit α → Members α
  | .allow values => m.allow values
  | .deny values => m.deny values

end Members

namespace Samples

inductive Edit (α : Type) where
  | constant (v : α)
  | document (v : α)

def edit {α : Type} (s : Samples α) : Edit α → Samples α
  | .constant v => { s with constant := some v }
  | .document v => { s with examples := s.examples ++ [v] }

end Samples

namespace Size

inductive Edit where
  | min (n : Nat)
  | max (n : Nat)

def edit (s : Size) : Edit → Size
  | .min n => { s with min := some n }
  | .max n => { s with max := some n }

end Size

namespace Length

inductive Edit where
  | size (e : Size.Edit)
  | exact (n : Nat)

def edit (l : Length) : Edit → Length
  | .size e => { l with toSize := l.toSize.edit e }
  | .exact n => { l with exact := some n }

end Length

namespace Affixes

inductive Edit (α : Type) where
  | pattern (text : String)
  | leading (v : α)
  | trailing (v : α)
  | contains (v : α)
  | notContains (v : α)

/-- The affixes after a change, whose pattern is read by the engine. -/
def edit {α : Type} (engine : PatternEngine) (a : Affixes α) : Edit α → Affixes α
  | .pattern text => { a with pattern := some (engine.read text) }
  | .leading v => { a with leading := some v }
  | .trailing v => { a with trailing := some v }
  | .contains v => { a with contains := some v }
  | .notContains v => { a with notContains := some v }

end Affixes

/-! ## Changes to the rules of the leaf types -/

namespace NumberRules

inductive Edit where
  | range (e : Bounds.Edit Literal)
  | members (e : Members.Edit Literal)
  | samples (e : Samples.Edit Literal)
  /-- The value is neither infinite nor NaN. -/
  | finite

def edit (r : NumberRules) : Edit → NumberRules
  | .range e => { r with range := r.range.edit e }
  | .members e => { r with members := r.members.edit e }
  | .samples e => { r with samples := r.samples.edit e }
  | .finite => { r with finite := true }

end NumberRules

namespace StringRules

inductive Edit where
  | length (e : Length.Edit)
  | bytes (e : Length.Edit)
  | members (e : Members.Edit String)
  | affixes (e : Affixes.Edit String)
  | format (f : Format)
  | samples (e : Samples.Edit String)

def edit (engine : PatternEngine) (r : StringRules) : Edit → StringRules
  | .length e => { r with length := r.length.edit e }
  | .bytes e => { r with bytes := r.bytes.edit e }
  | .members e => { r with members := r.members.edit e }
  | .affixes e => { r with affixes := r.affixes.edit engine e }
  | .format f => { r with formats := r.formats ++ [f] }
  | .samples e => { r with samples := r.samples.edit e }

end StringRules

namespace BytesRules

inductive Edit where
  | length (e : Length.Edit)
  | members (e : Members.Edit (List UInt8))
  | affixes (e : Affixes.Edit (List UInt8))
  | format (f : Format)
  | samples (e : Samples.Edit (List UInt8))

def edit (engine : PatternEngine) (r : BytesRules) : Edit → BytesRules
  | .length e => { r with length := r.length.edit e }
  | .members e => { r with members := r.members.edit e }
  | .affixes e => { r with affixes := r.affixes.edit engine e }
  | .format f => { r with formats := r.formats ++ [f] }
  | .samples e => { r with samples := r.samples.edit e }

end BytesRules

namespace EnumRules

inductive Edit where
  /-- The value is a declared number of the enum. -/
  | definedOnly
  | members (e : Members.Edit Int)
  | samples (e : Samples.Edit Int)

def edit (r : EnumRules) : Edit → EnumRules
  | .definedOnly => { r with definedOnly := true }
  | .members e => { r with members := r.members.edit e }
  | .samples e => { r with samples := r.samples.edit e }

end EnumRules

namespace TimestampRules

inductive Edit where
  | range (e : Bounds.Edit Instant)
  | ltNow
  | gtNow
  | within (d : Span)
  | samples (e : Samples.Edit Instant)

def edit (r : TimestampRules) : Edit → TimestampRules
  | .range e => { r with range := r.range.edit e }
  | .ltNow => { r with ltNow := true }
  | .gtNow => { r with gtNow := true }
  | .within d => { r with within := some d }
  | .samples e => { r with samples := r.samples.edit e }

end TimestampRules

namespace DurationRules

inductive Edit where
  | range (e : Bounds.Edit Span)
  | members (e : Members.Edit Span)
  | samples (e : Samples.Edit Span)

def edit (r : DurationRules) : Edit → DurationRules
  | .range e => { r with range := r.range.edit e }
  | .members e => { r with members := r.members.edit e }
  | .samples e => { r with samples := r.samples.edit e }

end DurationRules

/-! ## Drafts -/

/-- A field of a leaf type while it is declared, with the rules of its type. -/
structure Draft (ρ : Type) where
  head : FieldHead
  optional : Bool := false
  rules : ρ

namespace Draft

variable {ρ ε : Type}

/-- A change to a field whose rules are changed by `ε`. -/
inductive Edit (ε : Type) where
  | head (e : FieldHead.Edit)
  | optional
  | rules (e : ε)

def edit (change : ρ → ε → ρ) (d : Draft ρ) : Edit ε → Except InvalidName (Draft ρ)
  | .head e => return { d with head := ← d.head.edit e }
  | .optional => return { d with optional := true }
  | .rules e => return { d with rules := change d.rules e }

/-- A field of this name after all changes. -/
def declare (change : ρ → ε → ρ) (start : ρ) (name : String) (edits : List (Edit ε)) :
    Except InvalidName (Draft ρ) := do
  edits.foldlM (edit change) { head := ← FieldHead.ofName name, rules := start }

/-- The declared field, where `type` makes the rules part of its type. -/
def field (type : ρ → LeafType) (d : Draft ρ) : LeafField := ⟨d.head, d.optional, type d.rules⟩

end Draft
end WireSchema

import Mathlib.Data.List.Induction
import WireSchema.Field.Edit
import WireSchema.Proofs.Outcome

/-!
# Standing rules

Which rules a field has after a sequence of changes, read off the whole sequence: a rule that is
set stands as it was set last (`latest`), a switch is on if it was ever turned on, and lists hold
everything that was added, in order.

* `Bounds.standing` to `DurationRules.standing`: the reading of each kind of rules, which follows
  every single change (`standing_concat`).
* `Draft.follows_declare`: what a declared field says beside its rules.
* `Draft.rules_of_declare`: its rules are those that stand.
-/

namespace WireSchema

/-- What the last of the changes that set something set it to. -/
def latest {ε α : Type} (set? : ε → Option α) (edits : List ε) : Option α :=
  (edits.filterMap set?).getLast?

theorem latest_concat {ε α : Type} (set? : ε → Option α) (edits : List ε) (e : ε) :
    latest set? (edits ++ [e]) = (set? e).or (latest set? edits) := by
  unfold latest
  cases h : set? e <;> simp [List.filterMap_append, h]

/-- A reading of whole sequences that follows each change is where the changes lead. -/
theorem foldl_eq_of_concat {ρ ε : Type} {change : ρ → ε → ρ} {standing : List ε → ρ}
    (hconcat : ∀ edits e, standing (edits ++ [e]) = change (standing edits) e) (edits : List ε) :
    edits.foldl change (standing []) = standing edits := by
  induction edits using List.reverseRecOn with
  | nil => rfl
  | append_singleton edits e ih =>
    rw [List.foldl_append, ih, List.foldl_cons, List.foldl_nil, hconcat]

/-! ## Limits -/

namespace Bounds

variable {α : Type}

def standing (edits : List (Edit α)) : Bounds α where
  lt := latest (fun | .lt v => some v | _ => none) edits
  lte := latest (fun | .lte v => some v | _ => none) edits
  gt := latest (fun | .gt v => some v | _ => none) edits
  gte := latest (fun | .gte v => some v | _ => none) edits

theorem standing_concat (edits : List (Edit α)) (e : Edit α) :
    standing (edits ++ [e]) = (standing edits).edit e := by
  cases e <;> simp [standing, edit, latest_concat]

end Bounds

namespace Members

variable {α : Type}

def standing (edits : List (Edit α)) : Members α where
  allowed := edits.flatMap fun | .allow values => values | _ => []
  denied := edits.flatMap fun | .deny values => values | _ => []

theorem standing_concat (edits : List (Edit α)) (e : Edit α) :
    standing (edits ++ [e]) = (standing edits).edit e := by
  cases e <;> simp [standing, edit, allow, deny]

end Members

namespace Samples

variable {α : Type}

def standing (edits : List (Edit α)) : Samples α where
  constant := latest (fun | .constant v => some v | _ => none) edits
  examples := edits.filterMap fun | .document v => some v | _ => none

theorem standing_concat (edits : List (Edit α)) (e : Edit α) :
    standing (edits ++ [e]) = (standing edits).edit e := by
  cases e <;> simp [standing, edit, latest_concat]

end Samples

namespace Length

def standing (edits : List Edit) : Length where
  min := latest (fun | .size (.min n) => some n | _ => none) edits
  max := latest (fun | .size (.max n) => some n | _ => none) edits
  exact := latest (fun | .exact n => some n | _ => none) edits

theorem standing_concat (edits : List Edit) (e : Edit) :
    standing (edits ++ [e]) = (standing edits).edit e := by
  rcases e with (n | n) | n <;> simp [standing, edit, Size.edit, latest_concat]

end Length

namespace Affixes

variable {α : Type}

def standing (engine : PatternEngine) (edits : List (Edit α)) : Affixes α where
  pattern := (latest (fun | .pattern text => some text | _ => none) edits).map engine.read
  leading := latest (fun | .leading v => some v | _ => none) edits
  trailing := latest (fun | .trailing v => some v | _ => none) edits
  contains := latest (fun | .contains v => some v | _ => none) edits
  notContains := latest (fun | .notContains v => some v | _ => none) edits

theorem standing_concat (engine : PatternEngine) (edits : List (Edit α)) (e : Edit α) :
    standing engine (edits ++ [e]) = (standing engine edits).edit engine e := by
  cases e <;> simp [standing, edit, latest_concat]

/-- The pattern that stands carries what the engine says of its text. -/
theorem refusal?_of_standing {engine : PatternEngine} {edits : List (Edit α)} {p : Pattern}
    (h : (standing engine edits).pattern = some p) : p.refusal? = engine.refusal? p.text := by
  obtain ⟨text, -, rfl⟩ := Option.map_eq_some_iff.1 h
  rfl

end Affixes

/-! ## Rules of the leaf types -/

namespace NumberRules

def standing (edits : List Edit) : NumberRules where
  range := .standing (edits.filterMap fun | .range e => some e | _ => none)
  members := .standing (edits.filterMap fun | .members e => some e | _ => none)
  samples := .standing (edits.filterMap fun | .samples e => some e | _ => none)
  finite := edits.any fun | .finite => true | _ => false

theorem standing_concat (edits : List Edit) (e : Edit) :
    standing (edits ++ [e]) = (standing edits).edit e := by
  cases e <;> simp [standing, edit, List.filterMap_append, Bounds.standing_concat,
    Members.standing_concat, Samples.standing_concat]

end NumberRules

namespace StringRules

def standing (engine : PatternEngine) (edits : List Edit) : StringRules where
  length := .standing (edits.filterMap fun | .length e => some e | _ => none)
  bytes := .standing (edits.filterMap fun | .bytes e => some e | _ => none)
  members := .standing (edits.filterMap fun | .members e => some e | _ => none)
  affixes := .standing engine (edits.filterMap fun | .affixes e => some e | _ => none)
  formats := edits.filterMap fun | .format f => some f | _ => none
  samples := .standing (edits.filterMap fun | .samples e => some e | _ => none)

theorem standing_concat (engine : PatternEngine) (edits : List Edit) (e : Edit) :
    standing engine (edits ++ [e]) = (standing engine edits).edit engine e := by
  cases e <;> simp [standing, edit, List.filterMap_append, Length.standing_concat,
    Members.standing_concat, Affixes.standing_concat, Samples.standing_concat]

end StringRules

namespace BytesRules

def standing (engine : PatternEngine) (edits : List Edit) : BytesRules where
  length := .standing (edits.filterMap fun | .length e => some e | _ => none)
  members := .standing (edits.filterMap fun | .members e => some e | _ => none)
  affixes := .standing engine (edits.filterMap fun | .affixes e => some e | _ => none)
  formats := edits.filterMap fun | .format f => some f | _ => none
  samples := .standing (edits.filterMap fun | .samples e => some e | _ => none)

theorem standing_concat (engine : PatternEngine) (edits : List Edit) (e : Edit) :
    standing engine (edits ++ [e]) = (standing engine edits).edit engine e := by
  cases e <;> simp [standing, edit, List.filterMap_append, Length.standing_concat,
    Members.standing_concat, Affixes.standing_concat, Samples.standing_concat]

end BytesRules

namespace TimestampRules

def standing (edits : List Edit) : TimestampRules where
  range := .standing (edits.filterMap fun | .range e => some e | _ => none)
  ltNow := edits.any fun | .ltNow => true | _ => false
  gtNow := edits.any fun | .gtNow => true | _ => false
  within := latest (fun | .within d => some d | _ => none) edits
  samples := .standing (edits.filterMap fun | .samples e => some e | _ => none)

theorem standing_concat (edits : List Edit) (e : Edit) :
    standing (edits ++ [e]) = (standing edits).edit e := by
  cases e <;> simp [standing, edit, List.filterMap_append, latest_concat, Bounds.standing_concat,
    Samples.standing_concat]

end TimestampRules

namespace DurationRules

def standing (edits : List Edit) : DurationRules where
  range := .standing (edits.filterMap fun | .range e => some e | _ => none)
  members := .standing (edits.filterMap fun | .members e => some e | _ => none)
  samples := .standing (edits.filterMap fun | .samples e => some e | _ => none)

theorem standing_concat (edits : List Edit) (e : Edit) :
    standing (edits ++ [e]) = (standing edits).edit e := by
  cases e <;> simp [standing, edit, List.filterMap_append, Bounds.standing_concat,
    Members.standing_concat, Samples.standing_concat]

end DurationRules

/-! ## Drafts -/

namespace Draft

variable {ρ ε : Type}

/-- The changes to the rules, in order. -/
def ruleEdits (edits : List (Edit ε)) : List ε :=
  edits.filterMap fun | .rules e => some e | _ => none

/-- The changes say nothing about the values of the field but by the rules of its type: they make
it neither optional nor required, and they add no constraint. -/
structure Bare (edits : List (Edit ε)) : Prop where
  optional : .optional ∉ edits
  required : .head .required ∉ edits
  constraints : ∀ c, .head (.constraint c) ∉ edits

/-- What the changes make of a draft. -/
structure Follows (change : ρ → ε → ρ) (d : Draft ρ) (edits : List (Edit ε)) (d' : Draft ρ) :
    Prop where
  rules : d'.rules = (ruleEdits edits).foldl change d.rules
  optional : d'.optional = true ↔ d.optional = true ∨ .optional ∈ edits
  required : d'.head.required = true ↔ d.head.required = true ∨ .head .required ∈ edits
  constraints : ∀ c, c ∈ d'.head.constraints ↔
    c ∈ d.head.constraints ∨ .head (.constraint c) ∈ edits

variable {change : ρ → ε → ρ}

theorem follows_edit {d d' : Draft ρ} {e : Edit ε} (h : d.edit change e = .ok d') :
    Follows change d [e] d' := by
  cases e with
  | optional => cases h; constructor <;> simp [ruleEdits]
  | rules e => cases h; constructor <;> simp [ruleEdits]
  | head e =>
    cases e with
    | required => cases h; constructor <;> simp [ruleEdits]
    | optionImport path => cases h; constructor <;> simp [ruleEdits]
    | constraint c => cases h; constructor <;> simp [ruleEdits]
    | option e =>
      obtain ⟨_, hhead, h⟩ := exists_of_bind_ok h
      obtain ⟨_, -, hhead⟩ := exists_of_bind_ok hhead
      cases hhead
      cases h
      constructor <;> simp [ruleEdits]

theorem Follows.trans {d e f : Draft ρ} {edits more : List (Edit ε)}
    (h : Follows change d edits e) (h' : Follows change e more f) :
    Follows change d (edits ++ more) f where
  rules := by rw [h'.rules, h.rules, ← List.foldl_append, ruleEdits, ruleEdits, ruleEdits,
    ← List.filterMap_append]
  optional := by rw [h'.optional, h.optional, List.mem_append, or_assoc]
  required := by rw [h'.required, h.required, List.mem_append, or_assoc]
  constraints c := by rw [h'.constraints, h.constraints, List.mem_append, or_assoc]

/-- Changes one after another, each to what the earlier ones made of the draft. -/
theorem follows_foldlM {edits : List (Edit ε)} {d d' : Draft ρ}
    (h : edits.foldlM (edit change) d = .ok d') : Follows change d edits d' :=
  foldlM_induction (fun _ _ _ _ hdone hedit => hdone.trans (follows_edit hedit))
    (by constructor <;> simp [ruleEdits]) h

/-- A declared field follows its changes from a field that has just a name. -/
theorem follows_declare {start : ρ} {name : String} {edits : List (Edit ε)} {d : Draft ρ}
    (h : declare change start name edits = .ok d) :
    Follows change ⟨{ name }, false, start⟩ edits d := by
  obtain ⟨head, hhead, h⟩ := exists_of_bind_ok h
  obtain ⟨_, -, hhead⟩ := exists_of_bind_ok hhead
  cases hhead
  exact follows_foldlM h

/-- A declared field has the rules that stand after the changes to them. -/
theorem rules_of_declare {standing : List ε → ρ} {name : String} {edits : List (Edit ε)}
    {d : Draft ρ} (hconcat : ∀ edits e, standing (edits ++ [e]) = change (standing edits) e)
    (h : declare change (standing []) name edits = .ok d) : d.rules = standing (ruleEdits edits) :=
  (follows_declare h).rules.trans (foldl_eq_of_concat hconcat _)

section Declared

variable {start : ρ} {name : String} {edits : List (Edit ε)} {d : Draft ρ}

theorem optional_iff (h : declare change start name edits = .ok d) :
    d.optional = true ↔ .optional ∈ edits := by
  simpa using (follows_declare h).optional

theorem required_iff (h : declare change start name edits = .ok d) :
    d.head.required = true ↔ .head .required ∈ edits := by
  simpa using (follows_declare h).required

theorem constraints_eq_nil_iff (h : declare change start name edits = .ok d) :
    d.head.constraints = [] ↔ ∀ c, .head (.constraint c) ∉ edits := by
  simp [List.eq_nil_iff_forall_not_mem, (follows_declare h).constraints]

theorem bare_iff (h : declare change start name edits = .ok d) : Bare edits ↔
    d.optional = false ∧ d.head.required = false ∧ d.head.constraints = [] := by
  rw [← Bool.not_eq_true, ← Bool.not_eq_true, optional_iff h, required_iff h,
    constraints_eq_nil_iff h]
  exact ⟨fun h => ⟨h.optional, h.required, h.constraints⟩, fun h => ⟨h.1, h.2.1, h.2.2⟩⟩

end Declared

end Draft
end WireSchema

import WireSchema.Proofs.LiteralOrder
import WireSchema.Proofs.RuleChecks

/-!
# Rules of texts

Strings and byte strings are checked alike: lengths, lists, the pattern and the formats one after
another, and whatever stands beside a constant at the end. `TextRules` is what both have in common.

* `TextRules.Breaks`: each way in which such rules can be inconsistent, with what is reported then.
  `TextRules.consistent_iff`: consistent rules are those that nothing breaks.
* `TextRules.Decides`: what the rules say about the outcome of a field.
  `TextRules.decides_of_declare` shows it for any type whose rules are those of a text; strings and
  byte strings are two of them.
-/

namespace WireSchema

/-! ## Comparing texts -/

namespace Literal

theorem agrees_string {s t : String} : (string s).agrees (string t) = true ↔ s = t := by
  simp [agrees, same, compare]

theorem agrees_bytes {a b : List UInt8} : (bytes a).agrees (bytes b) = true ↔ a = b := by
  simp [agrees, same, compare, compareBytes_iff_compares]

end Literal

/-! ## What the checks find -/

theorem Length.mem_violations_iff {names : LengthNames} {l : Length} {v : Violation} :
    v ∈ l.violations names ↔
      (l.exact ≠ none ∧ l.min ≠ none ∧ v = .conflictingRules names.min names.exact) ∨
      (l.exact ≠ none ∧ l.max ≠ none ∧ v = .conflictingRules names.max names.exact) ∨
      ∃ lo hi, l.min = some lo ∧ l.max = some hi ∧ hi < lo ∧
        v = .minExceedsMax names.min (toString lo) names.max (toString hi) := by
  obtain ⟨⟨min, max⟩, exact⟩ := l
  cases min <;> cases max <;> cases exact <;> simp [violations, Size.violations]

theorem Members.mem_violations_map_iff {α : Type} [DecidableEq α] {literal : α → Literal}
    (hagrees : ∀ a b, (literal a).agrees (literal b) = true ↔ a = b) {m : Members α}
    {v : Violation} : v ∈ (m.map literal).violations ↔ (∃ a ∈ m.allowed, a ∈ m.denied) ∧
      v = .overlappingMembership (", ".intercalate
        ((m.allowed.filter (· ∈ m.denied)).map fun a => (literal a).describe)) := by
  have hshared : (m.map literal).shared = (m.allowed.filter (· ∈ m.denied)).map literal := by
    simp only [shared, map, List.filter_map, List.any_map]
    congr 1
    refine List.filter_congr fun a _ => ?_
    rw [Bool.eq_iff_iff]
    simp [hagrees]
  have hempty : (m.allowed.filter (· ∈ m.denied)).map literal = [] ↔
      ¬ ∃ a ∈ m.allowed, a ∈ m.denied := by
    simp
  simp only [violations, hshared, List.isEmpty_iff, hempty, List.map_map]
  by_cases h : ∃ a ∈ m.allowed, a ∈ m.denied <;> simp [h, Function.comp_def]

theorem Affixes.mem_violations_iff {α : Type} {a : Affixes α} {v : Violation} :
    v ∈ a.violations ↔
      ∃ p reason, a.pattern = some p ∧ p.refusal? = some reason ∧
        v = .invalidPattern p.text reason := by
  unfold violations
  cases a.pattern with
  | none => simp
  | some p => simp [Option.mem_toList, eq_comm]

theorem Format.length_eraseDups {formats : List Format} :
    1 < formats.eraseDups.length ↔ ∃ f ∈ formats, ∃ g ∈ formats, f ≠ g := by
  cases formats with
  | nil => simp
  | cons f rest =>
    have hsecond : 1 < (f :: rest).eraseDups.length ↔ rest.filter (fun g => !g == f) ≠ [] := by
      rw [List.eraseDups_cons, List.length_cons]
      cases rest.filter (fun g => !g == f) with
      | nil => simp
      | cons g gs => simp [List.eraseDups_cons]
    rw [hsecond]
    constructor
    · intro h
      obtain ⟨g, hg⟩ := List.exists_mem_of_ne_nil _ h
      obtain ⟨hmem, hne⟩ := List.mem_filter.1 hg
      exact ⟨f, .head _, g, .tail _ hmem, fun heq => by simp [heq] at hne⟩
    · rintro ⟨a, ha, b, hb, hne⟩ hnil
      have heq : ∀ g ∈ f :: rest, g = f := by simpa using List.filter_eq_nil_iff.1 hnil
      exact hne ((heq a ha).trans (heq b hb).symm)

theorem Format.mem_violations_iff {formats : List Format} {v : Violation} :
    v ∈ Format.violations formats ↔ (∃ f ∈ formats, ∃ g ∈ formats, f ≠ g) ∧
      v = .multipleFormats (", ".intercalate (formats.eraseDups.map name)) := by
  rw [← length_eraseDups, violations]
  by_cases h : 1 < formats.eraseDups.length <;> simp [h]

/-! ## Texts -/

/-- The rules that strings and byte strings have in common, with a length for each unit in which the
value is measured. -/
structure TextRules (α : Type) where
  lengths : List (LengthNames × Length)
  members : Members α
  affixes : Affixes α
  formats : List Format
  samples : Samples α

/-- A string is measured in characters and in bytes. -/
def StringRules.text (r : StringRules) : TextRules String :=
  ⟨[(Length.units, r.length), (Length.bytes, r.bytes)], r.members, r.affixes, r.formats, r.samples⟩

def BytesRules.text (r : BytesRules) : TextRules (List UInt8) :=
  ⟨[(Length.units, r.length)], r.members, r.affixes, r.formats, r.samples⟩

namespace TextRules

variable {α ρ ε : Type}

/-- There is no rule and no example. -/
structure Plain (t : TextRules α) : Prop where
  lengths : ∀ x ∈ t.lengths, x.2 = {}
  members : t.members = {}
  affixes : t.affixes = {}
  formats : t.formats = []
  examples : t.samples.examples = []

/-- Rules of a text that agree with each other. The engine decides about the pattern, and `bare` is
whether nothing else is said about the field. -/
structure Consistent (engine : PatternEngine) (bare : Prop) (t : TextRules α) : Prop where
  exact : ∀ x ∈ t.lengths, x.2.exact ≠ none → x.2.min = none ∧ x.2.max = none
  ordered : ∀ x ∈ t.lengths, ∀ low high, x.2.min = some low → x.2.max = some high → low ≤ high
  members : ∀ a ∈ t.members.allowed, a ∉ t.members.denied
  pattern : ∀ p, t.affixes.pattern = some p → engine.refusal? p.text = none
  formats : ∀ f ∈ t.formats, ∀ g ∈ t.formats, f = g
  alone : t.samples.constant ≠ none → t.Plain ∧ bare

/-! ### The checks -/

def violations (literal : α → Literal) (t : TextRules α) : List Violation :=
  t.lengths.flatMap (fun x => x.2.violations x.1)
    ++ (t.members.map literal).violations
    ++ t.affixes.violations
    ++ Format.violations t.formats

def rules (group : String) (literal : α → Literal) (t : TextRules α) : List Rule :=
  t.lengths.flatMap (fun x => x.2.rules group x.1)
    ++ (t.affixes.map literal).rules group
    ++ (t.members.map literal).rules group
    ++ Format.rules group t.formats

theorem plain_iff (group : String) (literal : α → Literal) {t : TextRules α} :
    t.Plain ↔ t.rules group literal = [] ∧ t.samples.examples = [] := by
  simp only [rules, List.append_eq_nil_iff, List.flatMap_eq_nil_iff, Length.rules_eq_nil_iff,
    Affixes.rules_eq_nil_iff, Affixes.map_eq_empty_iff, Members.rules_eq_nil_iff,
    Members.map_eq_empty_iff, Format.rules_eq_nil_iff]
  constructor
  · exact fun h => ⟨⟨⟨⟨h.lengths, h.affixes⟩, h.members⟩, h.formats⟩, h.examples⟩
  · rintro ⟨⟨⟨⟨hlengths, haffixes⟩, hmembers⟩, hformats⟩, hexamples⟩
    exact ⟨hlengths, hmembers, haffixes, hformats, hexamples⟩

/-! ### Broken conditions -/

variable [DecidableEq α]

/-- A condition on the rules of a declared text that does not hold, and the violation that says so.
`others` are all rules of the field but its constant. -/
inductive Breaks (engine : PatternEngine) (literal : α → Literal)
    (edits : List (Draft.Edit ε)) (others : List Rule) (t : TextRules α) : Violation → Prop
  | exactMin {names : LengthNames} {l : Length} (hl : (names, l) ∈ t.lengths)
      (hexact : l.exact ≠ none) (hmin : l.min ≠ none) :
      Breaks engine literal edits others t (.conflictingRules names.min names.exact)
  | exactMax {names : LengthNames} {l : Length} (hl : (names, l) ∈ t.lengths)
      (hexact : l.exact ≠ none) (hmax : l.max ≠ none) :
      Breaks engine literal edits others t (.conflictingRules names.max names.exact)
  | minExceedsMax {names : LengthNames} {l : Length} {low high : Nat}
      (hl : (names, l) ∈ t.lengths) (hmin : l.min = some low) (hmax : l.max = some high)
      (hlt : high < low) : Breaks engine literal edits others t
        (.minExceedsMax names.min (toString low) names.max (toString high))
  | shared {a : α} (hallowed : a ∈ t.members.allowed) (hdenied : a ∈ t.members.denied) :
      Breaks engine literal edits others t (.overlappingMembership (", ".intercalate
        ((t.members.allowed.filter (· ∈ t.members.denied)).map fun a => (literal a).describe)))
  | pattern {p : Pattern} {reason : String} (hp : t.affixes.pattern = some p)
      (hrefused : engine.refusal? p.text = some reason) :
      Breaks engine literal edits others t (.invalidPattern p.text reason)
  | formats {f g : Format} (hf : f ∈ t.formats) (hg : g ∈ t.formats) (hne : f ≠ g) :
      Breaks engine literal edits others t
        (.multipleFormats (", ".intercalate (t.formats.eraseDups.map Format.name)))
  | constWithRules (hconst : t.samples.constant ≠ none)
      (hbeside : ¬ t.Plain ∨ .head .required ∈ edits ∨ ∃ c, .head (.constraint c) ∈ edits) :
      Breaks engine literal edits others t (.constWithRules (Rule.names others))
  | constOptional (hconst : t.samples.constant ≠ none) (hoptional : .optional ∈ edits) :
      Breaks engine literal edits others t .constOptional

theorem consistent_iff (engine : PatternEngine) (literal : α → Literal) (others : List Rule)
    {edits : List (Draft.Edit ε)} {t : TextRules α} :
    t.Consistent engine (Draft.Bare edits) ↔ ∀ v, ¬ t.Breaks engine literal edits others v := by
  constructor
  · intro h v hv
    cases hv with
    | exactMin hl hexact hmin => exact hmin (h.exact _ hl hexact).1
    | exactMax hl hexact hmax => exact hmax (h.exact _ hl hexact).2
    | minExceedsMax hl hmin hmax hlt => exact absurd (h.ordered _ hl _ _ hmin hmax) (by omega)
    | shared hallowed hdenied => exact h.members _ hallowed hdenied
    | pattern hp hrefused => rw [h.pattern _ hp] at hrefused; cases hrefused
    | formats hf hg hne => exact hne (h.formats _ hf _ hg)
    | constWithRules hconst hbeside =>
      obtain ⟨hplain, hbare⟩ := h.alone hconst
      obtain hne | hrequired | ⟨c, hc⟩ := hbeside
      · exact hne hplain
      · exact hbare.required hrequired
      · exact hbare.constraints c hc
    | constOptional hconst hoptional => exact (h.alone hconst).2.optional hoptional
  · intro h
    refine ⟨fun x hx hexact => ⟨?_, ?_⟩, fun x hx low high hmin hmax => ?_, fun a ha hd => ?_,
      fun p hp => ?_, fun f hf g hg => ?_, fun hconst => ⟨?_, ?_, ?_, ?_⟩⟩
    · by_contra hmin
      exact h _ (.exactMin hx hexact hmin)
    · by_contra hmax
      exact h _ (.exactMax hx hexact hmax)
    · by_contra hlt
      exact h _ (.minExceedsMax hx hmin hmax (by omega))
    · exact h _ (.shared ha hd)
    · cases hrefusal : engine.refusal? p.text with
      | none => rfl
      | some reason => exact absurd (.pattern hp hrefusal) (h _)
    · by_contra hne
      exact h _ (.formats hf hg hne)
    · by_contra hne
      exact h _ (.constWithRules hconst (.inl hne))
    · exact fun hoptional => h _ (.constOptional hconst hoptional)
    · exact fun hrequired => h _ (.constWithRules hconst (.inr (.inl hrequired)))
    · exact fun c hc => h _ (.constWithRules hconst (.inr (.inr ⟨c, hc⟩)))

theorem breaks_iff {engine : PatternEngine} {literal : α → Literal}
    (hagrees : ∀ a b, (literal a).agrees (literal b) = true ↔ a = b)
    {edits : List (Draft.Edit ε)} {others : List Rule} {t : TextRules α}
    (hread : ∀ p, t.affixes.pattern = some p → p.refusal? = engine.refusal? p.text)
    {v : Violation} : t.Breaks engine literal edits others v ↔
      v ∈ t.violations literal ∨ t.samples.constant ≠ none ∧ ((¬ t.Plain ∨ .head .required ∈ edits ∨ ∃ c, .head (.constraint c) ∈ edits) ∧
          v = .constWithRules (Rule.names others) ∨
        .optional ∈ edits ∧ v = .constOptional) := by
  rw [violations, List.mem_append, List.mem_append, List.mem_append, List.mem_flatMap,
    Members.mem_violations_map_iff hagrees, Affixes.mem_violations_iff, Format.mem_violations_iff]
  simp only [Length.mem_violations_iff]
  constructor
  · intro h
    cases h with
    | exactMin hl hexact hmin => exact .inl (.inl (.inl (.inl ⟨_, hl, .inl ⟨hexact, hmin, rfl⟩⟩)))
    | exactMax hl hexact hmax =>
      exact .inl (.inl (.inl (.inl ⟨_, hl, .inr (.inl ⟨hexact, hmax, rfl⟩)⟩)))
    | minExceedsMax hl hmin hmax hlt =>
      exact .inl (.inl (.inl (.inl ⟨_, hl, .inr (.inr ⟨_, _, hmin, hmax, hlt, rfl⟩)⟩)))
    | shared hallowed hdenied => exact .inl (.inl (.inl (.inr ⟨⟨_, hallowed, hdenied⟩, rfl⟩)))
    | pattern hp hrefused =>
      exact .inl (.inl (.inr ⟨_, _, hp, (hread _ hp).trans hrefused, rfl⟩))
    | formats hf hg hne => exact .inl (.inr ⟨⟨_, hf, _, hg, hne⟩, rfl⟩)
    | constWithRules hconst hbeside => exact .inr ⟨hconst, .inl ⟨hbeside, rfl⟩⟩
    | constOptional hconst hoptional => exact .inr ⟨hconst, .inr ⟨hoptional, rfl⟩⟩
  · rintro ((((⟨x, hx, h⟩ | h) | h) | h) | ⟨hconst, h⟩)
    · obtain ⟨hexact, hmin, rfl⟩ | ⟨hexact, hmax, rfl⟩ | ⟨low, high, hmin, hmax, hlt, rfl⟩ := h
      · exact .exactMin hx hexact hmin
      · exact .exactMax hx hexact hmax
      · exact .minExceedsMax hx hmin hmax hlt
    · obtain ⟨⟨a, hallowed, hdenied⟩, rfl⟩ := h
      exact .shared hallowed hdenied
    · obtain ⟨p, reason, hp, hrefused, rfl⟩ := h
      exact .pattern hp ((hread p hp).symm.trans hrefused)
    · obtain ⟨⟨f, hf, g, hg, hne⟩, rfl⟩ := h
      exact .formats hf hg hne
    · obtain ⟨hbeside, rfl⟩ | ⟨hoptional, rfl⟩ := h
      · exact .constWithRules hconst hbeside
      · exact .constOptional hconst hoptional

/-! ### Declared texts -/

/-- What the rules of a text say about the outcome of building its field: it succeeds just when they
are consistent, and else reports each condition that does not hold, and nothing more. -/
structure Decides (engine : PatternEngine) (literal : α → Literal) (edits : List (Draft.Edit ε))
    (others : List Rule) (t : TextRules α) (outcome : Built FieldDescriptor) : Prop where
  builds : (∃ g, outcome.result = .ok g) ↔ t.Consistent engine (Draft.Bare edits)
  reports : ∀ f, f ∈ outcome.report ↔ f.path = [] ∧ t.Breaks engine literal edits others f.violation

variable {s : Scope} {n : Nat}

theorem decides_of_declare {change : ρ → ε → ρ} {start : ρ} {name : String}
    {edits : List (Draft.Edit ε)} {d : Draft ρ} {type : ρ → LeafType} {kind : WireKind}
    {group : String} {engine : PatternEngine} {literal : α → Literal} {t : TextRules α}
    (h : Draft.declare change start name edits = .ok d)
    (hkind : (type d.rules).wireKind s = .ok kind) (hgroup : (type d.rules).group? = some group)
    (hviolations : (type d.rules).violations = t.violations literal)
    (hrules : (type d.rules).rules = t.rules group literal)
    (hsamples : (type d.rules).samples = t.samples.map literal)
    (hread : ∀ p, t.affixes.pattern = some p → p.refusal? = engine.refusal? p.text)
    (hagrees : ∀ a b, (literal a).agrees (literal b) = true ↔ a = b) :
    t.Decides engine literal edits (d.otherRules type) ((d.field type).build s n) := by
  have hconstant : (type d.rules).samples.constant.isSome = true ↔ t.samples.constant ≠ none := by
    rw [hsamples, Option.isSome_iff_ne_none]
    simp [Samples.map]
  have hplain : (type d.rules).rules = [] ∧ (type d.rules).samples.examples = [] ↔ t.Plain := by
    rw [hrules, hsamples, plain_iff group literal]
    simp [Samples.map]
  have hbeside : d.otherRules type ≠ [] ↔
      ¬ t.Plain ∨ .head .required ∈ edits ∨ ∃ c, .head (.constraint c) ∈ edits := by
    rw [ne_eq, Draft.otherRules_eq_nil_iff hgroup, hplain, ← Bool.not_eq_true,
      Draft.required_iff h, Draft.constraints_eq_nil_iff h]
    simp only [not_and_or, not_forall, not_not]
  have hreports : ∀ f, f ∈ ((d.field type).build s n).report ↔
      f.path = [] ∧ t.Breaks engine literal edits (d.otherRules type) f.violation := by
    intro f
    rw [Draft.mem_report_build hkind hgroup, breaks_iff hagrees hread, hviolations, hconstant,
      hbeside, Draft.optional_iff h]
  refine ⟨?_, hreports⟩
  simp only [Built.result_eq_ok_iff]
  rw [← Built.report_eq_nil_iff, consistent_iff engine literal (d.otherRules type),
    List.eq_nil_iff_forall_not_mem]
  constructor
  · exact fun hnil v hv => hnil ⟨[], v⟩ ((hreports _).2 ⟨rfl, hv⟩)
  · exact fun hnone f hf => hnone _ ((hreports f).1 hf).2

/-- **String and bytes fields accept exactly the consistent rules.** A string field, declared by any
sequence of changes, builds in any context just when the rules that stand after them are consistent;
if it does not, each condition that is broken is reported, whatever the others are. The same holds
of a bytes field. Both hold whatever the engine for patterns accepts. -/
theorem text_decides (engine : PatternEngine) (s : Scope) (n : Nat) (name : String) :
    (∀ (edits : List (Draft.Edit StringRules.Edit)) (d : Draft StringRules),
      Draft.declare (StringRules.edit engine) {} name edits = .ok d →
        (StringRules.standing engine (Draft.ruleEdits edits)).text.Decides engine Literal.string
          edits (d.otherRules .string) ((d.field .string).build s n)) ∧
    (∀ (edits : List (Draft.Edit BytesRules.Edit)) (d : Draft BytesRules),
      Draft.declare (BytesRules.edit engine) {} name edits = .ok d →
        (BytesRules.standing engine (Draft.ruleEdits edits)).text.Decides engine Literal.bytes
          edits (d.otherRules .bytes) ((d.field .bytes).build s n)) := by
  refine ⟨fun edits d h => ?_, fun edits d h => ?_⟩
  · have hrules : d.rules = .standing engine (Draft.ruleEdits edits) :=
      Draft.rules_of_declare (StringRules.standing_concat engine) h
    have hread : ∀ p, d.rules.affixes.pattern = some p → p.refusal? = engine.refusal? p.text := by
      rw [hrules]
      exact fun p => Affixes.refusal?_of_standing
    rw [← hrules]
    refine decides_of_declare h rfl rfl ?_ ?_ rfl hread fun a b => Literal.agrees_string
    · simp [LeafType.violations, StringRules.violations, violations, StringRules.text]
    · simp [LeafType.rules, StringRules.rules, rules, StringRules.text]
  · have hrules : d.rules = .standing engine (Draft.ruleEdits edits) :=
      Draft.rules_of_declare (BytesRules.standing_concat engine) h
    have hread : ∀ p, d.rules.affixes.pattern = some p → p.refusal? = engine.refusal? p.text := by
      rw [hrules]
      exact fun p => Affixes.refusal?_of_standing
    rw [← hrules]
    refine decides_of_declare h rfl rfl ?_ ?_ rfl hread fun a b => Literal.agrees_bytes
    · simp [LeafType.violations, BytesRules.violations, violations, BytesRules.text]
    · simp [LeafType.rules, BytesRules.rules, rules, BytesRules.text]

/-- A code of exactly four characters, at least two and at most one, with a pattern that the engine
refuses, in two formats and optional although it is constant: seven findings. An address with a
pattern that the engine accepts and one format named twice builds. -/
theorem text_decides_code :
    let unclosed := "regex parse error:\n    (ab\n    ^\nerror: unclosed group"
    let engine : PatternEngine := ⟨fun text => if text = "(ab" then some unclosed else none⟩
    let scope : Scope := ⟨(Registry.ofFiles []).1, "a.proto", "buf/validate/validate.proto", []⟩
    let code : List (Draft.Edit StringRules.Edit) := [
      .rules (.length (.exact 4)), .rules (.length (.size (.min 2))), .optional,
      .rules (.affixes (.pattern "^[a-z]+$")), .rules (.length (.size (.max 1))),
      .rules (.affixes (.pattern "(ab")), .rules (.format .uuid), .rules (.format .email),
      .rules (.samples (.constant "abcd"))]
    let address : List (Draft.Edit BytesRules.Edit) := [
      .rules (.affixes (.pattern "(ab")), .rules (.format .ip),
      .rules (.length (.size (.max 16))), .rules (.affixes (.pattern "^[a-z]+$")),
      .head .required, .rules (.format .ip)]
    ∃ d e, Draft.declare (StringRules.edit engine) {} "field" code = .ok d ∧
      (∀ v ∈ [Violation.conflictingRules "min_len" "len", .conflictingRules "max_len" "len",
          .minExceedsMax "min_len" "2" "max_len" "1", .invalidPattern "(ab" unclosed,
          .multipleFormats "uuid, email", .constWithRules (Rule.names (d.otherRules .string)),
          .constOptional],
        ⟨[], v⟩ ∈ ((d.field .string).build scope 1).report) ∧
      Draft.declare (BytesRules.edit engine) {} "field" address = .ok e ∧
      ∃ g, ((e.field .bytes).build scope 1).result = .ok g := by
  intro unclosed engine scope code address
  obtain ⟨d, hd⟩ : ∃ d, Draft.declare (StringRules.edit engine) {} "field" code = .ok d :=
    exists_ok_of_isSome (by decide)
  obtain ⟨e, he⟩ : ∃ e, Draft.declare (BytesRules.edit engine) {} "field" address = .ok e :=
    exists_ok_of_isSome (by decide)
  obtain ⟨hstring, hbytes⟩ := text_decides engine scope 1 "field"
  have hcode := (hstring code d hd).reports
  have haddress := (hbytes address e he).builds
  refine ⟨d, e, hd, ?_, he, haddress.2 ?_⟩
  · have hlength : (Length.units, ⟨⟨some 2, some 1⟩, some 4⟩) ∈
        (StringRules.standing engine (Draft.ruleEdits code)).text.lengths := .head _
    have hconst :
        (StringRules.standing engine (Draft.ruleEdits code)).text.samples.constant ≠ none :=
      Option.some_ne_none "abcd"
    have hpattern : (StringRules.standing engine (Draft.ruleEdits code)).text.affixes.pattern =
        some (engine.read "(ab") := rfl
    have hrefused : engine.refusal? "(ab" = some unclosed := rfl
    intro v hv
    refine (hcode ⟨[], v⟩).2 ⟨rfl, ?_⟩
    simp only [List.mem_cons, List.not_mem_nil, or_false] at hv
    rcases hv with rfl | rfl | rfl | rfl | rfl | rfl | rfl
    · exact .exactMin hlength (Option.some_ne_none 4) (Option.some_ne_none 2)
    · exact .exactMax hlength (Option.some_ne_none 4) (Option.some_ne_none 1)
    · exact .minExceedsMax hlength rfl rfl (by decide)
    · exact .pattern hpattern hrefused
    · exact .formats (.head _) (.tail _ (.head _)) (by decide)
    · exact .constWithRules hconst (.inl fun h => absurd h.formats (List.cons_ne_nil _ _))
    · exact .constOptional hconst (by simp [code])
  · have hstanding : (BytesRules.standing engine (Draft.ruleEdits address)).text =
        ⟨[(Length.units, { max := some 16 })], {},
          { pattern := some (engine.read "^[a-z]+$") }, [.ip, .ip], {}⟩ := rfl
    have haccepted : engine.refusal? "^[a-z]+$" = none := rfl
    rw [hstanding]
    constructor <;> simp [PatternEngine.read, haccepted]

end TextRules
end WireSchema

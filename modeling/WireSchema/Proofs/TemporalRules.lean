import WireSchema.Proofs.RuleChecks

/-!
# Rules of durations and timestamps

Spans and instants are compared as aggregates of seconds and nanoseconds, with clamped seconds and,
before the epoch, with a second borrowed for the nanoseconds. Such aggregates compare like the
nanoseconds that they stand for (`Literal.compare_secondsNanos`), and clamping does not show:

* a span whose seconds are clamped is out of the range of durations and is reported for that, and
  all others are exact (`Literal.ofSpan_eq`);
* an instant is exact if it is less than `2 ^ 63` seconds away from the epoch
  (`Literal.ofInstant_eq`).
-/

namespace WireSchema

/-- Nanoseconds of the span. -/
def Span.nanoseconds (d : Span) : Nat := d.seconds * 1000000000 + d.nanos

/-- The instant is less than `2 ^ 63` seconds away from the epoch. -/
def Instant.Near (i : Instant) : Prop := i.distance.seconds < Nat.pow 2 63

instance (i : Instant) : Decidable i.Near := Nat.decLt _ _

/-! ## Aggregates of seconds and nanoseconds -/

namespace Literal

/-- Aggregates are ordered like the nanoseconds that they stand for. -/
theorem compare_secondsNanos {s n s' n' : Int} (hn : 0 ≤ n ∧ n < 1000000000)
    (hn' : 0 ≤ n' ∧ n' < 1000000000) :
    (secondsNanos s n).compare (secondsNanos s' n') =
      some (Ord.compare (s * 1000000000 + n) (s' * 1000000000 + n')) := by
  have hmoments : (secondsNanos s n).compare (secondsNanos s' n') =
      some (compareMoments (s, n) (s', n')) := rfl
  rw [hmoments, compareMoments, Option.some.injEq]
  -- Less than a billion nanoseconds never make up for a second.
  rcases Int.lt_trichotomy s s' with hlt | rfl | hlt
  · have htotal : Ord.compare (s * 1000000000 + n) (s' * 1000000000 + n') = .lt :=
      Int.compare_eq_lt.2 (by omega)
    rw [htotal, Int.compare_eq_lt.2 hlt, Ordering.lt_then]
  · rw [Int.compare_eq_eq.2 rfl, Ordering.eq_then]
    rcases Int.lt_trichotomy n n' with hlt | rfl | hlt
    · rw [Int.compare_eq_lt.2 hlt, Int.compare_eq_lt.2 (by omega)]
    · rw [Int.compare_eq_eq.2 rfl, Int.compare_eq_eq.2 rfl]
    · rw [Int.compare_eq_gt.2 hlt, Int.compare_eq_gt.2 (by omega)]
  · have htotal : Ord.compare (s * 1000000000 + n) (s' * 1000000000 + n') = .gt :=
      Int.compare_eq_gt.2 (by omega)
    rw [htotal, Int.compare_eq_gt.2 hlt, Ordering.gt_then]

theorem agrees_secondsNanos {s n s' n' : Int} :
    (secondsNanos s n).agrees (secondsNanos s' n') = true ↔ s = s' ∧ n = n' := by
  have hmoments : (secondsNanos s n).compare (secondsNanos s' n') =
      some (compareMoments (s, n) (s', n')) := rfl
  have hsame : (secondsNanos s n).same (secondsNanos s' n') = true ↔ s = s' ∧ n = n' := by
    simp [secondsNanos, same, sameFields]
  rw [agrees, Bool.or_eq_true, hsame, hmoments]
  simp [compareMoments, Ordering.then_eq_eq]

theorem isNaN_secondsNanos (s n : Int) : Bounds.isNaN (secondsNanos s n) = false := rfl

theorem ofSpan_eq {d : Span} (h : d.seconds ≤ maxSeconds) :
    ofSpan d = secondsNanos d.seconds d.nanos := by
  rw [ofSpan, Nat.min_eq_left h]

theorem compare_ofSpan {a b : Span} (ha : a.seconds ≤ maxSeconds) (hb : b.seconds ≤ maxSeconds) :
    (ofSpan a).compare (ofSpan b) =
      some (Ord.compare (a.nanoseconds : Int) (b.nanoseconds : Int)) := by
  have hbelow := a.nanos_lt
  have hbelow' := b.nanos_lt
  rw [ofSpan_eq ha, ofSpan_eq hb, compare_secondsNanos (by omega) (by omega)]
  simp [Span.nanoseconds]

theorem agrees_ofSpan {a b : Span} (ha : a.seconds ≤ maxSeconds) (hb : b.seconds ≤ maxSeconds) :
    (ofSpan a).agrees (ofSpan b) = true ↔ a = b := by
  rw [ofSpan_eq ha, ofSpan_eq hb, agrees_secondsNanos, Int.natCast_inj, Int.natCast_inj]
  cases a
  cases b
  simp

theorem inDurationRange_ofSpan {d : Span} :
    (ofSpan d).inDurationRange = true ↔ d.seconds ≤ 315576000000 := by
  have hseconds : (ofSpan d).inDurationRange =
      decide (((min d.seconds maxSeconds : Nat) : Int).natAbs ≤ durationLimit) := rfl
  rw [hseconds, decide_eq_true_iff, Int.natAbs_natCast, maxSeconds, durationLimit, Nat.pow_eq]
  omega

theorem ofInstant_eq {i : Instant} (h : i.Near) :
    ofInstant i = secondsNanos i.seconds i.nanos := by
  have hmax : min i.distance.seconds maxSeconds = i.distance.seconds :=
    Nat.min_eq_left (Nat.le_sub_one_of_lt h)
  simp only [ofInstant, hmax]
  have hnanos := i.nanos_lt
  by_cases hafter : 0 ≤ i.seconds
  · rw [if_pos hafter, Instant.distance, if_pos hafter, Int.toNat_of_nonneg hafter]
  · rw [if_neg hafter]
    by_cases hwhole : i.nanos = 0
    · have hdistance : i.distance = ⟨(-i.seconds).toNat, 0, by omega⟩ := by
        rw [Instant.distance, if_neg hafter, dif_pos hwhole]
      have hseconds : -((-i.seconds).toNat : Int) = i.seconds := by omega
      rw [hdistance, if_pos rfl, hseconds, hwhole]
      rfl
    · have hdistance : i.distance =
          ⟨(-i.seconds - 1).toNat, 1000000000 - i.nanos, by omega⟩ := by
        rw [Instant.distance, if_neg hafter, dif_neg hwhole]
      have hpart : 1000000000 - i.nanos ≠ 0 := by omega
      have hseconds : -((-i.seconds - 1).toNat : Int) - 1 = i.seconds := by omega
      have hrest : (1000000000 : Int) - (1000000000 - i.nanos : Nat) = i.nanos := by omega
      rw [hdistance, if_neg hpart, hseconds, hrest]

theorem compare_ofInstant {i j : Instant} (hi : i.Near) (hj : j.Near) :
    (ofInstant i).compare (ofInstant j) = some (Ord.compare i.offset j.offset) := by
  have hbelow := i.nanos_lt
  have hbelow' := j.nanos_lt
  rw [ofInstant_eq hi, ofInstant_eq hj, compare_secondsNanos (by omega) (by omega)]
  rfl

end Literal

theorem durationViolation_eq_nil_iff {rule : String} {d : Span} :
    durationViolation rule (.ofSpan d) = [] ↔ d.seconds ≤ 315576000000 := by
  rw [durationViolation, ← Literal.inDurationRange_ofSpan]
  split <;> simp_all

/-! ## Durations -/

namespace DurationRules

/-- The span stands in some rule, the constant included. Examples are not rules. -/
def Mentions (r : DurationRules) (d : Span) : Prop :=
  r.range.Upper d ∨ r.range.Lower d ∨ d ∈ r.members.allowed ∨ d ∈ r.members.denied ∨
    r.samples.constant = some d

/-- Rules of a duration that agree with the wire format and with each other. `bare` is whether
nothing else is said about the field. -/
structure Consistent (bare : Prop) (r : DurationRules) : Prop where
  limit : ∀ d, r.Mentions d → d.seconds ≤ 315576000000
  range : r.range.Ordered fun a b => a.nanoseconds < b.nanoseconds
  members : ∀ d ∈ r.members.allowed, d ∉ r.members.denied
  alone : ∀ d, r.samples.constant = some d → r = { samples := { constant := some d } } ∧ bare

theorem eq_constant_iff {r : DurationRules} {d : Span} (hd : r.samples.constant = some d) :
    r = { samples := { constant := some d } } ↔
      r.rules = [] ∧ (r.samples.map Literal.ofSpan).examples = [] := by
  obtain ⟨range, members, ⟨constant, examples⟩⟩ := r
  cases hd
  simp [rules, Samples.map, and_assoc]

/-- The values that are checked against the limit, by their rule names. -/
def named (r : DurationRules) : List (String × Span) :=
  r.range.named ++ r.members.named ++ r.samples.constant.toList.map fun d => ("const", d)

theorem forall_named {r : DurationRules} {P : Span → Prop} :
    (∀ x ∈ r.named, P x.2) ↔ ∀ d, r.Mentions d → P d := by
  simp only [named, List.forall_mem_append, Bounds.forall_named (P := P), Mentions]
  simp [Members.named, or_imp, forall_and, and_assoc]

theorem violations_eq_nil_iff {r : DurationRules} :
    r.violations = [] ↔ (∀ d, r.Mentions d → d.seconds ≤ 315576000000) ∧
      r.range.Ordered (fun a b => a.nanoseconds < b.nanoseconds) ∧
      ∀ d ∈ r.members.allowed, d ∉ r.members.denied := by
  have hlimits : r.violations = (r.range.map Literal.ofSpan).violations ++
      (r.members.map Literal.ofSpan).violations ++
        r.named.flatMap fun x => durationViolation x.1 (.ofSpan x.2) := by
    simp [violations, named, Bounds.named_map, Members.named, Members.map, List.flatMap_map]
  have hlimit : (r.named.flatMap fun x => durationViolation x.1 (.ofSpan x.2)) = [] ↔
      ∀ d, r.Mentions d → d.seconds ≤ 315576000000 := by
    simp only [List.flatMap_eq_nil_iff, durationViolation_eq_nil_iff]
    exact forall_named (P := fun d => d.seconds ≤ 315576000000)
  -- Clamped spans may compare as equal although they are not, so the limit goes first.
  rw [hlimits, List.append_eq_nil_iff, List.append_eq_nil_iff, hlimit, and_comm]
  refine and_congr_right fun hall => ?_
  have hexact : ∀ d, r.Mentions d → d.seconds ≤ Literal.maxSeconds :=
    fun d hd => Nat.le_trans (hall d hd) (by decide)
  refine and_congr ?_ ?_
  · refine Bounds.violations_map_eq_nil_iff (fun _ _ => rfl) fun low high hlow hhigh => ?_
    exact ⟨_, Literal.compare_ofSpan (hexact low (.inr (.inl hlow))) (hexact high (.inl hhigh)),
      by rw [Int.compare_eq_lt, Int.ofNat_lt]⟩
  · rw [Members.violations_map_eq_nil_iff]
    refine forall₂_congr fun d hd => ?_
    have hagrees : ∀ e ∈ r.members.denied,
        ((Literal.ofSpan d).agrees (Literal.ofSpan e) = false ↔ d ≠ e) := by
      intro e he
      rw [← Bool.not_eq_true, Literal.agrees_ofSpan (hexact d (.inr (.inr (.inl hd))))
        (hexact e (.inr (.inr (.inr (.inl he)))))]
    rw [forall₂_congr hagrees]
    exact ⟨fun h hmem => h d hmem rfl, fun h e he heq => h (heq ▸ he)⟩

theorem consistent_iff {bare : Prop} {r : DurationRules} :
    r.Consistent bare ↔ r.violations = [] ∧ ∀ d, r.samples.constant = some d →
      r = { samples := { constant := some d } } ∧ bare := by
  rw [violations_eq_nil_iff]
  constructor
  · exact fun h => ⟨⟨h.limit, h.range, h.members⟩, h.alone⟩
  · rintro ⟨⟨hlimit, hrange, hmembers⟩, halone⟩
    exact ⟨hlimit, hrange, hmembers, halone⟩

end DurationRules

/-! ## Timestamps -/

namespace TimestampRules

/-- Rules of a timestamp that agree with the wire format and with each other. `bare` is whether
nothing else is said about the field. -/
structure Consistent (bare : Prop) (r : TimestampRules) : Prop where
  range : r.range.Ordered fun a b => a.offset < b.offset
  ltNow : r.ltNow = true → r.range.lt = none ∧ r.range.lte = none ∧ r.gtNow = false
  gtNow : r.gtNow = true → r.range.gt = none ∧ r.range.gte = none
  within : ∀ d, r.within = some d → d.seconds ≤ 315576000000
  alone : ∀ i, r.samples.constant = some i → r = { samples := { constant := some i } } ∧ bare

theorem eq_constant_iff {r : TimestampRules} {i : Instant} (hi : r.samples.constant = some i) :
    r = { samples := { constant := some i } } ↔
      r.rules = [] ∧ (r.samples.map Literal.ofInstant).examples = [] := by
  obtain ⟨range, ltNow, gtNow, within, ⟨constant, examples⟩⟩ := r
  cases hi
  simp [rules, Samples.map, and_assoc]

theorem conflicts_eq_nil_iff {r : TimestampRules} :
    ((r.conflicts.filter (·.1)).map fun x => Violation.conflictingRules x.2.1 x.2.2) = [] ↔
      (r.ltNow = true → r.range.lt = none ∧ r.range.lte = none ∧ r.gtNow = false) ∧
      (r.gtNow = true → r.range.gt = none ∧ r.range.gte = none) := by
  rw [List.map_eq_nil_iff, List.filter_eq_nil_iff]
  cases hlt : r.ltNow <;> cases hgt : r.gtNow <;> simp [conflicts, hlt, hgt]

/-- The checks of timestamps, whose bounds are not too far from the epoch for their literals. -/
theorem violations_eq_nil_iff {r : TimestampRules}
    (hnear : ∀ i, r.range.Upper i ∨ r.range.Lower i → i.Near) :
    r.violations = [] ↔ r.range.Ordered (fun a b => a.offset < b.offset) ∧
      (∀ d, r.within = some d → d.seconds ≤ 315576000000) ∧
      (r.ltNow = true → r.range.lt = none ∧ r.range.lte = none ∧ r.gtNow = false) ∧
      (r.gtNow = true → r.range.gt = none ∧ r.range.gte = none) := by
  have hrange : (r.range.map Literal.ofInstant).violations = [] ↔
      r.range.Ordered fun a b => a.offset < b.offset := by
    refine Bounds.violations_map_eq_nil_iff (fun i hi => ?_) fun low high hlow hhigh => ?_
    · rw [Literal.ofInstant_eq (hnear i hi)]
      exact Literal.isNaN_secondsNanos _ _
    · exact ⟨_, Literal.compare_ofInstant (hnear low (.inr hlow)) (hnear high (.inl hhigh)),
        Int.compare_eq_lt⟩
  rw [violations, List.append_eq_nil_iff, List.append_eq_nil_iff, hrange, conflicts_eq_nil_iff,
    and_assoc]
  refine and_congr Iff.rfl (and_congr ?_ Iff.rfl)
  cases r.within <;> simp [durationViolation_eq_nil_iff]

theorem consistent_iff {bare : Prop} {r : TimestampRules}
    (hnear : ∀ i, r.range.Upper i ∨ r.range.Lower i → i.Near) :
    r.Consistent bare ↔ r.violations = [] ∧ ∀ i, r.samples.constant = some i →
      r = { samples := { constant := some i } } ∧ bare := by
  rw [violations_eq_nil_iff hnear]
  constructor
  · exact fun h => ⟨⟨h.range, h.within, h.ltNow, h.gtNow⟩, h.alone⟩
  · rintro ⟨⟨hrange, hwithin, hlt, hgt⟩, halone⟩
    exact ⟨hrange, hlt, hgt, hwithin, halone⟩

end TimestampRules

/-! ## Temporal fields -/

/-- **Temporal fields accept exactly the consistent rules.** A duration field, declared by any
sequence of changes, builds in any context just when the rules that stand after them are consistent.
So does a timestamp field whose bounds are less than `2 ^ 63` seconds away from the epoch. -/
theorem LeafType.temporal_builds_iff (s : Scope) (n : Nat) (name : String) :
    (∀ (edits : List (Draft.Edit DurationRules.Edit)) (d : Draft DurationRules),
      Draft.declare DurationRules.edit {} name edits = .ok d →
        ((∃ g, ((d.field .duration).build s n).result = .ok g) ↔
          (DurationRules.standing (Draft.ruleEdits edits)).Consistent (Draft.Bare edits))) ∧
    (∀ (edits : List (Draft.Edit TimestampRules.Edit)) (d : Draft TimestampRules),
      Draft.declare TimestampRules.edit {} name edits = .ok d →
        let rules := TimestampRules.standing (Draft.ruleEdits edits)
        (∀ i, rules.range.Upper i ∨ rules.range.Lower i → i.Near) →
          ((∃ g, ((d.field .timestamp).build s n).result = .ok g) ↔
            rules.Consistent (Draft.Bare edits))) := by
  refine ⟨fun edits d h => ?_, fun edits d h => ?_⟩
  · have hrules : d.rules = .standing (Draft.ruleEdits edits) :=
      Draft.rules_of_declare DurationRules.standing_concat h
    have hbuilds : (∃ g, ((d.field .duration).build s n).result = .ok g) ↔
        d.rules.violations = [] ∧ ∀ v, d.rules.samples.constant = some v →
          d.rules = { samples := { constant := some v } } ∧ Draft.Bare edits :=
      Draft.builds_iff h rfl rfl Option.isSome_map fun v hv => DurationRules.eq_constant_iff hv
    rw [hbuilds, ← hrules, DurationRules.consistent_iff]
  · intro rules hnear
    have hrules : d.rules = rules :=
      Draft.rules_of_declare TimestampRules.standing_concat h
    have hbuilds : (∃ g, ((d.field .timestamp).build s n).result = .ok g) ↔
        d.rules.violations = [] ∧ ∀ v, d.rules.samples.constant = some v →
          d.rules = { samples := { constant := some v } } ∧ Draft.Bare edits :=
      Draft.builds_iff h rfl rfl Option.isSome_map fun v hv => TimestampRules.eq_constant_iff hv
    rw [hbuilds, ← hrules, TimestampRules.consistent_iff (by rwa [hrules])]

/-- Durations up to the limit, one of which was set before, and moments around the epoch: half a
second before it is later than a whole second before it, and no bound goes with the present. -/
theorem LeafType.temporal_builds_iff_epoch :
    let scope : Scope := ⟨(Registry.ofFiles []).1, "a.proto", "buf/validate/validate.proto", []⟩
    let timeout : List (Draft.Edit DurationRules.Edit) := [
      .rules (.range (.lte ⟨315576000001, 0, by decide⟩)), .optional,
      .rules (.range (.lte ⟨315576000000, 999999999, by decide⟩)),
      .rules (.range (.gt ⟨315576000000, 0, by decide⟩))]
    let moment : List (Draft.Edit TimestampRules.Edit) := [
      .rules (.range (.gte ⟨-1, 0, by decide⟩)), .head .required,
      .rules (.range (.lt ⟨-1, 500000000, by decide⟩))]
    ∃ d e f, Draft.declare DurationRules.edit {} "at" timeout = .ok d ∧
      (∃ g, ((d.field .duration).build scope 1).result = .ok g) ∧
      Draft.declare TimestampRules.edit {} "at" moment = .ok e ∧
      (∃ g, ((e.field .timestamp).build scope 1).result = .ok g) ∧
      Draft.declare TimestampRules.edit {} "at" (moment ++ [.rules .ltNow]) = .ok f ∧
      ¬ ∃ g, ((f.field .timestamp).build scope 1).result = .ok g := by
  intro scope timeout moment
  obtain ⟨d, hd⟩ : ∃ d, Draft.declare DurationRules.edit {} "at" timeout = .ok d :=
    exists_ok_of_isSome (by decide)
  obtain ⟨e, he⟩ : ∃ e, Draft.declare TimestampRules.edit {} "at" moment = .ok e :=
    exists_ok_of_isSome (by decide)
  obtain ⟨f, hf⟩ : ∃ f, Draft.declare TimestampRules.edit {} "at" (moment ++ [.rules .ltNow]) =
    .ok f := exists_ok_of_isSome (by decide)
  obtain ⟨hduration, htimestamp⟩ := temporal_builds_iff scope 1 "at"
  let bounds : Bounds Instant :=
    { lt := some ⟨-1, 500000000, by decide⟩, gte := some ⟨-1, 0, by decide⟩ }
  have hnear : ∀ i, bounds.Upper i ∨ bounds.Lower i → i.Near := by
    rintro i ((h | h) | (h | h)) <;> cases h <;> decide
  refine ⟨d, e, f, hd, (hduration timeout d hd).2 ?_, he, (htimestamp moment e he ?_).2 ?_, hf,
    fun h => ?_⟩
  · have hstanding : DurationRules.standing (Draft.ruleEdits timeout) = { range := {
        lte := some ⟨315576000000, 999999999, by decide⟩,
        gt := some ⟨315576000000, 0, by decide⟩ } } := rfl
    rw [hstanding]
    refine ⟨?_, ⟨.inl rfl, .inr rfl, ?_⟩, by simp, by simp⟩
    · rintro d ((h | h) | (h | h) | h | h | h) <;> cases h <;> decide
    · simp [Bounds.Upper, Bounds.Lower, Span.nanoseconds]
  · have hbounds : (TimestampRules.standing (Draft.ruleEdits moment)).range = bounds := rfl
    rw [hbounds]
    exact hnear
  · have hstanding : TimestampRules.standing (Draft.ruleEdits moment) = { range := bounds } := rfl
    rw [hstanding]
    refine ⟨⟨.inr rfl, .inl rfl, ?_⟩, by simp, by simp, by simp, by simp⟩
    simp [Bounds.Upper, Bounds.Lower, Instant.offset, bounds]
  · have hbounds : (TimestampRules.standing (Draft.ruleEdits (moment ++ [.rules .ltNow]))).range =
      bounds := rfl
    have hconsistent := (htimestamp _ f hf (by rw [hbounds]; exact hnear)).1 h
    cases (hconsistent.ltNow rfl).1

end WireSchema

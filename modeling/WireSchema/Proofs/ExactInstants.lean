import WireSchema.Proofs.TemporalRules

/-!
# Instants as literals

An instant becomes an aggregate of two signed words, 64 bits for its seconds and 32 for its
nanoseconds. Before the epoch the conversion starts from the distance to it: the seconds of the
distance are clamped to a word and negated, and one more second is borrowed when nanoseconds are
left.

* `Instant.representable_iff`: the instants a span after or before the epoch are those whose whole
  seconds fit in a word.
* `Literal.ofInstantInWords?_eq`: no step of this leaves its word, whatever the instant.
* `Literal.ofInstant_least`: the distance of the least instant is one second longer than a word
  holds, and its literal states the instant one second later.
* `Instant.literal_exact_iff`: the literal of every other instant is exact, so that literals
  compare like their instants, but for the least one and those in the second after it.
-/

namespace WireSchema

/-! ## Representable instants -/

namespace Instant

/-- The whole seconds of the instant fit in a signed 64-bit word. -/
structure Representable (i : Instant) : Prop where
  le : -Nat.pow 2 63 ≤ i.seconds
  lt : i.seconds < Nat.pow 2 63

/-- The least representable instant, `2 ^ 63` seconds before the epoch. -/
def least : Instant := ⟨-Nat.pow 2 63, 0, by decide⟩

/-- The instant `i` is the least one, and `j` comes at most a second after it. -/
structure Blurs (i j : Instant) : Prop where
  least : i = least
  lt : i.offset < j.offset
  le : j.offset ≤ i.offset + 1000000000

theorem after_distance {i : Instant} (hnonneg : 0 ≤ i.seconds) (hlt : i.seconds < Nat.pow 2 63) :
    after i.distance = .ok i := by
  have hseconds : i.seconds.toNat < Nat.pow 2 63 := by omega
  simp only [distance, if_pos hnonneg, after, if_pos hseconds, Int.toNat_of_nonneg hnonneg]

theorem before_distance {i : Instant} (hneg : ¬ 0 ≤ i.seconds) (hle : -Nat.pow 2 63 ≤ i.seconds) :
    before i.distance = .ok i := by
  obtain ⟨seconds, nanos, hnanos⟩ := i
  by_cases hwhole : nanos = 0
  · subst hwhole
    have hseconds : -((-seconds).toNat : Int) = seconds := by simp only at hneg; omega
    simp only [distance, if_neg hneg, dif_pos, before, hseconds, if_pos hle]
  · have hpart : 1000000000 - nanos ≠ 0 := by omega
    have hseconds : -((-seconds - 1).toNat : Int) - 1 = seconds := by simp only at hneg; omega
    have hrest : 1000000000 - (1000000000 - nanos) = nanos := by omega
    simp only [distance, if_neg hneg, dif_neg hwhole, before, dif_neg hpart, hseconds, hrest,
      if_pos hle]

/-- The representable instants are those that lie some span after or before the epoch. -/
theorem representable_iff {i : Instant} :
    i.Representable ↔ ∃ d, after d = .ok i ∨ before d = .ok i := by
  constructor
  · rintro ⟨hle, hlt⟩
    refine ⟨i.distance, ?_⟩
    by_cases hnonneg : 0 ≤ i.seconds
    · exact .inl (after_distance hnonneg hlt)
    · exact .inr (before_distance hnonneg hle)
  · rintro ⟨d, hd | hd⟩
    · unfold after at hd
      split at hd
      · next hseconds => cases hd; exact ⟨by simp only; omega, by simp only; omega⟩
      · cases hd
    · simp only [before] at hd
      have hpositive : 0 < Nat.pow 2 63 := by decide
      split at hd <;> split at hd
      · next hle => cases hd; simp only at hle; exact ⟨hle, by simp only; omega⟩
      · cases hd
      · next hle => cases hd; simp only at hle; exact ⟨hle, by simp only; omega⟩
      · cases hd

theorem near_iff_ne_least {i : Instant} (h : i.Representable) : i.Near ↔ i ≠ least := by
  obtain ⟨hle, hlt⟩ := h
  have hleast : i ≠ least ↔ ¬ (i.seconds = -Nat.pow 2 63 ∧ i.nanos = 0) := by
    rw [ne_eq, mk.injEq, least]
  rw [hleast, Near, distance]
  split
  · simp only; omega
  · split
    · simp only; omega
    · simp only; omega

/-- A representable instant that is not the least one comes after it. -/
theorem offset_least_lt {i : Instant} (h : i.Representable) (hne : i ≠ least) :
    least.offset < i.offset := by
  obtain ⟨seconds, nanos, hnanos⟩ := i
  have hle : -Nat.pow 2 63 ≤ seconds := h.le
  have hapart : ¬ (seconds = -Nat.pow 2 63 ∧ nanos = 0) := by
    rwa [ne_eq, least, mk.injEq] at hne
  simp only [offset, least]
  omega

end Instant

/-! ## The conversion in words -/

/-- The integer, if a signed word of `bits` bits holds it. -/
def signedWord? (bits : Nat) (v : Int) : Option Int :=
  if -Nat.pow 2 (bits - 1) ≤ v ∧ v < Nat.pow 2 (bits - 1) then some v else none

namespace Literal

/-- The conversion of an instant step by step, `none` as soon as a result does not fit in its word.
Just the seconds of the distance, which are an unsigned word, are clamped. -/
def ofInstantInWords? (i : Instant) : Option Literal := do
  let clamped := (signedWord? 64 i.distance.seconds).getD maxSeconds
  let nanos ← signedWord? 32 i.distance.nanos
  if 0 ≤ i.seconds then some (secondsNanos clamped nanos)
  else do
    let seconds ← signedWord? 64 (-clamped)
    if nanos ≤ 0 then some (secondsNanos seconds nanos)
    else do
      let borrowed ← signedWord? 64 (seconds - 1)
      let rest ← signedWord? 32 (1000000000 - nanos)
      some (secondsNanos borrowed rest)

theorem signedWord?_of_fits {bits : Nat} {v : Int} (hle : -Nat.pow 2 (bits - 1) ≤ v)
    (hlt : v < Nat.pow 2 (bits - 1)) : signedWord? bits v = some v :=
  if_pos ⟨hle, hlt⟩

theorem clamped_eq (seconds : Nat) :
    (signedWord? 64 seconds).getD maxSeconds = (min seconds maxSeconds : Nat) := by
  simp only [signedWord?, maxSeconds, Nat.pow_eq, Nat.reduceSub]
  split
  · rw [Option.getD_some, Nat.min_eq_left (by omega)]
  · rw [Option.getD_none, Nat.min_eq_right (by omega)]

/-- **No step of the conversion overflows.** -/
theorem ofInstantInWords?_eq (i : Instant) : ofInstantInWords? i = some (ofInstant i) := by
  have hnanos := i.distance.nanos_lt
  have hsmall : min i.distance.seconds maxSeconds ≤ 9223372036854775807 := Nat.min_le_right _ _
  rw [ofInstantInWords?, ofInstant, clamped_eq]
  generalize min i.distance.seconds maxSeconds = seconds at hsmall
  generalize i.distance.nanos = nanos at hnanos
  -- Each of the four checks is passed, whether its branch is taken or not.
  have hlong : Nat.pow 2 (64 - 1) = 9223372036854775808 := rfl
  have hshort : Nat.pow 2 (32 - 1) = 2147483648 := rfl
  have hpart : signedWord? 32 nanos = some (nanos : Int) :=
    signedWord?_of_fits (by omega) (by omega)
  have hnegated : signedWord? 64 (-seconds) = some (-seconds : Int) :=
    signedWord?_of_fits (by omega) (by omega)
  have hborrowed : signedWord? 64 (-seconds - 1) = some (-seconds - 1 : Int) :=
    signedWord?_of_fits (by omega) (by omega)
  have hrest : signedWord? 32 (1000000000 - nanos) = some (1000000000 - nanos : Int) :=
    signedWord?_of_fits (by omega) (by omega)
  simp only [hpart, hnegated, hborrowed, hrest, Option.bind_eq_bind, Option.bind_some]
  by_cases hafter : 0 ≤ i.seconds
  · rw [if_pos hafter, if_pos hafter]
  · rw [if_neg hafter, if_neg hafter]
    have hwhole : (nanos : Int) ≤ 0 ↔ nanos = 0 := by omega
    by_cases hnone : nanos = 0
    · rw [if_pos (hwhole.2 hnone), if_pos hnone, hnone]
      rfl
    · rw [if_neg (mt hwhole.1 hnone), if_neg hnone]

theorem secondsNanos_inj {s n t m : Int} :
    secondsNanos s n = secondsNanos t m ↔ s = t ∧ n = m := by
  simp [secondsNanos]

/-- The clamped distance of the least instant is a second short. -/
theorem ofInstant_least :
    ofInstant .least = secondsNanos (Instant.least.seconds + 1) Instant.least.nanos := rfl

end Literal

/-! ## Exact literals -/

theorem compare_eq_compare_iff {a b x y : Int} :
    Ord.compare a b = Ord.compare x y ↔ (a < b ↔ x < y) ∧ (b < a ↔ y < x) := by
  rw [← Int.compare_eq_lt (a := a), ← Int.compare_eq_gt (a := a), ← Int.compare_eq_lt (a := x),
    ← Int.compare_eq_gt (a := x)]
  cases Ord.compare a b <;> cases Ord.compare x y <;> decide

namespace Instant

variable {i j : Instant}

theorem blurs_iff :
    i.Blurs j ↔ i = least ∧ i.offset < j.offset ∧ j.offset ≤ i.offset + 1000000000 :=
  ⟨fun h => ⟨h.least, h.lt, h.le⟩, fun h => ⟨h.1, h.2.1, h.2.2⟩⟩

/-- The literal of an instant states its offset, that of the least one a second more. -/
theorem exists_ofInstant_eq (h : i.Representable) :
    ∃ s n : Int, Literal.ofInstant i = .secondsNanos s n ∧ (0 ≤ n ∧ n < 1000000000) ∧
      (i ≠ least → s * 1000000000 + n = i.offset) ∧
      (i = least → s * 1000000000 + n = i.offset + 1000000000) := by
  by_cases hleast : i = least
  · subst hleast
    exact ⟨_, _, Literal.ofInstant_least, by decide, fun hne => absurd rfl hne, fun _ => by decide⟩
  · have hnanos := i.nanos_lt
    exact ⟨i.seconds, i.nanos, Literal.ofInstant_eq ((near_iff_ne_least h).2 hleast), by omega,
      fun _ => rfl, fun he => absurd he hleast⟩

/-- Literals compare like their instants unless one of these is the least one and the other comes in
the second after it. -/
theorem compare_literals_iff (hi : i.Representable) (hj : j.Representable) :
    (Literal.ofInstant i).compare (.ofInstant j) = some (Ord.compare i.offset j.offset) ↔
      ¬ i.Blurs j ∧ ¬ j.Blurs i := by
  obtain ⟨s, n, hieq, hin, hiexact, hilate⟩ := exists_ofInstant_eq hi
  obtain ⟨t, m, hjeq, hjn, hjexact, hjlate⟩ := exists_ofInstant_eq hj
  rw [hieq, hjeq, Literal.compare_secondsNanos hin hjn, Option.some.injEq, compare_eq_compare_iff,
    blurs_iff, blurs_iff]
  by_cases hi' : i = least
  · by_cases hj' : j = least
    · rw [hilate hi', hjlate hj', hi', hj']
      simp
    · have hlt := offset_least_lt hj hj'
      rw [hilate hi', hjexact hj']
      simp only [hi', hj', true_and, false_and, not_false_eq_true, and_true]
      omega
  · by_cases hj' : j = least
    · have hlt := offset_least_lt hi hi'
      rw [hiexact hi', hjlate hj']
      simp only [hi', hj', true_and, false_and, not_false_eq_true]
      omega
    · rw [hiexact hi', hjexact hj']
      simp [hi', hj']

/-- **Instants become exact literals.** Of a representable instant, no step of the conversion
overflows, and unless it is the least one the literal is exact: its nanoseconds are those of a
second, and together with the seconds they are the offset. The literals of two representable
instants compare in the order of the instants, unless one of these is the least one and the other
comes in the second after it. -/
theorem literal_exact_iff (hi : i.Representable) (hj : j.Representable) :
    Literal.ofInstantInWords? i = some (.ofInstant i) ∧
      ((∃ s n : Int, Literal.ofInstant i = .secondsNanos s n ∧ 0 ≤ n ∧ n < 1000000000 ∧
        s * 1000000000 + n = i.offset) ↔ i ≠ least) ∧
      ((Literal.ofInstant i).compare (.ofInstant j) = some (Ord.compare i.offset j.offset) ↔
        ¬ i.Blurs j ∧ ¬ j.Blurs i) := by
  refine ⟨Literal.ofInstantInWords?_eq i, ?_, compare_literals_iff hi hj⟩
  obtain ⟨s, n, heq, ⟨hle, hlt⟩, hexact, hlate⟩ := exists_ofInstant_eq hi
  constructor
  · rintro ⟨t, m, heq', -, -, htotal⟩ hleast
    rw [heq, Literal.secondsNanos_inj] at heq'
    obtain ⟨rfl, rfl⟩ := heq'
    have hlater := hlate hleast
    omega
  · exact fun hne => ⟨s, n, heq, hle, hlt, hexact hne⟩

/-- The instant that is a nanosecond later than the least one has an exact literal, which compares
with that of half a second before the epoch. -/
theorem literal_exact_iff_nanosecond :
    let i : Instant := ⟨-Nat.pow 2 63, 1, by decide⟩
    let j : Instant := ⟨-1, 500000000, by decide⟩
    i.Representable ∧ j.Representable ∧ Literal.ofInstantInWords? i = some (.ofInstant i) ∧
      (∃ s n : Int, Literal.ofInstant i = .secondsNanos s n ∧ 0 ≤ n ∧ n < 1000000000 ∧
        s * 1000000000 + n = i.offset) ∧
      (Literal.ofInstant i).compare (.ofInstant j) = some .lt := by
  intro i j
  have hi : i.Representable := ⟨by decide, by decide⟩
  have hj : j.Representable := ⟨by decide, by decide⟩
  have hne : i ≠ least := fun h => absurd (congrArg nanos h) (by decide)
  have hne' : j ≠ least := fun h => absurd (congrArg nanos h) (by decide)
  obtain ⟨hwords, hexact, hcompare⟩ := literal_exact_iff hi hj
  refine ⟨hi, hj, hwords, hexact.2 hne, ?_⟩
  rw [hcompare.2 ⟨fun h => hne h.least, fun h => hne' h.least⟩]
  decide

/-- **The least instant is stated a second late.** It is the one exactly `2 ^ 63` seconds before the
epoch, and has the literal of the instant one second after it. -/
theorem literal_inexact_least :
    let next : Instant := ⟨1 - Nat.pow 2 63, 0, by decide⟩
    before ⟨Nat.pow 2 63, 0, by decide⟩ = .ok least ∧ least.Representable ∧ next.Representable ∧
      Literal.ofInstant least = .secondsNanos (1 - Nat.pow 2 63) 0 ∧
      (¬ ∃ s n : Int, Literal.ofInstant least = .secondsNanos s n ∧ 0 ≤ n ∧ n < 1000000000 ∧
        s * 1000000000 + n = least.offset) ∧
      least.offset < next.offset ∧
      (Literal.ofInstant least).compare (.ofInstant next) = some .eq := by
  intro next
  refine ⟨rfl, ⟨by decide, by decide⟩, ⟨by decide, by decide⟩, rfl, ?_, by decide, by decide⟩
  rintro ⟨s, n, heq, -, -, htotal⟩
  rw [Literal.ofInstant_least, Literal.secondsNanos_inj] at heq
  obtain ⟨rfl, rfl⟩ := heq
  exact absurd htotal (by decide)

end Instant

end WireSchema

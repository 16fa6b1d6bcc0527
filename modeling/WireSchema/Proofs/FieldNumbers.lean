import WireSchema.Proofs.Findings

/-!
# Numbers and names of a message

The one pass over the fields and choices of a message, with what it has seen so far, finds nothing
just when the message is well numbered, and it names every later holder of a number beside the
first one.

* `FlatMessage.slotViolations_eq_nil_iff`: what the pass finds among the slots that follow others,
  by induction on the slots; the step is `numberViolations_eq_nil_iff`.
* `FlatMessage.sharing_slotViolations`: which holders of a number the pass reports, by the same
  induction.
* `Message.builds_iff_wellNumbered`: a message whose parts build and that has not drifted builds
  just when it is well numbered; whatever else is wrong, its report has one entry for each later
  holder of a number.
-/

namespace WireSchema

/-! ## Well-numbered messages -/

/-- The rules for the numbers and names of a message, over its fields and choices together. -/
structure FlatMessage.WellNumbered (m : FlatMessage) : Prop where
  valid : ∀ x ∈ m.slots, (1 ≤ x.1 ∧ x.1 ≤ 536870911) ∧ ¬ (19000 ≤ x.1 ∧ x.1 ≤ 19999)
  numbers_nodup : (m.slots.map Prod.fst).Nodup
  names_nodup : (m.slots.map Prod.snd).Nodup
  ranges : ∀ r ∈ m.reservedRanges, 1 ≤ r.first ∧ r.first ≤ r.last ∧ r.last ≤ 536870911
  numbers_free : ∀ r ∈ m.reservedRanges, ∀ x ∈ m.slots, ¬ (r.first ≤ x.1 ∧ x.1 ≤ r.last)
  names_free : ∀ name ∈ m.reservedNames, name ∉ m.slots.map Prod.snd

namespace FlatMessage.WellNumbered

variable {m : FlatMessage}

theorem fields_nodup (h : m.WellNumbered) : (m.fields.map Prod.fst).Nodup := by
  have hsub : (m.fields.map Prod.fst).Sublist (m.slots.map Prod.fst) := by
    rw [slots, List.map_map, allFields, List.map_append]
    exact List.sublist_append_left _ _
  exact h.numbers_nodup.sublist hsub

theorem choices_nodup (h : m.WellNumbered) {o : Oneof} (ho : o ∈ m.oneofs) :
    (o.choices.map Prod.fst).Nodup := by
  have hchoices : o.choices.Sublist (m.oneofs.flatMap Oneof.choices) :=
    List.sublist_flatten_of_mem (List.mem_map_of_mem ho)
  have hsub : (o.choices.map Prod.fst).Sublist (m.slots.map Prod.fst) := by
    rw [slots, List.map_map]
    exact (hchoices.trans (List.sublist_append_right _ _)).map _
  exact h.numbers_nodup.sublist hsub

end FlatMessage.WellNumbered

theorem isValidFieldNumber_iff {n : Nat} :
    isValidFieldNumber n = true ↔ (1 ≤ n ∧ n ≤ 536870911) ∧ ¬ (19000 ≤ n ∧ n ≤ 19999) := by
  have hmax : maxFieldNumber = 536870911 := rfl
  simp only [isValidFieldNumber, Bool.and_eq_true, Bool.not_eq_true', Bool.and_eq_false_iff,
    decide_eq_true_eq, decide_eq_false_iff_not]
  omega

/-- Distinct entries, none of which stands among the earlier ones. -/
def NewAfter {α : Type} (earlier l : List α) : Prop := (∀ x ∈ l, x ∉ earlier) ∧ l.Nodup

theorem newAfter_nil {α : Type} {l : List α} : NewAfter [] l ↔ l.Nodup := by simp [NewAfter]

theorem newAfter_cons {α : Type} {earlier l : List α} {x : α} :
    NewAfter earlier (x :: l) ↔ x ∉ earlier ∧ NewAfter (earlier ++ [x]) l := by
  simp only [NewAfter, List.forall_mem_cons, List.nodup_cons, List.mem_append,
    List.mem_singleton, not_or]
  constructor
  · intro h
    obtain ⟨⟨hx, hl⟩, hxl, hnodup⟩ := h
    exact ⟨hx, fun y hy => ⟨hl y hy, fun he => hxl (he ▸ hy)⟩, hnodup⟩
  · intro h
    obtain ⟨hx, hl, hnodup⟩ := h
    exact ⟨⟨hx, fun y hy => (hl y hy).1⟩, fun hmem => (hl x hmem).2 rfl, hnodup⟩

/-! ## The pass over the slots -/

/-- One step of the pass: a valid number that no earlier field has. -/
theorem numberViolations_eq_nil_iff {earlier : List (Nat × String)} {n : Nat} {name : String} :
    numberViolations earlier n name = [] ↔
      isValidFieldNumber n = true ∧ n ∉ earlier.map Prod.fst := by
  have hfree : holder? earlier n = none ↔ n ∉ earlier.map Prod.fst := by
    simp only [holder?, List.lookup_eq_none_iff, List.mem_map, not_exists, not_and,
      bne_iff_ne, ne_eq]
    exact ⟨fun h x hx he => h x hx he.symm, fun h x hx he => h x hx he.symm⟩
  rw [numberViolations, List.append_eq_nil_iff, ← hfree]
  refine and_congr ?_ ?_
  · by_cases hv : isValidFieldNumber n = true <;> simp [hv]
  · cases holder? earlier n <;> simp

namespace FlatMessage

theorem slotViolations_eq_nil_iff (slots : List (Nat × String)) : ∀ earlier,
    slotViolations earlier slots = [] ↔ (∀ x ∈ slots, isValidFieldNumber x.1 = true) ∧
      NewAfter (earlier.map Prod.fst) (slots.map Prod.fst) ∧
      NewAfter (earlier.map Prod.snd) (slots.map Prod.snd) := by
  induction slots with
  | nil => intro earlier; simp [slotViolations, NewAfter]
  | cons x rest ih =>
    obtain ⟨n, name⟩ := x
    intro earlier
    have hname : (if earlier.any (·.2 == name) then [Violation.duplicateName name] else []) = [] ↔
        name ∉ earlier.map Prod.snd := by
      by_cases hmem : name ∈ earlier.map Prod.snd <;> simp_all
    simp only [slotViolations, List.append_eq_nil_iff, ih, List.map_append, List.map_cons,
      List.map_nil, List.forall_mem_cons, newAfter_cons, numberViolations_eq_nil_iff, hname]
    constructor
    · intro h
      obtain ⟨⟨⟨hvalid, hnumber⟩, hfresh⟩, hrest, hnumbers, hnames⟩ := h
      exact ⟨⟨hvalid, hrest⟩, ⟨hnumber, hnumbers⟩, hfresh, hnames⟩
    · intro h
      obtain ⟨⟨hvalid, hrest⟩, ⟨hnumber, hnumbers⟩, hfresh, hnames⟩ := h
      exact ⟨⟨⟨hvalid, hnumber⟩, hfresh⟩, hrest, hnumbers, hnames⟩

theorem rangeViolations_eq_nil_iff {slots : List (Nat × String)} {r : ReservedRange} :
    rangeViolations slots r = [] ↔
      (1 ≤ r.first ∧ r.first ≤ r.last ∧ r.last ≤ 536870911) ∧
        ∀ x ∈ slots, ¬ (r.first ≤ x.1 ∧ x.1 ≤ r.last) := by
  unfold rangeViolations
  by_cases hinv : r.last < r.first
  · rw [if_pos hinv]
    simp only [List.cons_ne_nil, false_iff, not_and]
    intro hrange
    omega
  · have huse : (slots.filter (r.contains ·.1)) = [] ↔
        ∀ x ∈ slots, ¬ (r.first ≤ x.1 ∧ x.1 ≤ r.last) := by
      simp [ReservedRange.contains]
    rw [if_neg hinv, List.append_eq_nil_iff, List.map_eq_nil_iff, List.map_eq_nil_iff, huse]
    refine and_congr_left fun _ => ?_
    have hmax : maxFieldNumber = 536870911 := rfl
    simp only [List.filter_eq_nil_iff, List.forall_mem_cons, List.not_mem_nil, false_implies,
      implies_true, and_true, Bool.not_eq_true', Bool.and_eq_false_iff, decide_eq_false_iff_not]
    omega

theorem reservedNameViolations_eq_nil_iff {slots : List (Nat × String)} {name : String} :
    reservedNameViolations slots name = [] ↔ name ∉ slots.map Prod.snd := by
  unfold reservedNameViolations
  by_cases hmem : name ∈ slots.map Prod.snd <;> simp_all

/-- **Numbers and names are checked in full**: nothing is found just when the message is well
numbered. -/
theorem numberingViolations_eq_nil_iff (m : FlatMessage) :
    m.numberingViolations = [] ↔ m.WellNumbered := by
  simp only [numberingViolations, List.append_eq_nil_iff, List.flatMap_eq_nil_iff,
    slotViolations_eq_nil_iff, rangeViolations_eq_nil_iff, reservedNameViolations_eq_nil_iff,
    isValidFieldNumber_iff, List.map_nil, newAfter_nil]
  constructor
  · intro h
    obtain ⟨⟨⟨hvalid, hnumbers, hnames⟩, hranges⟩, hfree⟩ := h
    exact ⟨hvalid, hnumbers, hnames, fun r hr => (hranges r hr).1, fun r hr => (hranges r hr).2,
      hfree⟩
  · intro h
    exact ⟨⟨⟨h.valid, h.numbers_nodup, h.names_nodup⟩,
      fun r hr => ⟨h.ranges r hr, h.numbers_free r hr⟩⟩, h.names_free⟩

end FlatMessage

/-! ## Shared numbers in a report -/

/-- The two fields that a violation reports for sharing this number, if that is what is wrong. -/
def Violation.sharing? (number : Nat) : Violation → Option (String × String)
  | .duplicateFieldNumber n first second => if n = number then some (first, second) else none
  | _ => none

/-- The fields that a report itself, and none of the scopes beneath it, names for sharing this
number: the holder and the later one, in order. -/
def Report.sharing (number : Nat) (r : Report) : List (String × String) :=
  r.filterMap fun x => if x.path = [] then x.violation.sharing? number else none

/-- All names but the first, each beside the first. -/
def besideFirst : List String → List (String × String)
  | [] => []
  | first :: later => later.map (first, ·)

namespace Report

variable {number : Nat}

@[simp] theorem sharing_append (q r : Report) :
    sharing number (q ++ r) = sharing number q ++ sharing number r := List.filterMap_append

/-- What stands beneath a scope is not the report's own. -/
theorem sharing_flatMap_under {α : Type} (l : List α) (scope : α → String) (f : α → Report) :
    sharing number (l.flatMap fun a => (f a).under (scope a)) = [] := by
  refine List.filterMap_eq_nil_iff.2 fun x hx => if_neg ?_
  obtain ⟨a, -, hx⟩ := List.mem_flatMap.1 hx
  obtain ⟨y, -, rfl⟩ := List.mem_map.1 hx
  exact List.cons_ne_nil _ _

theorem sharing_ofViolations (vs : List Violation) :
    sharing number (ofViolations vs) = vs.filterMap (Violation.sharing? number) := by
  simp only [sharing, ofViolations, List.filterMap_map]
  rfl

end Report

namespace FlatMessage

/-- The names of the fields and choices with this number, in the order of their declaration. -/
def holders (number : Nat) (slots : List (Nat × String)) : List String :=
  (slots.filter (·.1 == number)).map Prod.snd

theorem sharing_numberViolations {number : Nat} {earlier : List (Nat × String)} {n : Nat}
    {name : String} : (numberViolations earlier n name).filterMap (Violation.sharing? number) =
      if n = number then (earlier.lookup number).toList.map (·, name) else [] := by
  unfold numberViolations holder?
  by_cases hn : n = number
  · subst hn
    cases hl : earlier.lookup n <;> by_cases hv : isValidFieldNumber n = true <;>
      simp [hv, List.filterMap_cons, Violation.sharing?]
  · cases hl : earlier.lookup n <;> by_cases hv : isValidFieldNumber n = true <;>
      simp [hv, hn, List.filterMap_cons, Violation.sharing?]

/-- The pass names each later holder of a number beside the first: the one among the earlier slots
if there is one, otherwise the first that it comes to. -/
theorem sharing_slotViolations (number : Nat) (slots : List (Nat × String)) : ∀ earlier,
    (slotViolations earlier slots).filterMap (Violation.sharing? number) =
      match earlier.lookup number with
      | some first => (holders number slots).map (first, ·)
      | none => besideFirst (holders number slots) := by
  induction slots with
  | nil => intro earlier; cases earlier.lookup number <;> rfl
  | cons x rest ih =>
    obtain ⟨n, name⟩ := x
    intro earlier
    have hname : (if earlier.any (·.2 == name) then [Violation.duplicateName name]
        else []).filterMap (Violation.sharing? number) = [] := by
      split <;> rfl
    simp only [slotViolations, List.filterMap_append, hname, sharing_numberViolations, ih,
      List.append_nil, List.lookup_append]
    by_cases hn : n = number
    · subst hn
      cases earlier.lookup n <;> simp [holders, besideFirst]
    · have hb : (number == n) = false := by simpa using Ne.symm hn
      cases earlier.lookup number <;> simp [holders, hn, List.lookup_cons, hb]

/-- Drift is about names and types only. -/
theorem sharing_drift (number : Nat) (m : FlatMessage) :
    m.drift.filterMap (Violation.sharing? number) = [] := by
  have hfield : ∀ expected f,
      (hostFieldDrift expected f).filterMap (Violation.sharing? number) = [] := fun expected f => by
    unfold hostFieldDrift
    split
    · rfl
    · split <;> rfl
    · rfl
  unfold drift
  split
  · split
    · rfl
    · simp [driftFrom, hfield, List.filterMap_flatMap, Violation.sharing?]
  · rfl

theorem sharing_numberingViolations (number : Nat) (m : FlatMessage) :
    m.numberingViolations.filterMap (Violation.sharing? number) =
      besideFirst (holders number m.slots) := by
  have hrange : ∀ r, (rangeViolations m.slots r).filterMap (Violation.sharing? number) = [] :=
    fun r => by
      unfold rangeViolations
      split
      · rfl
      · simp [Violation.sharing?]
  have hreserved : ∀ name,
      (reservedNameViolations m.slots name).filterMap (Violation.sharing? number) = [] :=
    fun name => by
      unfold reservedNameViolations
      split <;> rfl
  simp only [numberingViolations, List.filterMap_append, List.filterMap_flatMap, hrange, hreserved,
    sharing_slotViolations]
  simp

end FlatMessage

/-! ## Building a well-numbered message -/

namespace Message

/-- The parts of a message build in the scope inside it, each on its own. -/
structure PartsBuild (s : Scope) (m : Message) : Prop where
  fields : ∀ x ∈ m.fields, (x.2.run x.1).alone (s.enter m.name) = []
  oneofs : ∀ o ∈ m.oneofs, o.run.alone (s.enter m.name) = []
  messages : ∀ n ∈ m.messages, n.run.alone (s.enter m.name) = []
  enums : ∀ e ∈ m.enums, e.run.alone (s.enter m.name) = []

theorem findingsAll_eq (s : Scope) (ms : List Message) : findingsAll s ms =
    ms.flatMap fun m => (m.findings s).under (scopeOf "message" m.name) := by
  induction ms with
  | nil => rfl
  | cons m ms ih => rw [findingsAll, ih]; rfl

/-- A message whose parts build finds just what its own checks find. -/
theorem findings_of_partsBuild {s : Scope} {m : Message} (h : m.PartsBuild s) :
    m.findings s = .ofViolations (m.drift ++ m.numberingViolations) := by
  obtain ⟨m, nested⟩ := m
  obtain ⟨hfields, honeofs, hmessages, henums⟩ := h
  have hbyNumber : ∀ x ∈ byNumber m.fields, (x.2.run x.1).alone (s.enter m.name) = [] :=
    fun x hx => hfields x ((stableSort_perm _ _).mem_iff.1 hx)
  have hnested : ∀ n ∈ nested, n.findings (s.enter m.name) = [] := fun n hn => by
    rw [← alone_run]; exact hmessages n hn
  have hnone : ∀ {α : Type} (l : List α) (f : α → Report) (scope : α → String),
      (∀ a ∈ l, f a = []) → (l.flatMap fun a => (f a).under (scope a)) = [] :=
    fun l f scope hl => List.flatMap_eq_nil_iff.2 fun a ha => Report.under_eq_nil_iff.2 (hl a ha)
  rw [findings, findingsAll_eq, FlatMessage.enumFindings, hnone _ _ _ hbyNumber,
    hnone _ _ _ honeofs, hnone _ _ _ hnested, hnone _ _ _ henums]
  simp

/-- Whatever its parts do, a message names fields for sharing a number as its own check does. -/
theorem sharing_findings (number : Nat) (s : Scope) (m : Message) :
    (m.findings s).sharing number = besideFirst (FlatMessage.holders number m.slots) := by
  obtain ⟨m, nested⟩ := m
  rw [findings, findingsAll_eq, FlatMessage.enumFindings]
  simp only [Report.sharing_append, Report.sharing_flatMap_under, Report.sharing_ofViolations,
    List.filterMap_append, FlatMessage.sharing_drift, FlatMessage.sharing_numberingViolations,
    List.nil_append, List.append_nil]

/-- **Numbers and names decide.** A message that has not drifted and whose parts build has a value
just when it is well numbered. However it fails, its report names each field after the first with
one number exactly once, beside the first one. -/
theorem builds_iff_wellNumbered (m : Message) (s : Session) :
    (m.drift = [] → m.PartsBuild s.scope → ((∃ d, (m.run s).1 = .ok d) ↔ m.WellNumbered)) ∧
      ∀ number, (Report.ofResult (m.run s).1).sharing number =
        besideFirst (FlatMessage.holders number m.slots) := by
  have hrun : (m.run s).1 = (m.build s.scope).result := by rw [run_eq]; rfl
  constructor
  · intro hdrift hparts
    have hreport : (m.build s.scope).report = .ofViolations m.numberingViolations := by
      rw [report_build, findings_of_partsBuild hparts, hdrift, List.nil_append]
    have hvalue : (∃ d, (m.run s).1 = .ok d) ↔ (m.build s.scope).report = [] := by
      simp only [hrun, Built.result_eq_ok_iff, Built.report_eq_nil_iff]
    rw [hvalue, hreport, Report.ofViolations_eq_nil_iff,
      FlatMessage.numberingViolations_eq_nil_iff]
  · intro number
    rw [hrun, Built.ofResult_result, report_build, sharing_findings]

/-- Two choices beside two fields: with numbers of their own the message builds; when both take the
number of a field, the parts build, the message does not, and both are named beside the field. -/
theorem builds_iff_wellNumbered_taken :
    let file : File := { name := "lamp.proto" }
    let s : Session := { scope := file.scope (Registry.ofFiles []).1 "" }
    let flag (name : String) : Field := .leaf { head := { name }, type := .bool {} }
    let lamp (dim hot : Nat) : Message := {
      name := "Lamp", fields := [(2, flag "lit"), (1, flag "on")],
      oneofs := [
        { name := "state", choices := [(dim, flag "dim"), (4, flag "off"), (hot, flag "hot")] }] }
    ((lamp 3 5).drift = [] ∧ (lamp 3 5).PartsBuild s.scope ∧ (lamp 3 5).WellNumbered ∧
        ∃ d, ((lamp 3 5).run s).1 = .ok d) ∧
      (lamp 1 1).drift = [] ∧ (lamp 1 1).PartsBuild s.scope ∧ ¬ (lamp 1 1).WellNumbered ∧
        (¬ ∃ d, ((lamp 1 1).run s).1 = .ok d) ∧
        (Report.ofResult ((lamp 1 1).run s).1).sharing 1 = [("on", "dim"), ("on", "hot")] := by
  intro file s flag lamp
  have hparts : (lamp 3 5).PartsBuild s.scope ∧ (lamp 1 1).PartsBuild s.scope :=
    ⟨⟨by decide, by decide, nofun, nofun⟩, by decide, by decide, nofun, nofun⟩
  have hwell : (lamp 3 5).WellNumbered :=
    ⟨by decide, by decide, by decide, nofun, nofun, nofun⟩
  have hill : ¬ (lamp 1 1).WellNumbered := fun h => absurd h.numbers_nodup (by decide)
  have hbuilds := (builds_iff_wellNumbered (lamp 3 5) s).1 rfl hparts.1
  obtain ⟨hfails, hshared⟩ := builds_iff_wellNumbered (lamp 1 1) s
  exact ⟨⟨rfl, hparts.1, hwell, hbuilds.2 hwell⟩, rfl, hparts.2, hill,
    fun h => hill ((hfails rfl hparts.2).1 h), hshared 1⟩

end Message
end WireSchema

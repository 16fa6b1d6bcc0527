import WireSchema.Proofs.FieldNumbers

/-!
# Ignored names

A message that ignores a name reports no drift of that name, and otherwise what it reported before.
The check asks about ignored names on the side of the host before it looks for a schema field, and
on the side of the schema after it has looked for a host field. Each of its violations carries the
name that it was asked about, so leaving a name out beforehand is dropping its violations afterwards
(`flatMap_filter_of_key`).

* `FlatMessage.drift_ignoring`: the check of one message, with and without one more ignored name.
* `Message.add_ignoring`: ignoring a name commutes with every line of the declaration.
* `Message.ignore_suppresses`: the whole build, with its report, its descriptor and its imports.
-/

namespace WireSchema

/-! ## The names of drift -/

/-- The name that has drifted. -/
def Violation.driftName? : Violation → Option String
  | missingSchemaField name | missingHostField name | hostTypeMismatch name _ _
  | ambiguousHostField name _ => some name
  | _ => none

/-- A message reports at its own place that this name has drifted. -/
def Finding.isDriftOf (name : String) (f : Finding) : Bool :=
  f.path.isEmpty && f.violation.driftName? == some name

/-- Entries are left out by their key before they are looked at, or what was found about them is
dropped by the same key. -/
theorem flatMap_filter_of_key {α β : Type} {find : α → List β} {key : α → String}
    {key? : β → Option String} (hkey : ∀ a, ∀ b ∈ find a, key? b = some (key a)) (name : String)
    (l : List α) :
    (l.filter (key · != name)).flatMap find = (l.flatMap find).filter (key? · != some name) := by
  induction l with
  | nil => rfl
  | cons a l ih =>
    rw [List.flatMap_cons, List.filter_append, ← ih]
    by_cases h : key a = name
    · have hdropped : (find a).filter (key? · != some name) = [] :=
        List.filter_eq_nil_iff.2 fun b hb => by simp [hkey a b hb, h]
      rw [hdropped, List.filter_cons_of_neg (by simp [h]), List.nil_append]
    · have hkept : (find a).filter (key? · != some name) = find a :=
        List.filter_eq_self.2 fun b hb => by simp [hkey a b hb, h]
      rw [hkept, List.filter_cons_of_pos (by simp [h]), List.flatMap_cons]

namespace StringSet

theorem insert_comm (s : StringSet) (p q : String) :
    (s.insert p).insert q = (s.insert q).insert p :=
  ext fun r => by simp only [mem_insert, or_left_comm]

theorem insert_idem (s : StringSet) (p : String) : (s.insert p).insert p = s.insert p :=
  ext fun r => by simp only [mem_insert, or_self_left]

theorem contains_insert (s : StringSet) (p q : String) :
    (s.insert p).contains q = (q == p || s.contains q) := by
  rw [Bool.eq_iff_iff, Bool.or_eq_true, beq_iff_eq, contains_iff_mem, contains_iff_mem, mem_insert]

end StringSet

/-! ## The check -/

namespace FlatMessage

variable (m : FlatMessage) (name : String)

/-- The message with one more ignored name. -/
def ignoring : FlatMessage := { m with ignored := m.ignored.insert name }

theorem driftName_of_hostFieldDrift (expected : List (String × String)) (f : HostField) :
    ∀ v ∈ hostFieldDrift expected f, v.driftName? = some f.name := by
  unfold hostFieldDrift
  split
  · simp [Violation.driftName?]
  · split <;> simp [Violation.driftName?]
  · simp [Violation.driftName?]

/-- What is checked is what was checked before, less the name. -/
theorem filter_ignoring {α : Type} (key : α → String) (l : List α) :
    (l.filter fun a => !(m.ignoring name).ignored.contains (key a)) =
      (l.filter fun a => !m.ignored.contains (key a)).filter (key · != name) := by
  rw [List.filter_filter]
  refine List.filter_congr fun a _ => ?_
  rw [ignoring, StringSet.contains_insert, Bool.not_or]
  rfl

theorem driftFrom_ignoring (host : HostRecord) :
    (m.ignoring name).driftFrom host =
      (m.driftFrom host).filter (·.driftName? != some name) := by
  have hsplit (ignored : StringSet) (names : List String) :
      (names.filter fun n => (host.get? n).isNone && !ignored.contains n) =
        (names.filter fun n => (host.get? n).isNone).filter fun n => !ignored.contains n := by
    rw [List.filter_filter]
    exact List.filter_congr fun n _ => Bool.and_comm _ _
  have hleft (names : List String) :
      (names.filter fun n => !(m.ignoring name).ignored.contains n) =
        (names.filter fun n => !m.ignored.contains n).filter (· != name) :=
    m.filter_ignoring name id names
  have hmissing (names : List String) :
      (names.filter (· != name)).map Violation.missingHostField =
        (names.map Violation.missingHostField).filter (·.driftName? != some name) := by
    rw [List.filter_map]
    rfl
  have hexpected : (m.ignoring name).expectedTypes = m.expectedTypes := rfl
  rw [driftFrom, driftFrom, List.filter_append, hsplit, hsplit, hexpected, hleft, hmissing,
    filter_ignoring, flatMap_filter_of_key (driftName_of_hostFieldDrift m.expectedTypes)]

theorem drift_ignoring :
    (m.ignoring name).drift = m.drift.filter (·.driftName? != some name) := by
  have hhost : (m.ignoring name).host = m.host := rfl
  have hskip : (m.ignoring name).skipHostCheck = m.skipHostCheck := rfl
  rw [drift, drift, hhost, hskip]
  cases m.host with
  | none => rfl
  | some host =>
    cases m.skipHostCheck with
    | true => rfl
    | false => exact m.driftFrom_ignoring name host

/-- Numbers and names are checked apart from drift. -/
theorem driftName_numberingViolations :
    m.numberingViolations.filterMap Violation.driftName? = [] := by
  have hnumber (earlier : List (Nat × String)) (n : Nat) (slot : String) :
      (numberViolations earlier n slot).filterMap Violation.driftName? = [] := by
    unfold numberViolations
    cases holder? earlier n <;> split <;> rfl
  have hslots (slots : List (Nat × String)) : ∀ earlier,
      (slotViolations earlier slots).filterMap Violation.driftName? = [] := by
    induction slots with
    | nil => exact fun _ => rfl
    | cons x rest ih =>
      intro earlier
      simp only [slotViolations, List.filterMap_append, hnumber, ih, List.nil_append,
        List.append_nil]
      split <;> rfl
  have hrange (r : ReservedRange) :
      (rangeViolations m.slots r).filterMap Violation.driftName? = [] := by
    unfold rangeViolations
    split
    · rfl
    · simp [Violation.driftName?]
  have hreserved (n : String) :
      (reservedNameViolations m.slots n).filterMap Violation.driftName? = [] := by
    unfold reservedNameViolations
    split <;> rfl
  simp [numberingViolations, List.filterMap_flatMap, hslots, hrange, hreserved]

theorem filter_numberingViolations :
    m.numberingViolations.filter (·.driftName? != some name) = m.numberingViolations :=
  List.filter_eq_self.2 fun v hv => by
    have hnone := List.filterMap_eq_nil_iff.1 m.driftName_numberingViolations v hv
    simp [hnone]

end FlatMessage

/-! ## Building -/

namespace Report

/-- What is reported beneath scopes is no drift of the message around them. -/
theorem filter_flatMap_under {α : Type} (name : String) (l : List α) (r : α → Report)
    (scope : α → String) :
    (l.flatMap fun a => (r a).under (scope a)).filter (!·.isDriftOf name) =
      l.flatMap fun a => (r a).under (scope a) :=
  List.filter_eq_self.2 fun f hf => by
    obtain ⟨a, -, hf⟩ := List.mem_flatMap.1 hf
    obtain ⟨g, -, rfl⟩ := List.mem_map.1 hf
    rfl

theorem filter_ofViolations (name : String) (vs : List Violation) :
    (ofViolations vs).filter (!·.isDriftOf name) =
      ofViolations (vs.filter (·.driftName? != some name)) := by
  rw [ofViolations, List.filter_map]
  rfl

end Report

namespace Message

variable (m : Message) (name : String)

/-- The message with one more ignored name. -/
def ignoring : Message := { m with toFlatMessage := m.toFlatMessage.ignoring name }

/-- Ignoring a name commutes with every line of a declaration, another ignored name included. -/
theorem add_ignoring (line : Item) :
    (m.ignoring name).add line = (m.add line).map (ignoring · name) := by
  cases line with
  | ignore other =>
    have hswap := m.ignored.insert_comm name other
    simp only [add, ignoring, FlatMessage.ignoring, hswap]
    rfl
  | reservedName n =>
    simp only [add]
    cases Name.identifier "reserved" n <;> rfl
  | option e =>
    have hoptions : (m.ignoring name).options = m.options := rfl
    simp only [add, hoptions]
    cases e.applyChecked m.options <;> rfl
  | _ => rfl

theorem findings_ignoring (s : Scope) :
    (m.ignoring name).findings s = (m.findings s).filter (!·.isDriftOf name) := by
  obtain ⟨m, nested⟩ := m
  have hignoring : ignoring ⟨m, nested⟩ name = ⟨m.ignoring name, nested⟩ := rfl
  have hnumbering : (m.ignoring name).numberingViolations = m.numberingViolations := rfl
  rw [hignoring, findings, findings, findingsAll_eq, findingsAll_eq, FlatMessage.enumFindings,
    FlatMessage.enumFindings]
  simp only [List.filter_append, Report.filter_ofViolations, Report.filter_flatMap_under,
    FlatMessage.drift_ignoring, FlatMessage.filter_numberingViolations, hnumbering]
  rfl

/-- **Ignoring a name suppresses exactly its drift.** The check of the message finds what it found
before, less what it finds about the name. Ignoring commutes with every line of the declaration, so
with another ignored name, and doing it again changes nothing. A build reports what it reported
before, less that drift; a message that built builds the same descriptor; and the session goes on as
it did. -/
theorem ignore_suppresses :
    m.add (.ignore name) = .ok (m.ignoring name) ∧
      (m.ignoring name).drift = m.drift.filter (·.driftName? != some name) ∧
      (∀ line, (m.ignoring name).add line = (m.add line).map (ignoring · name)) ∧
      (m.ignoring name).ignoring name = m.ignoring name ∧
      ∀ s : Session,
        Report.ofResult ((m.ignoring name).run s).1 =
          (Report.ofResult (m.run s).1).filter (!·.isDriftOf name) ∧
        (∀ d, (m.run s).1 = .ok d → ((m.ignoring name).run s).1 = .ok d) ∧
        ((m.ignoring name).run s).2 = (m.run s).2 := by
  have hreport (s : Scope) : ((m.ignoring name).build s).report =
      (m.build s).report.filter (!·.isDriftOf name) := by
    rw [report_build, report_build, findings_ignoring]
  have himports (s : Scope) : ((m.ignoring name).build s).imports = (m.build s).imports := by
    obtain ⟨m, nested⟩ := m
    simp only [ignoring, build]
    rfl
  have hvalue (s : Scope) (d : MessageDescriptor) (hd : (m.build s).value = some d) :
      ((m.ignoring name).build s).value = some d := by
    have hclear : (m.build s).report = [] := Built.report_of_value hd
    have hstill : ((m.ignoring name).build s).report = [] := by rw [hreport, hclear]; rfl
    obtain ⟨m, nested⟩ := m
    rw [← hd, yields_build m nested s hclear]
    exact yields_build (m.ignoring name) nested s hstill
  have hagain : (m.ignoring name).ignoring name = m.ignoring name := by
    simp only [ignoring, FlatMessage.ignoring, StringSet.insert_idem]
  refine ⟨rfl, m.drift_ignoring name, m.add_ignoring name, hagain, fun s => ?_⟩
  rw [run_eq, run_eq]
  simp only [Built.record, Built.ofResult_result, Built.result_eq_ok_iff]
  exact ⟨hreport _, hvalue _, by rw [himports]⟩

/-- A name that the schema has twice is ignored where other names have drifted too; and a name is
ignored that has not drifted, in a message that builds. -/
theorem ignore_suppresses_ambiguous :
    let text (name : String) : Field := .leaf { head := { name }, type := .string {} }
    let user : Message := {
      name := "User", fields := [(1, text "id"), (2, text "tag"), (3, text "tag"), (4, text "note")]
      host := some ⟨"shop::User", [⟨"id", "i64"⟩, ⟨"age", "i32"⟩, ⟨"tag", "String"⟩]⟩ }
    let item : Message := {
      name := "Item", fields := [(1, text "sku")],
      host := some ⟨"shop::Item", [⟨"sku", "String"⟩]⟩ }
    let file : File := { name := "shop.proto" }
    let s : Session := { scope := file.scope ∅ "v.proto" }
    user.drift = [.hostTypeMismatch "id" "i64" "String", .missingSchemaField "age",
        .ambiguousHostField "tag" 2, .missingHostField "note"] ∧
      (user.ignoring "tag").drift = [.hostTypeMismatch "id" "i64" "String",
        .missingSchemaField "age", .missingHostField "note"] ∧
      ∃ d, (item.run s).1 = .ok d ∧ ((item.ignoring "sku").run s).1 = .ok d := by
  intro text user item file s
  have hdrift : user.drift = [.hostTypeMismatch "id" "i64" "String", .missingSchemaField "age",
      .ambiguousHostField "tag" 2, .missingHostField "note"] := by decide +kernel
  obtain ⟨-, hignored, -⟩ := ignore_suppresses user "tag"
  obtain ⟨-, -, -, -, hruns⟩ := ignore_suppresses item "sku"
  obtain ⟨d, hd⟩ := exists_ok_of_isSome (x := (item.run s).1) (by decide +kernel)
  refine ⟨hdrift, ?_, d, hd, (hruns s).2.1 d hd⟩
  rw [hignored, hdrift]
  decide +kernel

end Message

end WireSchema

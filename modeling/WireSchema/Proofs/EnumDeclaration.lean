import WireSchema.Proofs.EnumValues
import WireSchema.Proofs.OptionCalls
import WireSchema.Proofs.StableSort
import WireSchema.Session.File

/-!
# Enums line by line

What an enum says is what its lines said, whatever their order (`Enum.DeclaredBy`, a step for each
line and then the run). So the checks can be read off the lines, and so can the option that permits
aliases in the written enum, which the checks do not look at.

* `Enum.builds_iff_soundLines`: which enums build, and the order that their values come in.
* `Enum.aliases_permitted_iff`: when aliases come with the option that permits them.
-/

namespace WireSchema

def EnumValue.descriptor (v : EnumValue) : EnumValueDescriptor := ⟨v.name, v.number, v.options⟩

/-- The options permit several names for one number where the enum is written. -/
structure EnumDescriptor.PermitsAliases (d : EnumDescriptor) : Prop where
  permitted : ⟨"allow_alias", .bool true⟩ ∈ d.options
  alone : ∀ o ∈ d.options, o.name = "allow_alias" → o.value = .bool true

namespace Enum

variable {name : String} {lines : List Enum.Item} {e e' : Enum} {d : EnumDescriptor} {s : Session}

/-! ## Lines -/

/-- An enum of this name after all lines. -/
def declare (name : String) (lines : List Item) : Except InvalidName Enum := do
  lines.foldlM add (← ofName name)

/-- The values that the lines declare, in order. -/
def declaredValues (lines : List Item) : List EnumValue :=
  lines.filterMap fun
    | .value v => some v
    | _ => none

theorem mem_declaredValues {v : EnumValue} : v ∈ declaredValues lines ↔ .value v ∈ lines := by
  unfold declaredValues
  rw [List.mem_filterMap]
  constructor
  · rintro ⟨line, hline, hv⟩
    cases line <;> simp_all
  · exact fun h => ⟨_, h, rfl⟩

/-- The enum says what the lines said, apart from options. -/
structure DeclaredBy (lines : List Item) (e : Enum) : Prop where
  values : e.values = declaredValues lines
  allowAlias : e.allowAlias = true ↔ .allowAlias ∈ lines
  ranges : ∀ r, r ∈ e.reservedRanges ↔ .reserved r ∈ lines
  names : ∀ n, n ∈ e.reservedNames ↔ .reservedName n ∈ lines

/-- The step: one more line. -/
theorem DeclaredBy.add {line : Item} (h : e.DeclaredBy lines) (hadd : e.add line = .ok e') :
    e'.DeclaredBy (lines ++ [line]) := by
  obtain ⟨hvalues, halias, hranges, hnames⟩ := h
  cases line with
  | value v =>
    cases hadd
    constructor <;> simp [declaredValues, hvalues, halias, hranges, hnames]
  | allowAlias =>
    cases hadd
    constructor <;> simp [declaredValues, hvalues, hranges, hnames]
  | reserved r =>
    cases hadd
    constructor <;> simp [declaredValues, hvalues, halias, hranges, hnames]
  | reservedName n =>
    obtain ⟨_, -, hadd⟩ := exists_of_bind_ok hadd
    cases hadd
    constructor <;> simp [declaredValues, hvalues, halias, hranges, hnames]
  | option o =>
    obtain ⟨options, -, hadd⟩ := exists_of_bind_ok hadd
    cases hadd
    constructor <;> simp [declaredValues, hvalues, halias, hranges, hnames]

/-- The run: all lines, on an enum that has just a name. -/
theorem declaredBy_of_declare (h : declare name lines = .ok e) : e.DeclaredBy lines := by
  obtain ⟨start, hstart, hrun⟩ := exists_of_bind_ok h
  obtain ⟨_, -, hstart⟩ := exists_of_bind_ok hstart
  cases hstart
  refine foldlM_induction (fun _ _ _ _ h hadd => h.add hadd) ?_ hrun
  constructor <;> simp [declaredValues]

theorem options_of_declare (h : declare name lines = .ok e) :
    e.options = (optionHolder.edits lines).foldl OptionEdit.apply [] := by
  obtain ⟨start, hstart, hrun⟩ := exists_of_bind_ok h
  obtain ⟨_, -, hstart⟩ := exists_of_bind_ok hstart
  cases hstart
  exact OptionHolder.options_of_run (h := optionHolder) hrun

/-! ## Checks -/

/-- What the checks ask for, by the lines. -/
structure SoundLines (lines : List Item) : Prop where
  zero : ∃ v, .value v ∈ lines ∧ v.number = 0
  names_nodup : ((declaredValues lines).map EnumValue.name).Nodup
  numbers_nodup : .allowAlias ∉ lines → ((declaredValues lines).map EnumValue.number).Nodup
  ranges : ∀ r, .reserved r ∈ lines → r.first ≤ r.last ∧
    ∀ v, .value v ∈ lines → ¬ (r.first ≤ v.number ∧ v.number ≤ r.last)
  names_free : ∀ n, .reservedName n ∈ lines → ∀ v, .value v ∈ lines → v.name ≠ n

theorem DeclaredBy.sound_iff (h : e.DeclaredBy lines) : e.Sound ↔ SoundLines lines := by
  obtain ⟨hvalues, halias, hranges, hnames⟩ := h
  have hflag : e.allowAlias = false ↔ .allowAlias ∉ lines := by
    rw [← halias, Bool.not_eq_true]
  constructor
  · rintro ⟨⟨v, hv, hzero⟩, hnodup, hnumbers, hclear, hfree⟩
    rw [hvalues] at hv hnodup hnumbers hclear hfree
    refine ⟨⟨v, mem_declaredValues.1 hv, hzero⟩, hnodup, fun ha => hnumbers (hflag.2 ha), ?_, ?_⟩
    · intro r hr
      obtain ⟨hle, hout⟩ := hclear r ((hranges r).2 hr)
      exact ⟨hle, fun w hw => hout w (mem_declaredValues.2 hw)⟩
    · intro n hn w hw hsame
      exact hfree n ((hnames n).2 hn) (List.mem_map.2 ⟨w, mem_declaredValues.2 hw, hsame⟩)
  · rintro ⟨⟨v, hv, hzero⟩, hnodup, hnumbers, hclear, hfree⟩
    refine ⟨⟨v, ?_, hzero⟩, ?_, fun ha => ?_, fun r hr => ?_, fun n hn hmem => ?_⟩ <;>
      rw [hvalues] at *
    · exact mem_declaredValues.2 hv
    · exact hnodup
    · exact hnumbers (hflag.1 ha)
    · obtain ⟨hle, hout⟩ := hclear r ((hranges r).1 hr)
      exact ⟨hle, fun w hw => hout w (mem_declaredValues.1 hw)⟩
    · obtain ⟨w, hw, hsame⟩ := List.mem_map.1 hmem
      exact hfree n ((hnames n).1 hn) w (mem_declaredValues.1 hw) hsame

theorem run_eq_ok_iff : (e.run s).1 = .ok d ↔ e.Sound ∧ d = e.descriptor s.scope := by
  rw [← violations_eq_nil_iff, ← Report.ofViolations_eq_nil_iff]
  simp only [run, Report.toExcept, List.isEmpty_iff]
  split
  · next h => simp [h, eq_comm]
  · next h => simp [h]

/-! ## Order -/

theorem precedes_iff {a b : EnumValueDescriptor} : precedes a b = true ↔
    a.number = 0 ∨ b.number ≠ 0 ∧ a.number ≤ b.number := by
  unfold precedes
  by_cases ha : a.number = 0 <;> by_cases hb : b.number = 0 <;> simp [ha, hb]

/-- The values as declared, but with those numbered zero first and the others in ascending order;
values of one number keep the order that they were declared in. -/
structure ZeroFirst (declared values : List EnumValueDescriptor) : Prop where
  perm : values.Perm declared
  split : ∃ zeros rest, values = zeros ++ rest ∧ (∀ v ∈ zeros, v.number = 0) ∧
    (∀ v ∈ rest, v.number ≠ 0) ∧ rest.Pairwise fun a b => a.number ≤ b.number
  stable : ∀ n, values.filter (·.number == n) = declared.filter (·.number == n)

theorem exists_split_of_pairwise {l : List EnumValueDescriptor}
    (h : l.Pairwise fun a b => precedes a b = true) :
    ∃ zeros rest, l = zeros ++ rest ∧ (∀ v ∈ zeros, v.number = 0) ∧
      (∀ v ∈ rest, v.number ≠ 0) ∧ rest.Pairwise fun a b => a.number ≤ b.number := by
  induction l with
  | nil => exact ⟨[], [], by simp⟩
  | cons a l ih =>
    obtain ⟨ha, hl⟩ := List.pairwise_cons.1 h
    obtain ⟨zeros, rest, rfl, hzeros, hrest, hascending⟩ := ih hl
    by_cases hzero : a.number = 0
    · exact ⟨a :: zeros, rest, rfl, List.forall_mem_cons.2 ⟨hzero, hzeros⟩, hrest, hascending⟩
    · -- a value of another number goes before no zero
      have hbefore : ∀ b ∈ zeros ++ rest, b.number ≠ 0 ∧ a.number ≤ b.number :=
        fun b hb => (precedes_iff.1 (ha b hb)).resolve_left hzero
      obtain rfl : zeros = [] := List.eq_nil_iff_forall_not_mem.2 fun z hz =>
        (hbefore z (List.mem_append_left _ hz)).1 (hzeros z hz)
      exact ⟨[], a :: rest, rfl, by simp, List.forall_mem_cons.2 ⟨hzero, hrest⟩,
        List.pairwise_cons.2 ⟨fun b hb => (hbefore b hb).2, hascending⟩⟩

theorem zeroFirst_stableSort (l : List EnumValueDescriptor) :
    ZeroFirst l (stableSort precedes l) where
  perm := stableSort_perm _ l
  split := exists_split_of_pairwise (pairwise_stableSort sortsBy_precedes l)
  stable n := filter_stableSort (fun a b ha hb => by
    rw [beq_iff_eq] at ha hb
    rw [precedes_iff]
    omega) l

/-- **Which enums build.** An enum builds just when its lines declare a value numbered zero, the
names are distinct, the numbers are distinct unless aliases are allowed, and no reserved range is
inverted or holds a number and no reserved name is one of a value. It has the values that the lines
declare, with zero first. -/
theorem builds_iff_soundLines (h : declare name lines = .ok e) (s : Session) :
    ((∃ d, (e.run s).1 = .ok d) ↔ SoundLines lines) ∧
      ∀ d, (e.run s).1 = .ok d →
        ZeroFirst ((declaredValues lines).map EnumValue.descriptor) d.values := by
  have hdeclared := declaredBy_of_declare h
  simp only [run_eq_ok_iff, hdeclared.sound_iff, exists_and_left, exists_eq, and_true, true_and]
  rintro d ⟨-, rfl⟩
  rw [← hdeclared.values]
  exact zeroFirst_stableSort _

/-- Two names for zero, a number below it and a number that is used again far from its first use;
without the line that allows aliases the same enum does not build. -/
theorem builds_iff_soundLines_aliases :
    let value (name : String) (number : Int) : Item := .value { name, number }
    let lines (permission : List Item) : List Item := [value "SEVEN" 7, value "BELOW" (-3),
      value "NONE" 0, .reserved ⟨2, 4⟩, value "ZERO" 0, .reservedName "OLD", value "LAST" 7]
        ++ permission
    let file : File := { name := "mode.proto" }
    let s : Session := { scope := file.scope ∅ "v.proto" }
    (∃ e d, declare "Mode" (lines [.allowAlias]) = .ok e ∧ SoundLines (lines [.allowAlias]) ∧
      (e.run s).1 = .ok d ∧
      d.values.map EnumValueDescriptor.name = ["NONE", "ZERO", "BELOW", "SEVEN", "LAST"] ∧
      ZeroFirst ((declaredValues (lines [.allowAlias])).map EnumValue.descriptor) d.values) ∧
    ∃ e, declare "Mode" (lines []) = .ok e ∧ ¬ SoundLines (lines []) ∧
      ¬ ∃ d, (e.run s).1 = .ok d := by
  intro value lines file s
  let values : List EnumValue := [{ name := "SEVEN", number := 7 },
    { name := "BELOW", number := -3 }, { name := "NONE", number := 0 },
    { name := "ZERO", number := 0 }, { name := "LAST", number := 7 }]
  let strict : Enum := {
    name := "Mode", values, reservedRanges := [⟨2, 4⟩], reservedNames := ["OLD"] }
  let loose : Enum := { strict with
    allowAlias := true, options := [⟨"allow_alias", .bool true⟩] }
  have hloose : declare "Mode" (lines [.allowAlias]) = .ok loose := rfl
  have hstrict : declare "Mode" (lines []) = .ok strict := rfl
  obtain ⟨hbuilds, horder⟩ := builds_iff_soundLines hloose s
  have hrun : (loose.run s).1 = .ok (loose.descriptor s.scope) := rfl
  have hunsound : ¬ SoundLines (lines []) := fun h =>
    absurd (h.numbers_nodup (by simp [lines, value])) (by decide)
  exact ⟨⟨loose, _, hloose, hbuilds.1 ⟨_, hrun⟩, hrun, by decide, horder _ hrun⟩, strict, hstrict,
    hunsound, fun h => hunsound ((builds_iff_soundLines hstrict s).1.1 h)⟩

/-! ## Aliases -/

/-- **Aliases and their option.** Where two values of an enum that builds share a number, the lines
allow aliases. The written enum permits them just when no other value of the option stands after all
lines: a later option call may take the permission back, and the checks do not notice. -/
theorem aliases_permitted_iff (h : declare name lines = .ok e) (hrun : (e.run s).1 = .ok d)
    (hshared : ¬ (d.values.map EnumValueDescriptor.number).Nodup) :
    .allowAlias ∈ lines ∧ (d.PermitsAliases ↔
      ∀ v, OptionEdit.Stands "allow_alias" v (optionHolder.edits lines) → v = .bool true) := by
  have hdeclared := declaredBy_of_declare h
  obtain ⟨hsound, rfl⟩ := run_eq_ok_iff.1 hrun
  have hnumbers : ((e.descriptor s.scope).values.map EnumValueDescriptor.number).Perm
      (e.values.map EnumValue.number) := by
    have hsorted := (stableSort_perm precedes (e.values.map EnumValue.descriptor)).map
      EnumValueDescriptor.number
    rw [List.map_map] at hsorted
    exact hsorted
  have hallowed : .allowAlias ∈ lines := by
    rw [← hdeclared.allowAlias, ← Bool.not_eq_false]
    exact fun hstrict => hshared (hnumbers.nodup_iff.2 (hsound.numbers_nodup hstrict))
  have hstands (v : Literal) : OptionEdit.Stands "allow_alias" v (optionHolder.edits lines) ↔
      ⟨"allow_alias", v⟩ ∈ e.options := by
    rw [options_of_declare h, ← OptionEdit.mem_valuesOf_foldl_iff, OptionEdit.mem_valuesOf_iff]
  refine ⟨hallowed, fun hpermits v hv => ?_, fun htrue => ⟨?_, fun o ho hname => ?_⟩⟩
  · exact hpermits.alone _ ((hstands v).1 hv) rfl
  · -- some value stands, as the line that allows aliases assigns one
    have hassigned : aliasOption ∈ optionHolder.edits lines :=
      List.mem_filterMap.2 ⟨.allowAlias, hallowed, rfl⟩
    obtain ⟨v, hv⟩ := OptionEdit.exists_stands hassigned
    exact htrue v hv ▸ (hstands v).1 hv
  · obtain ⟨n, v⟩ := o
    obtain rfl : n = "allow_alias" := hname
    exact htrue v ((hstands v).2 ho)

/-- The permission is taken back and then given again, between calls for another option. -/
theorem aliases_permitted_iff_again :
    let tag (v : String) : OptionEdit := .add "(acme.tag)" (.string v)
    let lines : List Item := [.value { name := "NONE", number := 0 }, .option (tag "a"),
      .allowAlias, .option (.assign "allow_alias" (.bool false)),
      .value { name := "ON", number := 1 }, .allowAlias,
      .value { name := "ENABLED", number := 1 }, .option (tag "b")]
    let file : File := { name := "mode.proto" }
    let s : Session := { scope := file.scope ∅ "v.proto" }
    ∃ e d, declare "Mode" lines = .ok e ∧ (e.run s).1 = .ok d ∧
      ¬ (d.values.map EnumValueDescriptor.number).Nodup ∧ .allowAlias ∈ lines ∧
      d.PermitsAliases := by
  intro tag lines file s
  let e : Enum := {
    name := "Mode", allowAlias := true, values := [{ name := "NONE", number := 0 },
      { name := "ON", number := 1 }, { name := "ENABLED", number := 1 }],
    options := [⟨"(acme.tag)", .string "a"⟩, ⟨"allow_alias", .bool true⟩,
      ⟨"(acme.tag)", .string "b"⟩] }
  have hnew : ofName "Mode" = .ok { name := "Mode" } := rfl
  have hallow : Name.isOptionName "allow_alias" = true := isOptionName_aliasOption
  have htag : Name.isOptionName "(acme.tag)" = true := by decide +kernel
  have hdeclare : declare "Mode" lines = .ok e := by
    simp [declare, hnew, lines, e, tag, add, OptionEdit.applyChecked_of_allowed, OptionEdit.name,
      hallow, htag, OptionEdit.apply, OptionEdit.assigned, aliasOption, bind, Except.bind, pure,
      Except.pure]
  have hrun : (e.run s).1 = .ok (e.descriptor s.scope) := rfl
  have hshared : ¬ ((e.descriptor s.scope).values.map EnumValueDescriptor.number).Nodup := by
    decide
  obtain ⟨hallowed, hpermits⟩ := aliases_permitted_iff hdeclare hrun hshared
  refine ⟨e, _, hdeclare, hrun, hshared, hallowed, hpermits.2 fun v hv => ?_⟩
  let before : List OptionEdit := [tag "a", aliasOption, .assign "allow_alias" (.bool false)]
  have hlast : OptionEntry.valuesOf "allow_alias"
      ((before ++ aliasOption :: [tag "b"]).foldl OptionEdit.apply []) = [.bool true] :=
    OptionEdit.valuesOf_foldl_of_last (by simp [tag]) []
  have hstanding : v ∈ [Literal.bool true] := hlast ▸ OptionEdit.mem_valuesOf_foldl_iff.2 hv
  exact List.mem_singleton.1 hstanding

/-- The permission is taken back after the aliases: the enum builds, and what is written forbids
them. -/
theorem aliases_forbidden :
    let lines : List Item := [.value { name := "NONE", number := 0 },
      .value { name := "ON", number := 1 }, .value { name := "ENABLED", number := 1 },
      .allowAlias, .option (.assign "allow_alias" (.bool false))]
    let file : File := { name := "mode.proto" }
    let s : Session := { scope := file.scope ∅ "v.proto" }
    ∃ e d, declare "Mode" lines = .ok e ∧ (e.run s).1 = .ok d ∧
      ¬ (d.values.map EnumValueDescriptor.number).Nodup ∧ ¬ d.PermitsAliases := by
  intro lines file s
  let e : Enum := {
    name := "Mode", allowAlias := true, values := [{ name := "NONE", number := 0 },
      { name := "ON", number := 1 }, { name := "ENABLED", number := 1 }],
    options := [⟨"allow_alias", .bool false⟩] }
  have hnew : ofName "Mode" = .ok { name := "Mode" } := rfl
  have hallow : Name.isOptionName "allow_alias" = true := isOptionName_aliasOption
  have hdeclare : declare "Mode" lines = .ok e := by
    simp [declare, hnew, lines, e, add, OptionEdit.applyChecked_of_allowed, OptionEdit.name,
      hallow, OptionEdit.apply, OptionEdit.assigned, aliasOption, bind, Except.bind, pure,
      Except.pure]
  have hrun : (e.run s).1 = .ok (e.descriptor s.scope) := rfl
  refine ⟨e, _, hdeclare, hrun, by decide, fun h => ?_⟩
  have hpermitted : (⟨"allow_alias", .bool true⟩ : OptionEntry) ∈ e.options := h.permitted
  simp [e] at hpermitted

end Enum

end WireSchema

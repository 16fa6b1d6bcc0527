import WireSchema.Proofs.HostTypes
import WireSchema.Proofs.Rearrangement

/-!
# What the check for drift decides

A message mirrors its host record when their fields match by name and type, apart from ignored
names. The check collects the expected types of regular fields and choices under their names, looks
at the host fields one by one, and then at the names that the record lacks.

* `Text.SameButSpace`: what it means that two type tags differ in white space only.
  `Text.stripBlanks_eq_iff`: that is what the check compares.
* `FlatMessage.Mirrors`: what the check stands for, by the fields of the message at their places.
* `FlatMessage.Mirrors.of_perm`: no order matters to it.
* `FlatMessage.drift_eq_nil_iff`: the check finds nothing just when the message mirrors its record,
  in whatever order either is written down.
-/

namespace WireSchema

/-! ## White space -/

namespace Text

/-- The code points of the Unicode property `White_Space`. -/
def whiteSpace : List Nat :=
  [9, 10, 11, 12, 13, 32, 133, 160, 5760, 8192, 8193, 8194, 8195, 8196, 8197, 8198, 8199, 8200,
    8201, 8202, 8232, 8233, 8239, 8287, 12288]

/-- Both texts have the same characters in the same order, white space apart. -/
inductive SameButSpace : List Char → List Char → Prop
  | nil : SameButSpace [] []
  | left {c : Char} {a b : List Char} (hc : c.toNat ∈ whiteSpace) (h : SameButSpace a b) :
      SameButSpace (c :: a) b
  | right {c : Char} {a b : List Char} (hc : c.toNat ∈ whiteSpace) (h : SameButSpace a b) :
      SameButSpace a (c :: b)
  | both {c : Char} {a b : List Char} (h : SameButSpace a b) : SameButSpace (c :: a) (c :: b)

theorem isBlank_iff {c : Char} : isBlank c = true ↔ c.toNat ∈ whiteSpace := by
  simp only [isBlank, CodeRun.anyHas, blankRuns, CodeRun.has, whiteSpace, List.any_cons,
    List.any_nil, Nat.mod_one, beq_self_eq_true, Bool.and_true, Bool.or_false, Bool.or_eq_true,
    Bool.and_eq_true, decide_eq_true_eq, List.mem_cons, List.not_mem_nil, or_false]
  omega

/-- What is left of a text are its characters that are no white space, in their order. -/
theorem toList_stripBlanks (s : String) :
    (stripBlanks s).toList = s.toList.filter (·.toNat ∉ whiteSpace) := by
  rw [stripBlanks, String.toList_ofList]
  refine List.filter_congr fun c _ => ?_
  rw [Bool.eq_iff_iff]
  simp [← Bool.not_eq_true, isBlank_iff]

theorem SameButSpace.of_filter_eq {a b : List Char}
    (h : a.filter (·.toNat ∉ whiteSpace) = b.filter (·.toNat ∉ whiteSpace)) : SameButSpace a b := by
  induction a generalizing b with
  | nil =>
    induction b with
    | nil => exact .nil
    | cons d b ih =>
      by_cases hd : d.toNat ∈ whiteSpace
      · exact .right hd (ih (by simpa [hd] using h))
      · simp [hd] at h
  | cons c a iha =>
    by_cases hc : c.toNat ∈ whiteSpace
    · exact .left hc (iha (by simpa [hc] using h))
    -- `c` stands behind the white space at the beginning of `b`
    · induction b with
      | nil => simp [hc] at h
      | cons d b ihb =>
        by_cases hd : d.toNat ∈ whiteSpace
        · exact .right hd (ihb (by simpa [hd] using h))
        · obtain ⟨rfl, hrest⟩ : c = d ∧ _ := by simpa [hc, hd] using h
          exact .both (iha (by simpa using hrest))

theorem SameButSpace.filter_eq {a b : List Char} (h : SameButSpace a b) :
    a.filter (·.toNat ∉ whiteSpace) = b.filter (·.toNat ∉ whiteSpace) := by
  induction h with
  | nil => rfl
  | left hc _ ih => simpa [hc] using ih
  | right hc _ ih => simpa [hc] using ih
  | @both c _ _ _ ih => by_cases hc : c.toNat ∈ whiteSpace <;> simpa [hc] using ih

theorem stripBlanks_eq_iff {s t : String} :
    stripBlanks s = stripBlanks t ↔ SameButSpace s.toList t.toList := by
  rw [← String.toList_inj, toList_stripBlanks, toList_stripBlanks]
  exact ⟨SameButSpace.of_filter_eq, SameButSpace.filter_eq⟩

end Text

namespace FlatMessage

variable {m m' : FlatMessage} {host host' : HostRecord}

/-! ## Mirrored records -/

/-- The message matches the record: each host field that is not ignored has exactly one field of its
name, with its type apart from white space, and each field that is not ignored has a host field. -/
structure Mirrors (m : FlatMessage) (host : HostRecord) : Prop where
  matched : ∀ e ∈ host.fields, e.name ∉ m.ignored →
    ∃ y, m.placedFields.filter (·.field.name == e.name) = [y] ∧
      Text.SameButSpace y.expectedType.toList e.type.toList
  covered : ∀ y ∈ m.placedFields, y.field.name ∉ m.ignored → y.field.name ∈ host.names

theorem Mirrors.of_perm (h : m.Mirrors host) (hfields : m.placedFields.Perm m'.placedFields)
    (hhost : host.fields.Perm host'.fields) (hignored : m'.ignored = m.ignored) :
    m'.Mirrors host' := by
  constructor
  · intro e he hchecked
    obtain ⟨y, hone, htype⟩ := h.matched e (hhost.mem_iff.2 he) (hignored ▸ hchecked)
    refine ⟨y, List.singleton_perm.1 ?_ |>.symm, htype⟩
    exact hone ▸ hfields.filter _
  · intro y hy hchecked
    have hname := h.covered y (hfields.mem_iff.2 hy) (hignored ▸ hchecked)
    exact (hhost.map HostField.name).mem_iff.1 hname

/-! ## The check -/

/-- One host field passes the check when one field of its name has its type. -/
theorem hostFieldDrift_eq_nil_iff {l : List PlacedField} {e : HostField} :
    hostFieldDrift (l.map fun x => (x.field.name, x.expectedType)) e = [] ↔
      ∃ y, l.filter (·.field.name == e.name) = [y] ∧
        Text.SameButSpace y.expectedType.toList e.type.toList := by
  have htypes : ((l.map fun x => (x.field.name, x.expectedType)).filter (·.1 == e.name)).map
      Prod.snd = (l.filter (·.field.name == e.name)).map PlacedField.expectedType := by
    rw [List.filter_map, List.map_map]
    rfl
  rw [hostFieldDrift, htypes]
  generalize l.filter (·.field.name == e.name) = named
  obtain _ | ⟨y, _ | ⟨z, rest⟩⟩ := named
  · simp
  · simp [sameType, ← Text.stripBlanks_eq_iff]
  · simp

/-- **The check finds nothing just when the message mirrors the record.** -/
theorem driftFrom_eq_nil_iff : m.driftFrom host = [] ↔ m.Mirrors host := by
  have hfound : hostFieldDrift m.expectedTypes =
      hostFieldDrift (m.placedFields.map fun x => (x.field.name, x.expectedType)) :=
    funext (hostFieldDrift_of_perm m.expectedTypes_perm.symm)
  have hnames : ∀ name, name ∈ (StringSet.ofList (m.expectedTypes.map Prod.fst)).toList ↔
      ∃ y ∈ m.placedFields, y.field.name = name := fun name => by
    rw [← StringSet.mem_def, StringSet.mem_ofList, ← (m.expectedTypes_perm.map Prod.fst).mem_iff]
    simp
  rw [driftFrom, List.append_eq_nil_iff, List.flatMap_eq_nil_iff, List.map_eq_nil_iff,
    List.filter_eq_nil_iff, hfound]
  constructor
  · rintro ⟨hfields, hmissing⟩
    refine ⟨fun e he hchecked => ?_, fun y hy hchecked => ?_⟩
    · exact hostFieldDrift_eq_nil_iff.1 <| hfields e <|
        List.mem_filter.2 ⟨he, StringSet.not_contains_iff.2 hchecked⟩
    · by_contra hlacking
      refine hmissing _ ((hnames _).2 ⟨y, hy, rfl⟩) ?_
      rw [Bool.and_eq_true, HostRecord.isNone_get?_iff, StringSet.not_contains_iff]
      exact ⟨hlacking, hchecked⟩
  · rintro ⟨hmatched, hcovered⟩
    refine ⟨fun e he => ?_, fun name hname hreported => ?_⟩
    · obtain ⟨he, hchecked⟩ := List.mem_filter.1 he
      exact hostFieldDrift_eq_nil_iff.2 (hmatched e he (StringSet.not_contains_iff.1 hchecked))
    · obtain ⟨y, hy, rfl⟩ := (hnames name).1 hname
      rw [Bool.and_eq_true, HostRecord.isNone_get?_iff, StringSet.not_contains_iff] at hreported
      exact hreported.1 (hcovered y hy hreported.2)

/-! ## Other orders -/

/-- The fields, the oneofs, the choices of each and the entries of the host record in another order.
-/
inductive Shuffled (m : FlatMessage) (host : HostRecord) : FlatMessage → Prop
  | intro {fields : List (Nat × Field)} {moved oneofs : List Oneof} {entries : List HostField}
      (hfields : m.fields.Perm fields) (hmoved : m.oneofs.Perm moved)
      (hchoices : List.Forall₂ Oneof.Reordered moved oneofs)
      (hentries : host.fields.Perm entries) :
    Shuffled m host { m with fields, oneofs, host := some { host with fields := entries } }

theorem byNumber_perm {l l' : List (Nat × Field)} (h : l.Perm l') :
    (byNumber l).Perm (byNumber l') :=
  ((stableSort_perm _ l).trans h).trans (stableSort_perm _ l').symm

theorem placedFields_perm_of_choices {oneofs oneofs' : List Oneof}
    (h : List.Forall₂ Oneof.Reordered oneofs oneofs') :
    let placed (o : Oneof) : List PlacedField :=
      (byNumber o.choices).map fun (n, f) => ⟨some o.name, n, f⟩
    (oneofs.flatMap placed).Perm (oneofs'.flatMap placed) := by
  intro placed
  induction h with
  | nil => exact .refl _
  | cons ho _ ih =>
    obtain ⟨hchoices⟩ := ho
    exact ((byNumber_perm hchoices).map _).append ih

namespace Shuffled

theorem placedFields_perm (h : m.Shuffled host m') : m.placedFields.Perm m'.placedFields := by
  obtain ⟨hfields, hmoved, hchoices, -⟩ := h
  exact ((byNumber_perm hfields).map _).append
    ((hmoved.flatMap_right _).trans (placedFields_perm_of_choices hchoices))

theorem exists_host (h : m.Shuffled host m') :
    ∃ host', m'.host = some host' ∧ host.fields.Perm host'.fields := by
  obtain ⟨-, -, -, hentries⟩ := h
  exact ⟨_, rfl, hentries⟩

theorem ignored_eq (h : m.Shuffled host m') : m'.ignored = m.ignored := by
  obtain ⟨-, -, -, -⟩ := h
  rfl

theorem skipHostCheck_eq (h : m.Shuffled host m') : m'.skipHostCheck = m.skipHostCheck := by
  obtain ⟨-, -, -, -⟩ := h
  rfl

end Shuffled

theorem drift_eq_driftFrom (hhost : m.host = some host) (hskip : m.skipHostCheck = false) :
    m.drift = m.driftFrom host := by
  simp only [drift, hhost, hskip, Bool.false_eq_true, if_false]

/-- **What the check decides.** The check of a bound message against its record, unless it is
skipped, finds nothing just when the message mirrors the record; and whether it does depends on none
of the orders in which fields, oneofs, choices and host fields are written down. -/
theorem drift_eq_nil_iff (hhost : m.host = some host) (hskip : m.skipHostCheck = false) :
    (m.drift = [] ↔ m.Mirrors host) ∧
      ∀ m', m.Shuffled host m' → (m'.drift = [] ↔ m.drift = []) := by
  rw [drift_eq_driftFrom hhost hskip, driftFrom_eq_nil_iff]
  refine ⟨.rfl, fun m' h => ?_⟩
  obtain ⟨host', hhost', hentries⟩ := h.exists_host
  rw [drift_eq_driftFrom hhost' (h.skipHostCheck_eq.trans hskip), driftFrom_eq_nil_iff]
  have hfields := h.placedFields_perm
  exact ⟨fun hm => hm.of_perm hfields.symm hentries.symm h.ignored_eq.symm,
    fun hm => hm.of_perm hfields hentries h.ignored_eq⟩

/-- A choice that was declared with presence, white space in a type tag and an ignored host field;
the same written down in another order; one name declared twice; and a field of another type. -/
theorem drift_eq_nil_iff_choices :
    let leaf (name : String) (optional : Bool) : Field :=
      .leaf { head := { name }, optional, type := .string {} }
    let host : HostRecord :=
      ⟨"shop::User", [⟨"id", "String"⟩, ⟨"cache", "Cache"⟩, ⟨"email", "Option<\tString >"⟩,
        ⟨"phone", "Option<String>"⟩]⟩
    let m : FlatMessage := {
      name := "User", host := some host, ignored := .ofList ["cache"],
      fields := [(1, leaf "id" false)], oneofs := [{
        name := "contact", choices := [(2, leaf "email" true), (3, leaf "phone" false)] }] }
    let m' : FlatMessage := { m with
      oneofs := [{
        name := "contact", choices := [(3, leaf "phone" false), (2, leaf "email" true)] }],
      host := some { host with fields := host.fields.reverse } }
    let twice : FlatMessage := { m with fields := m.fields ++ [(4, leaf "email" true)] }
    let retyped : FlatMessage := { m with fields := [(1, leaf "id" true)] }
    m.Mirrors host ∧ m.Shuffled host m' ∧ m'.drift = [] ∧ ¬ twice.Mirrors host ∧
      ¬ retyped.Mirrors host ∧
      retyped.drift = [.hostTypeMismatch "id" "String" "Option<String>"] := by
  intro leaf host m m' twice retyped
  obtain ⟨hmirrors, hshuffled⟩ := drift_eq_nil_iff (m := m) rfl rfl
  have hclear : m.drift = [] := by decide
  have hmoved : m.Shuffled host m' :=
    .intro (.refl _) (.refl _) (.cons (.intro (.swap _ _ _)) .nil) host.fields.reverse_perm.symm
  have hdrift : retyped.drift = [.hostTypeMismatch "id" "String" "Option<String>"] := by decide
  refine ⟨hmirrors.1 hclear, hmoved, (hshuffled m' hmoved).2 hclear, fun htwice => ?_,
    fun hretyped => ?_, hdrift⟩
  · exact absurd ((drift_eq_nil_iff (m := twice) rfl rfl).1.2 htwice) (by decide)
  · exact absurd ((drift_eq_nil_iff (m := retyped) rfl rfl).1.2 hretyped) (by simp [hdrift])

end FlatMessage

end WireSchema

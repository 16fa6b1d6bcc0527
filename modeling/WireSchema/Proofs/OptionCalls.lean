import Mathlib.Data.List.Induction
import WireSchema.Field.Edit
import WireSchema.File
import WireSchema.Proofs.Spelling

/-!
# Options after any calls

A singular call sets an option and a repeated call adds to it. After any sequence of them a name has
the value that the last singular call gave it, if there was one, and behind it what the repeated
calls added since.

* `OptionEdit.valuesOf_apply`: what one call does to the values of each name.
* `OptionEdit.valuesOf_foldl_of_unassigned`, `OptionEdit.mem_valuesOf_foldl_iff`: what a run of
  calls does, by induction on the calls.
* `OptionHolder`: a kind of declaration whose lines may be option calls. `Declarable` lists those of
  the library, and `OptionHolder.options_of_run` reads the options off the lines.
* `Declarable.options_of_calls`: the values of each name, and the place of a value that is set
  again.
-/

namespace WireSchema

/-- The values of the entries of this name, in order. -/
def OptionEntry.valuesOf (name : String) (options : List OptionEntry) : List Literal :=
  (options.filter (·.name == name)).map OptionEntry.value

open OptionEntry (valuesOf)

namespace OptionEdit

variable {name : String} {value : Literal} {options : List OptionEntry}

/-! ## One call -/

/-- How an assignment changes a list of options: the first entry of the name gets the value where it
stands, its other entries go, and the entries of other names stay as they are. -/
structure SetsInPlace (name : String) (value : Literal) (options options' : List OptionEntry) :
    Prop where
  others : options'.filter (·.name != name) = options.filter (·.name != name)
  replaced : ∀ before old after, options = before ++ ⟨name, old⟩ :: after →
    (∀ e ∈ before, e.name ≠ name) →
      options' = before ++ ⟨name, value⟩ :: after.filter (·.name != name)
  appended : (∀ e ∈ options, e.name ≠ name) → options' = options ++ [⟨name, value⟩]

theorem filter_assigned : (assigned name value options).filter (·.name != name) =
    options.filter (·.name != name) := by
  induction options with
  | nil => simp [assigned]
  | cons e es ih =>
    unfold assigned
    split
    · next h => simp [h]
    · rw [List.filter_cons, List.filter_cons, ih]

theorem assigned_of_absent (h : ∀ e ∈ options, e.name ≠ name) :
    assigned name value options = options ++ [⟨name, value⟩] := by
  induction options with
  | nil => rfl
  | cons e es ih =>
    obtain ⟨he, hes⟩ := List.forall_mem_cons.1 h
    rw [assigned, if_neg he, ih hes, List.cons_append]

theorem assigned_of_first {before after : List OptionEntry} (old : Literal)
    (h : ∀ e ∈ before, e.name ≠ name) :
    assigned name value (before ++ ⟨name, old⟩ :: after) =
      before ++ ⟨name, value⟩ :: after.filter (·.name != name) := by
  induction before with
  | nil => simp [assigned]
  | cons e es ih =>
    obtain ⟨he, hes⟩ := List.forall_mem_cons.1 h
    rw [List.cons_append, assigned, if_neg he, ih hes, List.cons_append]

theorem setsInPlace_assigned (name : String) (value : Literal) (options : List OptionEntry) :
    SetsInPlace name value options (assigned name value options) where
  others := filter_assigned
  replaced before old after hsplit hbefore := by rw [hsplit, assigned_of_first old hbefore]
  appended := assigned_of_absent

theorem valuesOf_assigned_self : valuesOf name (assigned name value options) = [value] := by
  induction options with
  | nil => simp [assigned, valuesOf]
  | cons e es ih =>
    unfold assigned
    split
    · simp [valuesOf, List.filter_filter]
    · next h =>
      unfold valuesOf at ih ⊢
      rwa [List.filter_cons_of_neg (by simpa using h)]

theorem valuesOf_assigned_other {other : String} (h : name ≠ other) :
    valuesOf other (assigned name value options) = valuesOf other options := by
  have hothers (l : List OptionEntry) :
      valuesOf other (l.filter (·.name != name)) = valuesOf other l := by
    unfold valuesOf
    rw [List.filter_filter]
    refine congrArg _ (List.filter_congr fun e _ => ?_)
    by_cases he : e.name = other
    · simp [he, h.symm]
    · simp [he]
  rw [← hothers, filter_assigned, hothers]

/-- A change with an allowed name is made. -/
theorem applyChecked_of_allowed {edit : OptionEdit} (h : Name.isOptionName edit.name = true)
    (options : List OptionEntry) : edit.applyChecked options = .ok (edit.apply options) := by
  rw [applyChecked, Name.option, if_pos h]
  rfl

/-- The step: an assignment leaves one value of its name, an addition one more. -/
theorem valuesOf_apply (name : String) (options : List OptionEntry) (edit : OptionEdit) :
    valuesOf name (edit.apply options) = match edit with
      | .assign n v => if n = name then [v] else valuesOf name options
      | .add n v => valuesOf name options ++ if n = name then [v] else [] := by
  cases edit with
  | add n v => by_cases h : n = name <;> simp [apply, valuesOf, h]
  | assign n v =>
    by_cases h : n = name
    · subst h
      simp only [apply, if_pos, valuesOf_assigned_self]
    · simp only [apply, if_neg h, valuesOf_assigned_other h]

theorem mem_valuesOf_iff : value ∈ valuesOf name options ↔ ⟨name, value⟩ ∈ options := by
  simp only [valuesOf, List.mem_map, List.mem_filter, beq_iff_eq]
  constructor
  · rintro ⟨e, ⟨he, rfl⟩, rfl⟩
    exact he
  · exact fun h => ⟨_, ⟨h, rfl⟩, rfl⟩

/-! ## Calls one after another -/

/-- The values that the additions to a name bring, in order. -/
def added (name : String) (edits : List OptionEdit) : List Literal :=
  edits.filterMap fun
    | .add n v => if n = name then some v else none
    | .assign _ _ => none

/-- Some call gives the name this value, and no assignment after it takes it away. -/
def Stands (name : String) (value : Literal) (edits : List OptionEdit) : Prop :=
  ∃ before edit after, edits = before ++ edit :: after ∧
    (edit = .assign name value ∨ edit = .add name value) ∧ ∀ v, .assign name v ∉ after

/-- Calls that do not assign the name add to what it has. -/
theorem valuesOf_foldl_of_unassigned {edits : List OptionEdit}
    (h : ∀ v, .assign name v ∉ edits) (options : List OptionEntry) :
    valuesOf name (edits.foldl apply options) = valuesOf name options ++ added name edits := by
  induction edits generalizing options with
  | nil => simp [added]
  | cons edit edits ih =>
    have hrest : ∀ v, .assign name v ∉ edits := fun v hv => h v (List.mem_cons_of_mem _ hv)
    rw [List.foldl_cons, ih hrest, valuesOf_apply]
    cases edit with
    | assign n v =>
      have hother : n ≠ name := fun hn => h v (hn ▸ List.mem_cons_self)
      simp [added, hother]
    | add n v => by_cases hn : n = name <;> simp [added, hn]

/-- The last assignment of a name clears what was there before. -/
theorem valuesOf_foldl_of_last {before after : List OptionEdit}
    (h : ∀ v, .assign name v ∉ after) (options : List OptionEntry) :
    valuesOf name ((before ++ .assign name value :: after).foldl apply options) =
      value :: added name after := by
  rw [List.foldl_append, List.foldl_cons, valuesOf_foldl_of_unassigned h, valuesOf_apply]
  simp

theorem stands_concat {edits : List OptionEdit} {edit : OptionEdit} :
    Stands name value (edits ++ [edit]) ↔ (edit = .assign name value ∨ edit = .add name value) ∨
      Stands name value edits ∧ ∀ v, edit ≠ .assign name v := by
  constructor
  · rintro ⟨before, giving, after, hsplit, hgiving, hafter⟩
    rcases List.eq_nil_or_concat' after with rfl | ⟨after, last, rfl⟩
    · obtain ⟨-, hlast⟩ := List.append_inj' hsplit rfl
      exact .inl (List.singleton_inj.1 hlast ▸ hgiving)
    · rw [← List.cons_append, ← List.append_assoc] at hsplit
      obtain ⟨hedits, hlast⟩ := List.append_inj' hsplit rfl
      obtain rfl := List.singleton_inj.1 hlast
      simp only [List.mem_append, List.mem_singleton, not_or] at hafter
      exact .inr ⟨⟨before, giving, after, hedits, hgiving, fun v => (hafter v).1⟩,
        fun v => Ne.symm (hafter v).2⟩
  · rintro (hgiving | ⟨⟨before, giving, after, rfl, hgiving, hafter⟩, hkept⟩)
    · exact ⟨edits, edit, [], rfl, hgiving, by simp⟩
    · exact ⟨before, giving, after ++ [edit], by simp, hgiving, by
        simpa using fun v => ⟨hafter v, (hkept v).symm⟩⟩

/-- A name that was ever assigned has a value. -/
theorem exists_stands {edits : List OptionEdit} (h : .assign name value ∈ edits) :
    ∃ v, Stands name v edits := by
  induction edits using List.reverseRecOn with
  | nil => simp at h
  | append_singleton edits edit ih =>
    by_cases hassigns : ∃ v, edit = .assign name v
    · obtain ⟨v, hv⟩ := hassigns
      exact ⟨v, stands_concat.2 (.inl (.inl hv))⟩
    · have hbefore : .assign name value ∈ edits := by
        refine (List.mem_append.1 h).resolve_right fun hlast => ?_
        exact hassigns ⟨value, (List.mem_singleton.1 hlast).symm⟩
      obtain ⟨v, hv⟩ := ih hbefore
      exact ⟨v, stands_concat.2 (.inr ⟨hv, fun w hw => hassigns ⟨w, hw⟩⟩)⟩

/-- The values of a name are those that stand after all calls. -/
theorem mem_valuesOf_foldl_iff {edits : List OptionEdit} :
    value ∈ valuesOf name (edits.foldl apply []) ↔ Stands name value edits := by
  induction edits using List.reverseRecOn with
  | nil => simp [valuesOf, Stands]
  | append_singleton edits edit ih =>
    rw [List.foldl_append, List.foldl_cons, List.foldl_nil, valuesOf_apply, stands_concat, ← ih]
    cases edit with
    | assign n v => by_cases hn : n = name <;> simp [hn, eq_comm (a := value)]
    | add n v => by_cases hn : n = name <;> simp [hn, eq_comm (a := value), or_comm]

end OptionEdit

/-! ## Declarations that hold options -/

/-- A kind of declaration that is made line by line, where some lines are option calls. Such a line
does to the options what its call does, if the name of the option is allowed, and the other lines
leave them alone. -/
structure OptionHolder where
  State : Type
  Line : Type
  add : State → Line → Except InvalidName State
  options : State → List OptionEntry
  edit? : Line → Option OptionEdit
  options_add : ∀ s l, (add s l).map options =
    match edit? l with
    | some e => e.applyChecked (options s)
    | none => (add s l).map fun _ => options s

namespace OptionHolder

variable {h : OptionHolder}

/-- The option calls among the lines. -/
def edits (h : OptionHolder) (lines : List h.Line) : List OptionEdit := lines.filterMap h.edit?

/-- The step: a line changes options as its call does. -/
theorem options_of_add {s s' : h.State} {l : h.Line} (hadd : h.add s l = .ok s') :
    h.options s' = (h.edits [l]).foldl OptionEdit.apply (h.options s) := by
  have hoptions := h.options_add s l
  rw [hadd] at hoptions
  cases hedit : h.edit? l with
  | none =>
    rw [hedit] at hoptions
    simpa [edits, hedit] using Except.ok.inj hoptions
  | some e =>
    rw [hedit] at hoptions
    obtain ⟨_, -, happly⟩ := exists_of_bind_ok hoptions.symm
    simp [edits, hedit, Except.ok.inj happly]

/-- The run: the options are those that the calls among the lines leave. -/
theorem options_of_run {lines : List h.Line} {start final : h.State}
    (hrun : lines.foldlM h.add start = .ok final) :
    h.options final = (h.edits lines).foldl OptionEdit.apply (h.options start) := by
  refine foldlM_induction (P := fun done s => h.options s =
    (h.edits done).foldl OptionEdit.apply (h.options start)) ?_ rfl hrun
  intro done l s s' hs hadd
  rw [options_of_add hadd, hs, ← List.foldl_append, edits, edits, edits, ← List.filterMap_append]

/-- An option call with an allowed name goes through. -/
theorem exists_add {l : h.Line} {e : OptionEdit} (hedit : h.edit? l = some e)
    (hname : Name.isOptionName e.name = true) (s : h.State) : ∃ s', h.add s l = .ok s' := by
  have hoptions : (h.add s l).map h.options = .ok (e.apply (h.options s)) := by
    rw [h.options_add, hedit]
    exact OptionEdit.applyChecked_of_allowed hname _
  cases hadd : h.add s l with
  | error x => rw [hadd] at hoptions; cases hoptions
  | ok s' => exact ⟨s', rfl⟩

theorem exists_run {lines : List h.Line}
    (hlines : ∀ l ∈ lines, ∃ e, h.edit? l = some e ∧ Name.isOptionName e.name = true) :
    ∀ s : h.State, ∃ s', lines.foldlM h.add s = .ok s' := by
  induction lines with
  | nil => exact fun s => ⟨s, rfl⟩
  | cons l lines ih =>
    intro s
    obtain ⟨⟨e, hedit, hname⟩, hrest⟩ := List.forall_mem_cons.1 hlines
    obtain ⟨next, hadd⟩ := exists_add hedit hname s
    obtain ⟨s', hrun⟩ := ih hrest next
    exact ⟨s', by rw [List.foldlM_cons, hadd]; exact hrun⟩

end OptionHolder

/-! ## The declarations of a schema -/

/-- What is read off a declaration after a step that may fail. -/
theorem map_bind_pure {ε α β γ : Type} (x : Except ε α) (f : α → β) (g : β → γ) :
    (x >>= fun a => pure (f a)).map g = x.map fun a => g (f a) := by cases x <;> rfl

theorem map_bind_pure_self {ε α β : Type} (x : Except ε α) {f : α → β} {g : β → α}
    (h : ∀ a, g (f a) = a) : (x >>= fun a => pure (f a)).map g = x := by
  cases x with
  | error e => rfl
  | ok a => exact congrArg Except.ok (h a)

def FieldHead.optionHolder : OptionHolder where
  State := FieldHead
  Line := Edit
  add := edit
  options := options
  edit?
    | .option e => some e
    | _ => none
  options_add
    | _, .option _ => map_bind_pure_self _ fun _ => rfl
    | _, .required | _, .optionImport _ | _, .constraint _ => rfl

/-- Fields of a leaf type, with all changes to their rules. -/
def Draft.optionHolder {ρ ε : Type} (change : ρ → ε → ρ) : OptionHolder where
  State := Draft ρ
  Line := Edit ε
  add := edit change
  options d := d.head.options
  edit?
    | .head e => FieldHead.optionHolder.edit? e
    | _ => none
  options_add
    | d, .head e => by
      have hhead := FieldHead.optionHolder.options_add d.head e
      simp only [edit, map_bind_pure]
      exact hhead
    | _, .optional | _, .rules _ => rfl

/-- Fields of any kind, collections included. -/
def Field.optionHolder : OptionHolder where
  State := Field
  Line := FieldHead.Edit
  add := edit
  options f := f.head.options
  edit? := FieldHead.optionHolder.edit?
  options_add f e := by
    have hhead := FieldHead.optionHolder.options_add f.head e
    simp only [edit, map_bind_pure]
    cases f <;> exact hhead

def Oneof.optionHolder : OptionHolder where
  State := Oneof
  Line := Item
  add := add
  options := options
  edit?
    | .option e => some e
    | _ => none
  options_add
    | _, .option _ => map_bind_pure_self _ fun _ => rfl
    | _, .choice _ _ | _, .required => rfl

def EnumValue.optionHolder : OptionHolder where
  State := EnumValue
  Line := OptionEdit
  add := edit
  options := options
  edit? := some
  options_add _ _ := map_bind_pure_self _ fun _ => rfl

theorem Enum.isOptionName_aliasOption : Name.isOptionName aliasOption.name = true := by
  decide +kernel

/-- Allowing aliases assigns an option of its own. -/
def Enum.optionHolder : OptionHolder where
  State := Enum
  Line := Item
  add := add
  options := options
  edit?
    | .allowAlias => some aliasOption
    | .option e => some e
    | _ => none
  options_add
    | _, .option _ => map_bind_pure_self _ fun _ => rfl
    | _, .allowAlias => (OptionEdit.applyChecked_of_allowed isOptionName_aliasOption _).symm
    | _, .reservedName _ => by simp only [add, map_bind_pure]
    | _, .value _ | _, .reserved _ => rfl

def Message.optionHolder : OptionHolder where
  State := Message
  Line := Item
  add := add
  options m := m.options
  edit?
    | .option e => some e
    | _ => none
  options_add
    | _, .option _ => map_bind_pure_self _ fun _ => rfl
    | _, .reservedName _ => by simp only [add, map_bind_pure]
    | _, .field _ _ | _, .oneof _ | _, .message _ | _, .enum _ | _, .reserved _ | _, .constraint _
    | _, .bind _ | _, .ignore _ | _, .skipHostCheck => rfl

def Method.optionHolder : OptionHolder where
  State := Method
  Line := Item
  add := add
  options := options
  edit?
    | .option e => some e
    | _ => none
  options_add
    | _, .option _ => map_bind_pure_self _ fun _ => rfl
    | _, .clientStreaming | _, .serverStreaming => rfl

def Service.optionHolder : OptionHolder where
  State := Service
  Line := Item
  add := add
  options := options
  edit?
    | .option e => some e
    | _ => none
  options_add
    | _, .option _ => map_bind_pure_self _ fun _ => rfl
    | _, .method _ => rfl

def File.optionHolder : OptionHolder where
  State := File
  Line := Item
  add := add
  options := options
  edit?
    | .option e => some e
    | _ => none
  options_add
    | _, .option _ => map_bind_pure_self _ fun _ => rfl
    | _, .message _ | _, .enum _ | _, .service _ | _, .extend _ | _, .importing _ => rfl

/-! ## Every declaration -/

/-- The kinds of declarations that hold options. -/
inductive Declarable : Type 1 where
  | leafField {ρ ε : Type} (change : ρ → ε → ρ)
  | field
  | oneof
  | enumValue
  | enum
  | message
  | method
  | service
  | file

namespace Declarable

def holder : Declarable → OptionHolder
  | leafField change => Draft.optionHolder change
  | field => Field.optionHolder
  | oneof => Oneof.optionHolder
  | enumValue => EnumValue.optionHolder
  | enum => Enum.optionHolder
  | message => Message.optionHolder
  | method => Method.optionHolder
  | service => Service.optionHolder
  | file => File.optionHolder

/-- **Options after any calls.** Option calls with allowed names all go through. Whatever is called
on a new declaration, a name has in the end the value of its last assignment, followed by what was
added to it since, or all that was added to it if it was never assigned. And an assignment, made at
any point, sets the first entry of its name in place and leaves the entries of other names alone. -/
theorem options_of_calls (k : Declarable) {start : k.holder.State}
    (hstart : k.holder.options start = []) (lines : List k.holder.Line) :
    ((∀ l ∈ lines, ∃ e, k.holder.edit? l = some e ∧ Name.isOptionName e.name = true) →
      ∃ final, lines.foldlM k.holder.add start = .ok final) ∧
    (∀ final, lines.foldlM k.holder.add start = .ok final → ∀ name,
      (∀ before value after, k.holder.edits lines = before ++ .assign name value :: after →
        (∀ v, .assign name v ∉ after) →
          valuesOf name (k.holder.options final) = value :: OptionEdit.added name after) ∧
      ((∀ v, .assign name v ∉ k.holder.edits lines) →
        valuesOf name (k.holder.options final) =
          OptionEdit.added name (k.holder.edits lines))) ∧
    ∀ s l name value s', k.holder.edit? l = some (.assign name value) →
      k.holder.add s l = .ok s' →
        OptionEdit.SetsInPlace name value (k.holder.options s) (k.holder.options s') := by
  refine ⟨fun hlines => OptionHolder.exists_run hlines start, fun final hrun name => ?_,
    fun s l name value s' hedit hadd => ?_⟩
  · rw [OptionHolder.options_of_run hrun, hstart]
    constructor
    · intro before value after hsplit hlast
      rw [hsplit]
      exact OptionEdit.valuesOf_foldl_of_last hlast []
    · intro hnone
      rw [OptionEdit.valuesOf_foldl_of_unassigned hnone]
      rfl
  · rw [OptionHolder.options_of_add hadd]
    simp only [OptionHolder.edits, List.filterMap_cons, hedit, List.filterMap_nil,
      List.foldl_cons, List.foldl_nil]
    exact OptionEdit.setsInPlace_assigned name value _

/-- A string field whose tags are added, assigned and added to again, between calls that mark it as
deprecated, take that back and name it for JSON; and the call that assigns the tags. -/
theorem options_of_calls_tags :
    let k : Declarable := leafField (StringRules.edit ⟨fun _ => none⟩)
    let start : k.holder.State := { head := { name := "title" }, rules := ({} : StringRules) }
    let tag (v : String) : Draft.Edit StringRules.Edit :=
      .head (.option (.add "(acme.tag)" (.string v)))
    let setTag : Draft.Edit StringRules.Edit :=
      .head (.option (.assign "(acme.tag)" (.string "c")))
    let lines : List k.holder.Line := [tag "a", .head .deprecated, tag "b", setTag,
      .head (.jsonName "heading"), tag "d",
      .head (.option (.assign "deprecated" (.bool false)))]
    let tagged : k.holder.State := { start with head := { name := "title", options := [
      ⟨"(acme.tag)", .string "a"⟩, ⟨"deprecated", .bool true⟩, ⟨"(acme.tag)", .string "b"⟩] } }
    k.holder.options start = [] ∧ ∃ final, lines.foldlM k.holder.add start = .ok final ∧
      valuesOf "(acme.tag)" (k.holder.options final) = [.string "c", .string "d"] ∧
      valuesOf "deprecated" (k.holder.options final) = [.bool false] ∧
      valuesOf "(acme.unit)" (k.holder.options final) = [] ∧
      ∃ s', k.holder.add tagged setTag = .ok s' ∧ k.holder.options s' =
        [⟨"(acme.tag)", .string "c"⟩, ⟨"deprecated", .bool true⟩] := by
  intro k start tag setTag lines tagged
  have hstart : k.holder.options start = [] := rfl
  obtain ⟨hgoes, hvalues, hsets⟩ := options_of_calls k hstart lines
  have htag : Name.isOptionName "(acme.tag)" = true := by decide +kernel
  have hswitch : Name.isOptionName "deprecated" = true := by decide +kernel
  have hjson : Name.isOptionName "json_name" = true := by decide +kernel
  obtain ⟨final, hfinal⟩ := hgoes <| List.forall_iff_forall_mem.1
    ⟨⟨_, rfl, htag⟩, ⟨_, rfl, hswitch⟩, ⟨_, rfl, htag⟩, ⟨_, rfl, htag⟩, ⟨_, rfl, hjson⟩,
      ⟨_, rfl, htag⟩, ⟨_, rfl, hswitch⟩⟩
  have hcalls : k.holder.edits lines = [.add "(acme.tag)" (.string "a"), .deprecated,
      .add "(acme.tag)" (.string "b"), .assign "(acme.tag)" (.string "c"),
      .assign "json_name" (.string "heading"), .add "(acme.tag)" (.string "d"),
      .assign "deprecated" (.bool false)] := rfl
  rw [hcalls] at hvalues
  refine ⟨hstart, final, hfinal, ?_, ?_, ?_, ?_⟩
  · exact (hvalues final hfinal "(acme.tag)").1 [_, _, _] _ [_, _, _] rfl (by simp)
  · exact (hvalues final hfinal "deprecated").1 [_, _, _, _, _, _] _ [] rfl (by simp)
  · exact (hvalues final hfinal "(acme.unit)").2 (by simp [OptionEdit.deprecated])
  · obtain ⟨s', hadd⟩ := OptionHolder.exists_add (h := k.holder) (l := setTag) rfl htag tagged
    have hplace := (hsets tagged setTag _ _ s' rfl hadd).replaced [] _ _ rfl (by simp)
    exact ⟨s', hadd, by simpa using hplace⟩

end Declarable

end WireSchema

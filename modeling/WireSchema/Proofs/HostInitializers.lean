import WireSchema.HostCode.Converter
import WireSchema.Proofs.Converters
import WireSchema.Proofs.Lexing

/-!
# Filling in host records

A generated message becomes a host record in two parts. Steps take the oneofs apart, each choice
into a local of its own; then the record is written, with an initializer for each of its fields. The
record takes no defaults for fields without one, so none may be missing and none given twice.

* `HostCode.groups_eq`: putting each choice to the others of its oneof gives the oneofs in the order
  of their first choices, each with its choices.
* `HostCode.groups_perm`: no choice is lost or doubled on the way.
* `HostCode.intoHost_eq`: the lines of the code, with those of the steps and those of the record at
  their places.
* `HostCode.infix_ofConverters`: these lines stand together in the text for a package.
* `HostCode.fillsIn`: one converter, whose host names are distinct.
* `Package.host_records_filled`: the converters of a package, in the text that they become.
-/

namespace WireSchema

/-! ## Lines -/

namespace Text

/-- A line is moved at its beginning. -/
theorem indentLine_append {w : Nat} {a b : String} (h : indentLine w a = b) (hne : a ≠ "")
    (rest : String) : indentLine w (a ++ rest) = b ++ rest := by
  rw [← h, indentLine, indentLine, if_neg (by simp [hne]), if_neg (by simpa using hne),
    String.append_assoc]

theorem indent_cons (w : Nat) (l : String) (ls : List String) :
    indent w (l :: ls) = indentLine w l :: indent w ls := rfl

theorem indent_nil (w : Nat) : indent w [] = [] := rfl

/-- The lines of a section stand together. -/
theorem infix_sections {part : List String} {parts : List (List String)} (hne : part ≠ [])
    (h : part ∈ parts) : part <:+: sections parts := by
  have hintercalate : ∀ ps : List (List String), part ∈ ps → part <:+: [""].intercalate ps := by
    intro ps hps
    induction ps with
    | nil => cases hps
    | cons p ps ih =>
      cases ps with
      | nil =>
        rw [List.mem_singleton.1 hps, List.intercalate_singleton]
      | cons q ps =>
        rw [List.intercalate_cons_cons, List.append_assoc]
        rcases List.mem_cons.1 hps with rfl | hps
        · exact (List.prefix_append _ _).isInfix
        · exact (ih hps).trans
            ((List.suffix_append _ _).trans (List.suffix_append _ _)).isInfix
  exact hintercalate _ (List.mem_filter.2 ⟨h, by simpa using hne⟩)

end Text

/-! ## First occurrences -/

/-- A new entry comes behind the first occurrences of the others. -/
theorem eraseDups_concat {α : Type} [DecidableEq α] (l : List α) (a : α) :
    (l ++ [a]).eraseDups = if a ∈ l then l.eraseDups else l.eraseDups ++ [a] := by
  rw [List.eraseDups_append, List.removeAll, List.filter_singleton]
  by_cases h : a ∈ l <;> simp [h, List.eraseDups_cons]

theorem nodup_eraseDups {α : Type} [DecidableEq α] (l : List α) : l.eraseDups.Nodup := by
  induction l using List.reverseRecOn with
  | nil => exact List.nodup_nil
  | append_singleton l a ih =>
    rw [eraseDups_concat]
    split
    · exact ih
    · next h =>
      rw [List.nodup_append_comm, List.singleton_append, List.nodup_cons, List.mem_eraseDups]
      exact ⟨h, ih⟩

namespace HostCode

/-! ## Choices by oneof -/

/-- A oneof with its choices. -/
abbrev Group := String × List FieldConversion

/-- Puts a choice behind the others of its oneof, or into a new group behind all groups. -/
def addChoice (oneof : String) (f : FieldConversion) : List Group → List Group
  | [] => [(oneof, [f])]
  | (name, fs) :: rest =>
    if name = oneof then (name, fs ++ [f]) :: rest else (name, fs) :: addChoice oneof f rest

/-- The groups after one more field, which may be no choice. -/
def addField (groups : List Group) (f : FieldConversion) : List Group :=
  match f.oneof with
  | some oneof => addChoice oneof f groups
  | none => groups

/-- The choices among the fields, by oneof. -/
def groups (fields : List FieldConversion) : List Group := fields.foldl addField []

theorem groups_concat (fields : List FieldConversion) (f : FieldConversion) :
    groups (fields ++ [f]) = addField (groups fields) f := by
  rw [groups, List.foldl_append]
  rfl

theorem addChoice_of_not_mem {oneof : String} {f : FieldConversion} {names : List String}
    {choices : String → List FieldConversion} (h : oneof ∉ names) :
    addChoice oneof f (names.map fun name => (name, choices name)) =
      names.map (fun name => (name, choices name)) ++ [(oneof, [f])] := by
  induction names with
  | nil => rfl
  | cons name names ih =>
    have hne : name ≠ oneof := fun he => h (he ▸ List.mem_cons_self)
    rw [List.map_cons, addChoice, if_neg hne, ih (List.not_mem_of_not_mem_cons h), List.cons_append]

theorem addChoice_of_mem {oneof : String} {f : FieldConversion} {names : List String}
    {choices : String → List FieldConversion} (hnames : names.Nodup) (h : oneof ∈ names) :
    addChoice oneof f (names.map fun name => (name, choices name)) =
      names.map fun name => (name, if name = oneof then choices name ++ [f] else choices name) := by
  induction names with
  | nil => cases h
  | cons name names ih =>
    obtain ⟨hnew, hrest⟩ := List.nodup_cons.1 hnames
    rw [List.map_cons, List.map_cons, addChoice]
    by_cases hname : name = oneof
    · subst hname
      rw [if_pos rfl, if_pos rfl]
      congr 1
      refine List.map_congr_left fun other hother => ?_
      have hne : other ≠ name := fun he => hnew (he ▸ hother)
      rw [if_neg hne]
    · have hmem : oneof ∈ names := (List.mem_cons.1 h).resolve_left fun he => hname he.symm
      rw [if_neg hname, if_neg hname, ih hrest hmem]

/-- One more choice is the last one of its oneof, and the other oneofs keep their choices. -/
theorem filter_concat {f : FieldConversion} {oneof : String} (hf : f.oneof = some oneof)
    (fields : List FieldConversion) (name : String) :
    (fields ++ [f]).filter (·.oneof == some name) =
      if name = oneof then fields.filter (·.oneof == some name) ++ [f]
      else fields.filter (·.oneof == some name) := by
  rw [List.filter_append]
  by_cases hname : name = oneof
  · subst hname
    simp [hf]
  · have hother : oneof ≠ name := fun he => hname he.symm
    simp [hf, hname, hother]

/-- **Choices by oneof.** The groups are the oneofs in the order of their first choices, each with
all of its choices. -/
theorem groups_eq (m : MessageConverter) :
    groups m.fields = (oneofs m).map fun name => (name, choices m name) := by
  unfold oneofs choices
  induction m.fields using List.reverseRecOn with
  | nil => rfl
  | append_singleton fields f ih =>
    rw [groups_concat, addField, ih, List.filterMap_append]
    cases hf : f.oneof with
    | none => simp [hf]
    | some oneof =>
      have hone : [f].filterMap (·.oneof) = [oneof] := by simp [hf]
      simp only [hone, filter_concat hf, eraseDups_concat]
      by_cases hmem : oneof ∈ fields.filterMap (·.oneof)
      · rw [if_pos hmem, addChoice_of_mem (nodup_eraseDups _) (List.mem_eraseDups.2 hmem)]
      · rw [if_neg hmem, addChoice_of_not_mem (mt List.mem_eraseDups.1 hmem), List.map_append]
        congr 1
        · refine List.map_congr_left fun name hname => ?_
          have hne : name ≠ oneof := fun he => hmem (he ▸ List.mem_eraseDups.1 hname)
          rw [if_neg hne]
        · have hnone : fields.filter (·.oneof == some oneof) = [] :=
            List.filter_eq_nil_iff.2 fun g hg he =>
              hmem (List.mem_filterMap.2 ⟨g, hg, eq_of_beq he⟩)
          rw [List.map_singleton, if_pos rfl, hnone, List.nil_append]

/-- No choice is lost or doubled when it is put to its oneof. -/
theorem addChoice_perm (oneof : String) (f : FieldConversion) (groups : List Group) :
    ((addChoice oneof f groups).flatMap Prod.snd).Perm (f :: groups.flatMap Prod.snd) := by
  induction groups with
  | nil => exact .refl _
  | cons g rest ih =>
    obtain ⟨name, fs⟩ := g
    rw [addChoice]
    split
    · rw [List.flatMap_cons, List.flatMap_cons, List.append_assoc]
      exact List.perm_middle
    · rw [List.flatMap_cons, List.flatMap_cons]
      exact (ih.append_left fs).trans List.perm_middle

/-- The groups hold the fields that are choices, each once. -/
theorem groups_perm (fields : List FieldConversion) :
    ((groups fields).flatMap Prod.snd).Perm (fields.filter (·.oneof.isSome)) := by
  induction fields using List.reverseRecOn with
  | nil => exact .refl _
  | append_singleton fields f ih =>
    rw [groups_concat, addField, List.filter_append]
    cases hf : f.oneof with
    | none => simpa [hf] using ih
    | some oneof =>
      rw [List.filter_singleton, hf]
      exact ((addChoice_perm oneof f _).trans (ih.cons f)).trans
        (List.perm_append_singleton f _).symm

/-! ## Steps -/

/-- An arm that puts the value of a variant into a local. -/
structure Arm where
  variant : String
  target : String
  value : String
deriving DecidableEq, Repr

/-- What is done before the record is written. -/
inductive Step where
  /-- Declares a local without a value. -/
  | declaration (name : String)
  /-- Takes a oneof apart. -/
  | unpack (oneof : String) (arms : List Arm)
deriving DecidableEq, Repr

def Arm.line (a : Arm) : String :=
  "            Some(" ++ a.variant ++ "(v)) => " ++ a.target ++ " = Some(" ++ a.value ++ "),"

namespace Step

/-- The lines of a step in the body of a conversion. -/
def lines : Step → List String
  | declaration name => ["        let mut " ++ name ++ " = None;"]
  | unpack oneof arms =>
    ["        match value." ++ messageField oneof ++ " \x7b"] ++ arms.map Arm.line
      ++ ["            _ => \x7b\x7d", "        \x7d"]

/-- The local that the step declares. -/
def declared? : Step → Option String
  | declaration name => some name
  | unpack _ _ => none

/-- The oneof that the step takes apart. -/
def oneof? : Step → Option String
  | declaration _ => none
  | unpack oneof _ => some oneof

def arms : Step → List Arm
  | declaration _ => []
  | unpack _ arms => arms

end Step

variable (c : MessageConverter)

/-- The arm of a choice. -/
def armOf (oneof : String) (f : FieldConversion) : Arm :=
  ⟨variant c oneof f, choiceLocal f, convertChoice .toHost f⟩

/-- The steps of one oneof: the locals of its choices, then an arm for each of them. -/
def stepsOf (g : Group) : List Step :=
  g.2.map (fun f => .declaration (choiceLocal f)) ++ [.unpack g.1 (g.2.map (armOf c g.1))]

/-- The steps in front of the host record. -/
def steps : List Step := (groups c.fields).flatMap (stepsOf c)

/-- The line of an initializer in the record. -/
def initializerLine (x : String × String) : String :=
  "            " ++ identifier x.1 ++ ": " ++ x.2 ++ ","

/-- The lines between the braces of the record, a blank one if it has no fields. -/
def recordLines : List String :=
  if hostInitializers c = [] then [""] else (hostInitializers c).map initializerLine

/-- The lines of the code: the head, the steps, and the record. -/
def writtenLines : List String :=
  ["impl TryFrom<" ++ c.generated ++ "> for " ++ c.host ++ " \x7b",
    "    type Error = ConvertError;",
    "",
    "    fn try_from(value: " ++ c.generated ++ ") -> Result<Self, Self::Error> \x7b"]
  ++ (steps c).flatMap Step.lines
  ++ ["        Ok(Self \x7b"]
  ++ recordLines c
  ++ ["        \x7d)",
    "    \x7d",
    "\x7d"]

theorem indentLine_arm (oneof : String) (f : FieldConversion) :
    Text.indentLine 12 (arm c oneof f) = (armOf c oneof f).line := by
  -- the equation of so long a chain is not to be had by `rw`
  delta arm armOf Arm.line
  simp only [String.append_assoc]
  exact Text.indentLine_append rfl (by decide) _

/-- The lines that take a oneof apart are those of its steps. -/
theorem indent_unpackOneof (oneof : String) : Text.indent 8 (unpackOneof c oneof) =
    (stepsOf c (oneof, choices c oneof)).flatMap Step.lines := by
  have hdeclared (f : FieldConversion) :
      Text.indentLine 8 ("let mut " ++ choiceLocal f ++ " = None;") =
        "        let mut " ++ choiceLocal f ++ " = None;" := by
    simp only [String.append_assoc]
    exact Text.indentLine_append rfl (by decide) _
  have hmatch : Text.indentLine 8 ("match value." ++ messageField oneof ++ " \x7b") =
      "        match value." ++ messageField oneof ++ " \x7b" := by
    simp only [String.append_assoc]
    exact Text.indentLine_append rfl (by decide) _
  have hlocals : Text.indent 8 ((choices c oneof).map fun f =>
      "let mut " ++ choiceLocal f ++ " = None;") =
        ((choices c oneof).map (.declaration <| choiceLocal ·)).flatMap Step.lines := by
    rw [Text.indent, List.map_map, List.flatMap_map]
    simp only [Step.lines, ← List.map_eq_flatMap]
    exact List.map_congr_left fun f _ => hdeclared f
  have harms : Text.indent 12 ((choices c oneof).map (arm c oneof)) =
      ((choices c oneof).map (armOf c oneof)).map Arm.line := by
    rw [Text.indent, List.map_map, List.map_map]
    exact List.map_congr_left fun f _ => indentLine_arm c oneof f
  rw [unpackOneof, Text.block, Text.indent_append, Text.indent_append, Text.indent_cons,
    Text.indent_indent, Text.indent_append, hlocals, hmatch, harms, stepsOf, List.flatMap_append,
    List.flatMap_singleton, Step.lines]
  simp only [List.append_assoc, List.cons_append, List.nil_append]
  rfl

theorem indent_hostLines : Text.indent 12 (hostLines c) = recordLines c := by
  have hline (x : String × String) :
      Text.indentLine 12 (fieldLine (identifier x.1) x.2) = initializerLine x := by
    rw [Text.indentLine, if_neg (by simp [fieldLine]), fieldLine, initializerLine]
    simp only [String.append_assoc]
    rfl
  rw [hostLines, recordLines]
  by_cases hnone : hostInitializers c = []
  · rw [if_pos (by simpa using hnone), if_pos hnone]
    rfl
  · rw [if_neg (by simpa using hnone), if_neg hnone, Text.indent, List.map_map]
    exact List.map_congr_left fun x _ => hline x

theorem intoHost_eq : intoHost c = writtenLines c := by
  have hsteps : Text.indent 8 ((oneofs c).flatMap (unpackOneof c)) =
      (steps c).flatMap Step.lines := by
    rw [steps, groups_eq, List.flatMap_map, List.flatMap_assoc, Text.indent, List.map_flatMap]
    simp only [← indent_unpackOneof]
    rfl
  have hrecord : Text.indent (4 + (4 + 4)) (hostLines c) = recordLines c := indent_hostLines c
  have hsignature : Text.indentLine 4
      ("fn try_from(value: " ++ c.generated ++ ") -> Result<Self, Self::Error>" ++ " \x7b") =
        "    fn try_from(value: " ++ c.generated ++ ") -> Result<Self, Self::Error> \x7b" := by
    simp only [String.append_assoc]
    exact Text.indentLine_append rfl (by decide) _
  simp only [intoHost, implementation, Text.block, Text.indent_cons, Text.indent_nil,
    Text.indent_append, Text.indent_indent, hsteps, hrecord, hsignature, writtenLines]
  simp only [List.append_assoc, List.cons_append, List.nil_append, String.append_assoc]
  rfl

/-- The locals that the steps declare are those of the choices, oneof by oneof. -/
theorem filterMap_declared? : (steps c).filterMap Step.declared? =
    ((groups c.fields).flatMap Prod.snd).map choiceLocal := by
  have hgroup (g : Group) : (stepsOf c g).filterMap Step.declared? = g.2.map choiceLocal := by
    simp [stepsOf, Step.declared?, List.filterMap_map, Function.comp_def]
  rw [steps, List.filterMap_flatMap, List.map_flatMap]
  simp only [hgroup]

/-- So are those that the arms assign. -/
theorem map_target : ((steps c).flatMap Step.arms).map Arm.target =
    ((groups c.fields).flatMap Prod.snd).map choiceLocal := by
  have hgroup (g : Group) :
      ((stepsOf c g).flatMap Step.arms).map Arm.target = g.2.map choiceLocal := by
    simp [stepsOf, Step.arms, List.flatMap_map, armOf, Function.comp_def]
  rw [steps, List.flatMap_assoc, List.map_flatMap, List.map_flatMap]
  simp only [hgroup]

theorem filterMap_oneof? : (steps c).filterMap Step.oneof? = oneofs c := by
  have hgroup (g : Group) : (stepsOf c g).filterMap Step.oneof? = [g.1] := by
    simp [stepsOf, Step.oneof?, List.filterMap_map, Function.comp_def]
  rw [steps, List.filterMap_flatMap]
  simp only [hgroup]
  rw [← List.map_eq_flatMap, groups_eq, List.map_map]
  exact List.map_id _

/-! ## Host records -/

/-- The code that fills in a host record is complete: each field of the record has an initializer,
and each choice comes out of its oneof into a local of its own. -/
structure FillsIn (c : MessageConverter) (host : HostRecord) : Prop where
  /-- The code runs the steps and then writes the record, with a line for each initializer. -/
  text : intoHost c = writtenLines c
  /-- There is an initializer for each conversion, then one for each name that takes a default. -/
  names : (hostInitializers c).map Prod.fst =
    c.fields.map FieldConversion.hostField ++ c.defaulted
  /-- The initializers are those of the host fields, each once. -/
  complete : host.names.Nodup → ((hostInitializers c).map Prod.fst).Perm host.names
  /-- They are written apart as well, unless a host name is a keyword without a raw form or holds
  the mark of one. -/
  apart : host.names.Nodup → (∀ n ∈ host.names, n ∉ pathKeywords ∧ '#' ∉ n.toList) →
    ((hostInitializers c).map fun x => identifier x.1).Nodup
  /-- The locals of different choices have different names. -/
  locals : ((c.fields.filter (·.oneof.isSome)).map choiceLocal).Nodup
  /-- No local is declared twice. -/
  declared : ((steps c).filterMap Step.declared?).Nodup
  /-- No local is assigned by two arms. -/
  assigned : (((steps c).flatMap Step.arms).map Arm.target).Nodup
  /-- No oneof is taken apart twice. -/
  unpacked : ((steps c).filterMap Step.oneof?).Nodup
  /-- A choice has a local, which is declared before its oneof is taken apart, gets its value from
  an arm there, and is the value of its initializer. -/
  choice : ∀ f ∈ c.fields, ∀ oneof, f.oneof = some oneof →
    (∃ before arms after, steps c = before ++ .unpack oneof arms :: after ∧
      .declaration (choiceLocal f) ∈ before ∧ armOf c oneof f ∈ arms) ∧
    (f.hostField, choiceLocal f) ∈ hostInitializers c

theorem names_hostInitializers : (hostInitializers c).map Prod.fst =
    c.fields.map FieldConversion.hostField ++ c.defaulted := by
  rw [hostInitializers, List.map_append, List.map_map, List.map_map]
  exact congrArg _ (List.map_id _)

variable {c}

/-- Choices of different names have different locals. -/
theorem nodup_choiceLocal (h : (c.fields.map FieldConversion.hostField).Nodup) :
    ((c.fields.filter (·.oneof.isSome)).map choiceLocal).Nodup := by
  have hnames : ((c.fields.filter (·.oneof.isSome)).map FieldConversion.hostField).Nodup :=
    h.sublist (List.filter_sublist.map _)
  have hlocals := hnames.map (f := ("oneof_" ++ ·)) fun _ _ hab => (String.append_right_inj _).1 hab
  rwa [List.map_map] at hlocals

/-- A choice is declared, and then taken out of its oneof. -/
theorem steps_of_choice {f : FieldConversion} (hf : f ∈ c.fields) {oneof : String}
    (ho : f.oneof = some oneof) : ∃ before arms after,
      steps c = before ++ .unpack oneof arms :: after ∧
        .declaration (choiceLocal f) ∈ before ∧ armOf c oneof f ∈ arms := by
  have hgroup : (oneof, choices c oneof) ∈ groups c.fields := by
    rw [groups_eq]
    exact List.mem_map_of_mem (List.mem_eraseDups.2 (List.mem_filterMap.2 ⟨f, hf, ho⟩))
  have hchoice : f ∈ choices c oneof := List.mem_filter.2 ⟨hf, by simp [ho]⟩
  obtain ⟨earlier, later, hgroups⟩ := List.append_of_mem hgroup
  refine ⟨earlier.flatMap (stepsOf c) ++ (choices c oneof).map (.declaration <| choiceLocal ·), _,
    later.flatMap (stepsOf c), ?_, ?_, List.mem_map_of_mem hchoice⟩
  · simp [steps, hgroups, stepsOf]
  · exact List.mem_append_right _ (List.mem_map_of_mem hchoice)

theorem identifier_of_not_mem {n : String} (h : n ∉ pathKeywords) :
    identifier n = if n ∈ keywords then "r#" ++ n else n := by
  rw [identifier, if_neg (by simpa using h)]
  simp

/-- Escaping keeps names apart that have a raw form and are in none. -/
theorem identifier_inj {a b : String} (ha : a ∉ pathKeywords ∧ '#' ∉ a.toList)
    (hb : b ∉ pathKeywords ∧ '#' ∉ b.toList) (h : identifier a = identifier b) : a = b := by
  rw [identifier_of_not_mem ha.1, identifier_of_not_mem hb.1] at h
  split at h <;> split at h
  · exact (String.append_right_inj _).1 h
  · exact absurd (h ▸ hb.2) (by simp)
  · exact absurd (h ▸ ha.2) (by simp)
  · exact h

/-- **Filling in a host record.** Where no host name is converted twice, and the conversions and the
defaults are the names of the record, the code is complete. -/
theorem fillsIn {host : HostRecord} (honce : (c.fields.map FieldConversion.hostField).Nodup)
    (hnames : host.names.Nodup →
      (c.fields.map FieldConversion.hostField ++ c.defaulted).Perm host.names) :
    FillsIn c host := by
  have hlocals := nodup_choiceLocal honce
  have hgrouped : (((groups c.fields).flatMap Prod.snd).map choiceLocal).Nodup :=
    ((groups_perm c.fields).map choiceLocal).nodup_iff.2 hlocals
  have hcomplete : host.names.Nodup → ((hostInitializers c).map Prod.fst).Perm host.names :=
    fun hrecord => names_hostInitializers c ▸ hnames hrecord
  exact {
    text := intoHost_eq c
    names := names_hostInitializers c
    complete := hcomplete
    apart := fun hrecord hplain => by
      have hperm := hcomplete hrecord
      have hwritten : (((hostInitializers c).map Prod.fst).map identifier).Nodup :=
        (hperm.nodup_iff.2 hrecord).map_on fun a ha b hb =>
          identifier_inj (hplain a (hperm.mem_iff.1 ha)) (hplain b (hperm.mem_iff.1 hb))
      rwa [List.map_map] at hwritten
    locals := hlocals
    declared := filterMap_declared? c ▸ hgrouped
    assigned := map_target c ▸ hgrouped
    unpacked := filterMap_oneof? c ▸ nodup_eraseDups _
    choice := fun f hf oneof ho => ⟨steps_of_choice hf ho, by
      have hvalue : hostValue f = choiceLocal f := by rw [hostValue, ho]; rfl
      exact List.mem_append_left _ (List.mem_map.2 ⟨f, hf, by rw [hvalue]⟩)⟩ }

/-- The code for a converter stands in the text, line by line. -/
theorem infix_ofConverters {d : ConverterDescriptor} {c : MessageConverter}
    (hc : c ∈ d.messages) : ∃ before after : List String, ofConverters d =
      String.join ((before ++ intoHost c ++ after).map (· ++ "\n")) := by
  have hne : intoHost c ≠ [] := by simp [intoHost_eq, writtenLines]
  have hsection : intoHost c <:+: lines d :=
    Text.infix_sections hne <| List.mem_append_right _ <|
      List.mem_flatMap_of_mem hc (List.mem_cons_of_mem _ List.mem_cons_self)
  obtain ⟨before, after, hlines⟩ := hsection
  exact ⟨before, after, by rw [hlines, ofConverters, Text.ofLines]⟩

end HostCode

namespace Package

/-- **Host records are filled in.** In a package that builds, every converter belongs to a message
that is bound to a host record, and the code that it becomes fills in this record: with one
initializer for each of its fields, if their names are distinct, and with one local and one arm for
each choice of a oneof. The lines of this code stand together in the text for the package. -/
theorem host_records_filled {p : Package} {d : PackageDescriptor} (h : p.build = .ok d) :
    ∀ c ∈ d.converters.messages,
      (∃ e ∈ d.messages, ∃ host, e.host = some host ∧ c.message = e.fullName ∧
        c.host = host.typePath ∧ HostCode.FillsIn c host) ∧
      ∃ before after : List String, HostCode.ofConverters d.converters =
        String.join ((before ++ HostCode.intoHost c ++ after).map (· ++ "\n")) := by
  intro c hc
  have htext := HostCode.infix_ofConverters hc
  rw [converters_eq h, List.mem_filterMap] at hc
  obtain ⟨e, he, hconverter⟩ := hc
  obtain ⟨host, hhost, rfl⟩ := Option.map_eq_some_iff.1 hconverter
  obtain ⟨x, -, s, -, hbuilt⟩ := exists_of_forall₂_right (builtFrom h) he
  have hcompletes : (MessageConverter.ofBound p.config.generatedModule
      (ConverterDescriptor.hosts d.messages) e host).Completes x.2 e host :=
    MessageConverter.completes_ofBound hbuilt hhost
  exact ⟨⟨e, he, host, hhost, rfl, rfl, HostCode.fillsIn hcompletes.once hcompletes.partition⟩,
    htext⟩

/-- Two oneofs, one of them with a time and with a choice that the record lacks. The record has its
fields in another order, and one that is in no message. -/
theorem host_records_filled_choices :
    let text (name : String) : Field := .leaf { head := { name }, type := .string {} }
    let time (name : String) : Field := .leaf { head := { name }, type := .timestamp {} }
    let order : Message := {
      name := "Order", fields := [(1, text "id")],
      oneofs := [{ name := "via", choices := [(2, text "email"), (3, text "phone")] },
        { name := "ref", choices := [(4, time "due"), (5, text "code")] }],
      host := some { typePath := "shop::Order", fields :=
        [⟨"due", "Option<SystemTime>"⟩, ⟨"id", "String"⟩, ⟨"email", "Option<String>"⟩,
          ⟨"phone", "Option<String>"⟩, ⟨"cache", "u8"⟩] },
      ignored := .ofList ["cache", "code"] }
    let p : Package := {
      config := { package := "shop" }, files := [{ name := "a.proto", messages := [order] }] }
    let code : List String := [
      "impl TryFrom<crate::pb::Order> for shop::Order \x7b",
      "    type Error = ConvertError;",
      "",
      "    fn try_from(value: crate::pb::Order) -> Result<Self, Self::Error> \x7b",
      "        let mut oneof_email = None;",
      "        let mut oneof_phone = None;",
      "        match value.via \x7b",
      "            Some(crate::pb::order::Via::Email(v)) => oneof_email = Some(v),",
      "            Some(crate::pb::order::Via::Phone(v)) => oneof_phone = Some(v),",
      "            _ => \x7b\x7d",
      "        \x7d",
      "        let mut oneof_due = None;",
      "        match value.r#ref \x7b",
      "            Some(crate::pb::order::Ref::Due(v)) => oneof_due = Some("
        ++ "std::time::SystemTime::try_from(v)"
        ++ ".map_err(|_| ConvertError::OutOfRange(\"due\"))?),",
      "            _ => \x7b\x7d",
      "        \x7d",
      "        Ok(Self \x7b",
      "            id: value.id,",
      "            email: oneof_email,",
      "            phone: oneof_phone,",
      "            due: oneof_due,",
      "            cache: Default::default(),",
      "        \x7d)",
      "    \x7d",
      "\x7d"]
    ∃ d, p.build = .ok d ∧ d.converters.messages.map HostCode.intoHost = [code] ∧
      ∀ c ∈ d.converters.messages,
        (∃ e ∈ d.messages, ∃ host, e.host = some host ∧ c.message = e.fullName ∧
          c.host = host.typePath ∧ HostCode.FillsIn c host) ∧
        ∃ before after : List String, HostCode.ofConverters d.converters =
          String.join ((before ++ HostCode.intoHost c ++ after).map (· ++ "\n")) := by
  intro text time order p code
  obtain ⟨d, hd, hcode⟩ : ∃ d, p.build = .ok d ∧
      d.converters.messages.map HostCode.intoHost = [code] :=
    exists_ok_of_summary (by decide +kernel)
  exact ⟨d, hd, hcode, host_records_filled hd⟩

end Package
end WireSchema

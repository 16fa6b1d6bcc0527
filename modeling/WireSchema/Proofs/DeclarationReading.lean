import WireSchema.Proofs.LayoutReading
import WireSchema.Proofs.Outline

/-!
# Reading declarations

The layout of a declaration gives its outline, if no field in it is written like an assignment of an
option. Names are not checked against the words of the language, so a field whose type has the name
`option` reads as such an assignment, unless it has a label or options of its own; everything else is
told apart by how it begins.

* `ProtoText.tag`: what a layout says by itself about the kind of declaration it belongs to.
* `ProtoText.isOptionText_field_iff`: the fields that read as assignments.
* `ProtoText.outline_of_enumLayout`, `ProtoText.outline_of_serviceLayout`: declarations are read back
  run by run.
* `ProtoText.outline_of_messageLayout`: so are messages, by induction over what is nested in them.
-/

namespace WireSchema

/-- The field is written like an assignment of its number to an option of its name. -/
def FieldDescriptor.ReadsAsOption (d : FieldDescriptor) : Prop :=
  ProtoText.label d = "" ∧ d.protoType = "option" ∧ d.assigned = []

structure FlatMessageDescriptor.Readable (d : FlatMessageDescriptor) : Prop where
  writable : d.Writable Literal.Explicit
  apart : ∀ f ∈ d.allFields, ¬f.ReadsAsOption

def MessageDescriptor.Readable (d : MessageDescriptor) : Prop := ∀ m ∈ d.flatten, m.Readable

theorem MessageDescriptor.readable_iff {d : FlatMessageDescriptor}
    {nested : List MessageDescriptor} :
    Readable ⟨d, nested⟩ ↔ d.Readable ∧ ∀ n ∈ nested, n.Readable := by
  rw [Readable, flatten, List.forall_mem_cons, forall_flattenAll_iff]
  rfl

/-- A range of field numbers among those of integers. -/
def ReservedRange.toNumbers (r : ReservedRange) : ReservedNumbers := ⟨r.first, r.last⟩

theorem ReservedRange.toNumbers_injective {r s : ReservedRange}
    (h : r.toNumbers = s.toNumbers) : r = s := by
  obtain ⟨hfirst, hlast⟩ := ReservedNumbers.mk.inj h
  cases r
  cases s
  exact congrArg₂ ReservedRange.mk (Int.ofNat.inj hfirst) (Int.ofNat.inj hlast)

/-- Dotted names are names of options. -/
theorem Name.isOptionName_of_isDotted {s : String} (h : isDotted s = true) :
    isOptionName s = true := by
  unfold isDotted at h
  unfold isOptionName optionChars
  split
  · next hparen =>
    rw [hparen] at h
    cases h
  · exact h

/-- The first character of an identifier is no digit: digits come before the letters. -/
theorem Name.not_isDigit_of_isStart {c : Char} (h : isStart c = true) : c.isDigit = false := by
  change ((decide ('A'.val ≤ c.val ∧ c.val ≤ 'Z'.val) ||
    (decide ('a'.val ≤ c.val) && decide (c.val ≤ 'z'.val))) || c == '_') = true at h
  simp only [Bool.or_eq_true, Bool.and_eq_true, decide_eq_true_eq, beq_iff_eq,
    UInt32.le_iff_toNat_le] at h
  have hcode : ¬c.val.toNat ≤ '9'.val.toNat := by
    rcases h with (⟨h, -⟩ | ⟨h, -⟩) | rfl
    · exact fun hle => absurd (h.trans hle) (by decide)
    · exact fun hle => absurd (h.trans hle) (by decide)
    · decide
  rw [Char.isDigit, Bool.and_eq_false_iff]
  exact .inr (decide_eq_false fun hle => hcode (UInt32.le_iff_toNat_le.1 hle))

namespace ProtoText

open Text (Layout)

/-! ## Kinds of layouts -/

def IsOptionText (t : String) : Prop := ∃ e : OptionEntry, e.IsExplicit ∧ t = optionText e

/-- The kind of declaration that a layout belongs to, as far as it shows. -/
inductive Tag where
  | blank
  | option
  | reserved
  /-- A line of any other kind, or a line with options below it. -/
  | item
  /-- A block by the first two characters of its keyword. -/
  | block (keyword : List Char)
deriving DecidableEq

open Classical in
noncomputable def tag : Layout → Tag
  | .blank => .blank
  | .line t => if IsOptionText t then .option else if IsReservedText t then .reserved else .item
  | .block .braces head _ => .block (head.toList.take 2)
  | .block .squares _ _ => .item

theorem tag_option {t : String} (h : IsOptionText t) : tag (.line t) = .option := if_pos h

theorem tag_item {t : String} (hoption : ¬IsOptionText t) (hreserved : ¬IsReservedText t) :
    tag (.line t) = .item :=
  (if_neg hoption).trans (if_neg hreserved)

theorem isOptionText_of_tag {t : String} (h : tag (.line t) = .option) : IsOptionText t := by
  by_contra hnot
  rw [tag, if_neg hnot] at h
  split at h <;> cases h

theorem head?_of_isOptionText {t : String} (h : IsOptionText t) : t.toList.head? = some 'o' := by
  obtain ⟨e, -, rfl⟩ := h
  exact head?_append (head?_append (by decide) _) _

theorem head?_of_isReservedText {t : String} (h : IsReservedText t) :
    t.toList.head? = some 'r' := by
  obtain ⟨c, cs, ht, -⟩ := h
  rw [ht]
  rfl

theorem tag_reserved {t : String} (h : IsReservedText t) : tag (.line t) = .reserved := by
  have hoption : ¬IsOptionText t := fun ho => by
    have hhead := head?_of_isOptionText ho
    rw [head?_of_isReservedText h] at hhead
    cases hhead
  exact (if_neg hoption).trans (if_pos h)

/-- A line that begins with another character than the words of options and reserved numbers. -/
theorem tag_item_of_head {t : String} {c : Char} (h : t.toList.head? = some c) (ho : c ≠ 'o')
    (hr : c ≠ 'r') : tag (.line t) = .item := by
  refine tag_item (fun hoption => ?_) fun hreserved => ?_
  · exact ho (Option.some.inj (h.symm.trans (head?_of_isOptionText hoption)))
  · exact hr (Option.some.inj (h.symm.trans (head?_of_isReservedText hreserved)))

theorem isBlank_of_tag {l : Layout} (h : tag l ≠ .blank) : l.isBlank = false := by
  cases l with
  | blank => exact absurd rfl h
  | _ => rfl

theorem tag_optionLayouts {es : List OptionEntry}
    (h : OptionEntry.AllWritable Literal.Explicit es) :
    ∀ l ∈ optionLayouts es, tag l = .option :=
  List.forall_mem_map.2 fun e he => tag_option ⟨e, h e he, rfl⟩

theorem tag_reservedLines (ranges : List ReservedNumbers) (names : List String) :
    ∀ l ∈ (reserved (numberTexts ranges) names).map Layout.line, tag l = .reserved :=
  List.forall_mem_map.2 fun t ht => tag_reserved (isReservedText ranges names t ht)

theorem tag_braces {keyword name : String} {body : List Layout} {c d : Char} {cs : List Char}
    (h : keyword.toList = c :: d :: cs) :
    tag (.block .braces (keyword ++ name) body) = .block [c, d] := by
  rw [tag, String.toList_append, h]
  rfl

/-- A head with options: one line that goes on behind the head, or a block. -/
theorem annotated_cases (head : String) (es : List OptionEntry) :
    (∃ more, annotated head es = .line (head ++ more) ∧
        (es = [] ∨ more.toList.head? = some ' ')) ∨
      ∃ body, annotated head es = .block .squares head body := by
  match es with
  | [] => exact .inl ⟨";", rfl, .inl rfl⟩
  | [e] =>
    refine .inl ⟨" [" ++ e.text ++ "];", ?_, .inr ?_⟩
    · rw [annotated, String.append_assoc, String.append_assoc, String.append_assoc]
    · exact head?_append (head?_append (by decide) _) _
  | e :: e' :: es => exact .inr ⟨_, rfl⟩

/-! ## Fields -/

/-- What is written like an option statement behind the word. -/
theorem optionText_eq (e : OptionEntry) : optionText e =
    "option" ++ " " ++ (e.name ++ " " ++ ("= " ++ (e.value.render ++ ";"))) := by
  rw [optionText, OptionEntry.text, assignment, ← String.toList_inj]
  simp

theorem blank_not_mem_optionName {name : String} (h : Name.isOptionName name = true) :
    ' ' ∉ name.toList := Name.not_mem_of_isOptionName h (by decide)

section Fields

variable {d : FieldDescriptor}

/-- A line of a field is an option statement only if the field has no options: where the statement
ends, the field would go on with a bracket. -/
theorem readsAsOption_of_text (hd : d.Writable Literal.Explicit) {more : String}
    (hmore : d.assigned = [] ∨ more.toList.head? = some ' ')
    (h : IsOptionText (fieldHead d ++ more)) : d.ReadsAsOption := by
  obtain ⟨e, he, htext⟩ := h
  rw [optionText_eq] at htext
  obtain ⟨hlabel, htype, hrest⟩ := fieldHead_word hd (by decide) htext
  refine ⟨hlabel, htype, hmore.resolve_right fun hblank => ?_⟩
  obtain ⟨-, hvalue⟩ := words_injective (blank_not_mem_optionName he.1)
    (blank_not_mem_name hd.name) hrest
  rw [String.append_assoc] at hvalue
  have hlist := congrArg String.toList ((String.append_right_inj _).1 hvalue)
  rw [String.toList_append, String.toList_append] at hlist
  have hnumber : (Literal.uint d.number).render = toString d.number := rfl
  rw [← hnumber] at hlist
  have hsemicolon : ∀ c ∈ ";".toList.head?, Text.endsNumber c = true := by
    rintro c ⟨⟩
    decide
  obtain ⟨-, hends⟩ := e.value.legible he.2 (.uint d.number) rfl _ _ hsemicolon
    (fun c hc => by rw [hblank] at hc; cases hc; decide) hlist
  rw [← hends] at hblank
  cases hblank

/-- A field is no statement about reserved numbers: behind its type stands a name. -/
theorem not_isReservedText_field {Q : Literal → Prop} (hd : d.Writable Q) (more : String) :
    ¬IsReservedText (fieldHead d ++ more) := by
  rintro ⟨c, cs, htext, hc⟩
  have hwords : fieldHead d ++ more = "reserved" ++ " " ++ String.ofList (c :: cs) := by
    rw [← String.toList_inj, htext]
    simp
  obtain ⟨-, -, hrest⟩ := fieldHead_word hd (by decide) hwords
  obtain ⟨s, ss, hname, hs⟩ := Name.exists_start hd.name
  have hlist := congrArg String.toList hrest
  rw [String.toList_ofList, String.toList_append, String.toList_append, hname] at hlist
  obtain rfl : c = s := (List.cons.inj hlist).1
  rcases hc with hc | rfl | rfl
  · rw [Name.not_isDigit_of_isStart hs] at hc
    cases hc
  · exact absurd hs (by decide)
  · exact absurd hs (by decide)

theorem tag_fieldLayout (hd : d.Writable Literal.Explicit) (hapart : ¬d.ReadsAsOption) :
    tag (fieldLayout d) = .item := by
  obtain ⟨more, hline, hmore⟩ | ⟨body, hblock⟩ := annotated_cases (fieldHead d) d.assigned
  · rw [fieldLayout, hline]
    exact tag_item (fun h => hapart (readsAsOption_of_text hd hmore h))
      (not_isReservedText_field hd more)
  · rw [fieldLayout, hblock]
    rfl

/-- **The fields that are written like options** are those without a label and without options whose
type has the name `option`. -/
theorem isOptionText_field_iff (hd : d.Writable Literal.Explicit) :
    (∃ t, fieldLayout d = .line t ∧ IsOptionText t) ↔ d.ReadsAsOption := by
  constructor
  · rintro ⟨t, hline, htext⟩
    obtain ⟨more, hmore, hends⟩ | ⟨body, hblock⟩ := annotated_cases (fieldHead d) d.assigned
    · obtain rfl := Layout.line.inj (hmore.symm.trans hline)
      exact readsAsOption_of_text hd hends htext
    · cases hblock.symm.trans hline
  · rintro ⟨hlabel, htype, hnone⟩
    have hname : Name.isOptionName d.name = true :=
      Name.isOptionName_of_isDotted (Name.isDotted_of_isIdentifier hd.name)
    refine ⟨optionText ⟨d.name, .uint d.number⟩, ?_, _, ⟨hname, rfl⟩, rfl⟩
    have hrender : (Literal.uint d.number).render = toString d.number := rfl
    rw [fieldLayout, hnone, annotated, fieldHead, hlabel, htype, optionText_eq, hrender]
    refine congrArg Layout.line (String.toList_inj.1 ?_)
    simp

theorem tag_fieldLayouts {ds : List FieldDescriptor}
    (hds : ∀ d ∈ ds, d.Writable Literal.Explicit) (hapart : ∀ d ∈ ds, ¬d.ReadsAsOption) :
    ∀ l ∈ ds.map fieldLayout, tag l = .item :=
  List.forall_mem_map.2 fun d hd => tag_fieldLayout (hds d hd) (hapart d hd)

end Fields

/-! ## Oneofs -/

/-- Runs of layouts that belong to different kinds of declarations. -/
abbrev Runs (ks : List Tag) (lss : List (List Layout)) : Prop :=
  List.Forall₂ (fun k ls => ∀ l ∈ ls, tag l = k) ks lss

theorem runs_oneof {d : OneofDescriptor} (hd : d.Writable Literal.Explicit)
    (hapart : ∀ f ∈ d.fields, ¬f.ReadsAsOption) :
    Runs [.option, .item] [optionLayouts d.assigned, d.fields.map fieldLayout] :=
  .cons (tag_optionLayouts hd.assigned) (.cons (tag_fieldLayouts hd.fields hapart) .nil)

theorem outline_of_oneofLayout {d e : OneofDescriptor} (hd : d.Writable Literal.Explicit)
    (he : e.Writable Literal.Explicit) (hd' : ∀ f ∈ d.fields, ¬f.ReadsAsOption)
    (he' : ∀ f ∈ e.fields, ¬f.ReadsAsOption) (h : oneofLayout d = oneofLayout e) :
    d.outline = e.outline := by
  obtain ⟨-, hname, hbody⟩ := Layout.block.inj h
  have hruns := Text.runs_injective (by decide) (runs_oneof hd hd') (runs_oneof he he')
    (by simpa using hbody)
  obtain ⟨hoptions, hfields⟩ := List.cons.inj hruns
  rw [OneofDescriptor.outline, OneofDescriptor.outline, (String.append_right_inj _).1 hname,
    canonicalAll_of_optionLayouts hd.assigned he.assigned hoptions,
    outlines_of_fieldLayouts hd.fields he.fields (List.cons.inj hfields).1]

/-! ## Enums -/

section Enums

variable {v w : EnumValueDescriptor}

/-- The first word of an enum value is its name, and an equals sign follows. -/
theorem enumValueHead_eq (v : EnumValueDescriptor) (more : String) :
    v.name ++ " = " ++ toString v.number ++ more =
      v.name ++ " " ++ ("=" ++ " " ++ (toString v.number ++ more)) := by
  rw [← String.toList_inj]
  simp

/-- No option is named like the equals sign behind the name of an enum value. -/
theorem not_isOptionText_enumValue (hv : v.Writable Literal.Explicit) (more : String) :
    ¬IsOptionText (v.name ++ " = " ++ toString v.number ++ more) := by
  rintro ⟨e, he, htext⟩
  rw [enumValueHead_eq, optionText_eq] at htext
  obtain ⟨-, hrest⟩ := words_injective (blank_not_mem_name hv.name) (by decide) htext
  obtain ⟨hname, -⟩ := words_injective (by decide) (blank_not_mem_optionName he.1) hrest
  have hequals := he.1
  rw [← hname] at hequals
  exact absurd hequals (by decide +kernel)

theorem not_isReservedText_enumValue (hv : v.Writable Literal.Explicit) (more : String) :
    ¬IsReservedText (v.name ++ " = " ++ toString v.number ++ more) := by
  rintro ⟨c, cs, htext, hc⟩
  have hwords : v.name ++ " " ++ ("=" ++ " " ++ (toString v.number ++ more)) =
      "reserved" ++ " " ++ String.ofList (c :: cs) := by
    rw [← enumValueHead_eq, ← String.toList_inj, htext]
    simp
  obtain ⟨-, hrest⟩ := words_injective (blank_not_mem_name hv.name) (by decide) hwords
  have hlist := congrArg String.toList hrest
  rw [String.toList_ofList, String.append_assoc, String.toList_append] at hlist
  rw [← (List.cons.inj hlist).1] at hc
  exact absurd hc (by decide)

theorem tag_enumValueLayout (hv : v.Writable Literal.Explicit) : tag (enumValueLayout v) = .item := by
  obtain ⟨more, hline, -⟩ | ⟨body, hblock⟩ :=
    annotated_cases (v.name ++ " = " ++ toString v.number) v.options
  · rw [enumValueLayout, hline]
    exact tag_item (not_isOptionText_enumValue hv more) (not_isReservedText_enumValue hv more)
  · rw [enumValueLayout, hblock]
    rfl

theorem outline_of_enumValueLayout (hv : v.Writable Literal.Explicit)
    (hw : w.Writable Literal.Explicit) (h : enumValueLayout v = enumValueLayout w) :
    v.outline = w.outline := by
  have hbracket : ∀ {v : EnumValueDescriptor}, v.Writable Literal.Explicit →
      '[' ∉ (v.name ++ " = " ++ toString v.number).toList := by
    intro v hv hmem
    have hname : ∀ c ∈ v.name.toList, Text.isPlain c = true := fun c hc =>
      Name.isPlain_of_isPart (Name.isPart_of_isIdentifier hv.name c hc)
    exact absurd (isPlain_append (isPlain_append hname (by decide)) (Text.isPlain_int _) _ hmem)
      (by decide)
  obtain ⟨hhead, hassigned⟩ :=
    annotated_injective (hbracket hv) (hbracket hw) hv.options hw.options h
  have hwords : v.name ++ " " ++ ("=" ++ " " ++ (toString v.number ++ "")) =
      w.name ++ " " ++ ("=" ++ " " ++ (toString w.number ++ "")) := by
    rw [← enumValueHead_eq, ← enumValueHead_eq, hhead]
  obtain ⟨hname, hrest⟩ :=
    words_injective (blank_not_mem_name hv.name) (blank_not_mem_name hw.name) hwords
  have hnumber := Text.readsBack_int v.number w.number trivial [] [] nofun nofun
    (congrArg (fun t : String => t.toList ++ [])
      ((String.append_left_inj _).1 ((String.append_right_inj _).1 hrest)))
  rw [EnumValueDescriptor.outline, EnumValueDescriptor.outline, hname, hassigned]
  exact congrArg (fun n => EnumValueOutline.mk w.name n _) hnumber.1

theorem runs_enum {d : EnumDescriptor} (hd : d.Writable Literal.Explicit) :
    Runs [.option, .item, .reserved] [optionLayouts d.options, d.values.map enumValueLayout,
      (reserved (numberTexts d.reservedRanges) d.reservedNames).map .line] :=
  .cons (tag_optionLayouts hd.options) <|
    .cons (List.forall_mem_map.2 fun v hv => tag_enumValueLayout (hd.values v hv)) <|
      .cons (tag_reservedLines _ _) .nil

/-- **An enum is read back** from its layout. -/
theorem outline_of_enumLayout {d e : EnumDescriptor} (hd : d.Writable Literal.Explicit)
    (he : e.Writable Literal.Explicit) (h : enumLayout d = enumLayout e) :
    d.outline = e.outline := by
  obtain ⟨-, hname, hbody⟩ := Layout.block.inj h
  have hruns := Text.runs_injective (by decide) (runs_enum hd) (runs_enum he)
    (by simpa using hbody)
  simp only [List.cons.injEq, and_true] at hruns
  obtain ⟨hoptions, hvalues, hreserved⟩ := hruns
  obtain ⟨hranges, hnames⟩ :=
    reserved_injective ((List.map_inj_right fun _ _ => Layout.line.inj).1 hreserved)
  have houtlines := map_eq_of_map_eq (fun v hv w hw =>
    outline_of_enumValueLayout (hd.values v hv) (he.values w hw)) hvalues
  rw [EnumDescriptor.outline, EnumDescriptor.outline, (String.append_right_inj _).1 hname,
    canonicalAll_of_optionLayouts hd.options he.options hoptions, houtlines, hranges, hnames]

end Enums

/-! ## Messages -/

theorem rangeTexts_eq (rs : List ReservedRange) :
    rangeTexts rs = numberTexts (rs.map ReservedRange.toNumbers) := by
  rw [rangeTexts, numberTexts, List.map_map]
  rfl

theorem messageLayouts_eq (ms : List MessageDescriptor) :
    messageLayouts ms = ms.map fun m => [messageLayout m] := by
  induction ms with
  | nil => rfl
  | cons m ms ih => rw [messageLayouts, ih, List.map_cons]

theorem flatten_singletons {α : Type} (f : α → Layout) (as : List α) :
    (as.map fun a => [f a]).flatten = as.map f := by
  rw [← List.flatMap_def, ← List.map_eq_flatMap]

/-- The runs of a message. -/
def messageRuns (m : FlatMessageDescriptor) (nested : List MessageDescriptor) :
    List (List Layout) :=
  [optionLayouts m.assigned, (reserved (rangeTexts m.reservedRanges) m.reservedNames).map .line,
    m.fields.map fieldLayout, m.oneofs.map oneofLayout, m.enums.map enumLayout,
    nested.map messageLayout]

theorem flatten_messageParts (m : FlatMessageDescriptor) (nested : List MessageDescriptor) :
    (messageParts m ++ messageLayouts nested).flatten = (messageRuns m nested).flatten := by
  simp [messageParts, messageLayouts_eq, messageRuns, flatten_singletons]

theorem runs_message {m : FlatMessageDescriptor} {nested : List MessageDescriptor}
    (hm : m.Readable) : Runs [.option, .reserved, .item, .block ['o', 'n'], .block ['e', 'n'],
      .block ['m', 'e']] (messageRuns m nested) := by
  have hfields : ∀ f ∈ m.fields, ¬f.ReadsAsOption := fun f hf =>
    hm.apart f (List.mem_append_left _ hf)
  refine .cons (tag_optionLayouts hm.writable.assigned) <| .cons ?_ <|
    .cons (tag_fieldLayouts hm.writable.fields hfields) <|
    .cons (List.forall_mem_map.2 fun o _ => tag_braces rfl) <|
    .cons (List.forall_mem_map.2 fun e _ => tag_braces rfl) <|
    .cons (List.forall_mem_map.2 ?_) .nil
  · rw [rangeTexts_eq]
    exact tag_reservedLines _ _
  · rintro ⟨n, ns⟩ _
    rw [messageLayout]
    exact tag_braces rfl

/-- There are no blank lines among runs of other kinds. -/
theorem solid_of_runs {ks : List Tag} (hks : Tag.blank ∉ ks) {lss : List (List Layout)}
    (h : Runs ks lss) : Layout.Solid lss := by
  intro l hmem
  obtain ⟨ls, hls, hl⟩ := List.mem_flatten.1 hmem
  obtain ⟨k, hk, htag⟩ := exists_of_forall₂_right h hls
  exact isBlank_of_tag fun hblank => hks (hblank ▸ htag l hl ▸ hk)

/-- Sections that consist of runs give them. -/
theorem runs_of_sections {ks : List Tag} (hks : (Tag.blank :: ks).Nodup)
    {ps qs lss mss : List (List Layout)} (hp : ps.flatten = lss.flatten)
    (hq : qs.flatten = mss.flatten) (hl : Runs ks lss) (hm : Runs ks mss)
    (h : Layout.sections ps = Layout.sections qs) : lss = mss := by
  obtain ⟨hblank, hks⟩ := List.nodup_cons.1 hks
  have hflatten : ps.flatten = qs.flatten := Layout.flatten_of_sections
    (by rw [Layout.Solid, hp]; exact solid_of_runs hblank hl)
    (by rw [Layout.Solid, hq]; exact solid_of_runs hblank hm) h
  exact Text.runs_injective hks hl hm (hp.symm.trans (hflatten.trans hq))

/-- A message but for what is nested in it is read back from its name and its runs. -/
theorem outline_of_messageRuns {a b : FlatMessageDescriptor} {as bs : List MessageDescriptor}
    (ha : a.Readable) (hb : b.Readable) (hname : a.name = b.name)
    (h : messageRuns a as = messageRuns b bs) : a.outline = b.outline := by
  have hchoices : ∀ {m : FlatMessageDescriptor}, m.Readable → ∀ o ∈ m.oneofs, ∀ f ∈ o.fields,
      ¬f.ReadsAsOption := fun hm o ho f hf =>
    hm.apart f (List.mem_append_right _ (List.mem_flatMap.2 ⟨o, ho, hf⟩))
  simp only [messageRuns, List.cons.injEq, and_true] at h
  obtain ⟨hoptions, hreserved, hfields, honeofs, henums, -⟩ := h
  rw [rangeTexts_eq, rangeTexts_eq] at hreserved
  obtain ⟨hranges, hnames⟩ :=
    reserved_injective ((List.map_inj_right fun _ _ => Layout.line.inj).1 hreserved)
  have hranges := (List.map_inj_right fun _ _ => ReservedRange.toNumbers_injective).1 hranges
  have honeofs := map_eq_of_map_eq (fun o ho p hp => outline_of_oneofLayout
    (ha.writable.oneofs o ho) (hb.writable.oneofs p hp) (hchoices ha o ho) (hchoices hb p hp))
    honeofs
  have henums := map_eq_of_map_eq (fun d hd e he =>
    outline_of_enumLayout (ha.writable.enums d hd) (hb.writable.enums e he)) henums
  rw [FlatMessageDescriptor.outline, FlatMessageDescriptor.outline, hname,
    canonicalAll_of_optionLayouts ha.writable.assigned hb.writable.assigned hoptions, hranges,
    hnames, outlines_of_fieldLayouts ha.writable.fields hb.writable.fields hfields, honeofs, henums]

mutual

/-- **A message is read back** from its layout, with the messages nested in it. -/
theorem outline_of_messageLayout : ∀ a b : MessageDescriptor, a.Readable → b.Readable →
    messageLayout a = messageLayout b → a.outline = b.outline
  | ⟨a, as⟩, ⟨b, bs⟩, ha, hb, h => by
    obtain ⟨ha, has⟩ := MessageDescriptor.readable_iff.1 ha
    obtain ⟨hb, hbs⟩ := MessageDescriptor.readable_iff.1 hb
    rw [messageLayout, messageLayout] at h
    obtain ⟨-, hname, hsections⟩ := Layout.block.inj h
    have hruns := runs_of_sections (by decide) (flatten_messageParts a as)
      (flatten_messageParts b bs) (runs_message ha) (runs_message hb) hsections
    have hnested : as.map messageLayout = bs.map messageLayout := by
      simp only [messageRuns, List.cons.injEq, and_true] at hruns
      exact hruns.2.2.2.2.2
    rw [MessageDescriptor.outline, MessageDescriptor.outline,
      outline_of_messageRuns ha hb ((String.append_right_inj _).1 hname) hruns,
      outlines_of_messageLayouts as bs has hbs hnested]

theorem outlines_of_messageLayouts : ∀ as bs : List MessageDescriptor,
    (∀ a ∈ as, a.Readable) → (∀ b ∈ bs, b.Readable) →
      as.map messageLayout = bs.map messageLayout →
        MessageDescriptor.outlines as = MessageDescriptor.outlines bs
  | [], [], _, _, _ => rfl
  | a :: as, b :: bs, ha, hb, h => by
    obtain ⟨ha, has⟩ := List.forall_mem_cons.1 ha
    obtain ⟨hb, hbs⟩ := List.forall_mem_cons.1 hb
    obtain ⟨hhead, htail⟩ := List.cons.inj h
    rw [MessageDescriptor.outlines, MessageDescriptor.outlines,
      outline_of_messageLayout a b ha hb hhead, outlines_of_messageLayouts as bs has hbs htail]

end

/-! ## Services -/

/-- What stands between the parentheses of a signature. -/
theorem streamText_injective {s t : Bool} {type type' : TypeRef}
    (htype : Name.isDotted type.protoName = true) (htype' : Name.isDotted type'.protoName = true)
    (h : streamText s type = streamText t type') :
    s = t ∧ type.protoName = type'.protoName := by
  have hblank : ∀ {s : String}, Name.isDotted s = true → ' ' ∉ s.toList := fun hs hmem =>
    absurd ((Name.isPart_of_dottedChars _).1 hs _ hmem) (by decide)
  have hstream : ∀ {s t : String}, Name.isDotted s = true → s ≠ "stream " ++ t := by
    rintro s t hs rfl
    exact hblank hs (by simp)
  cases s <;> cases t
  · exact ⟨rfl, (String.append_right_inj _).1 h⟩
  · exact absurd (String.empty_append.symm.trans h) (hstream htype)
  · exact absurd (String.empty_append.symm.trans h.symm) (hstream htype')
  · exact ⟨rfl, (String.append_right_inj _).1 h⟩

section Services

variable {m n : MethodDescriptor}

/-- **A signature gives the method**: its name ends at a parenthesis, and so do its types. -/
theorem signature_injective (hm : m.Writable Literal.Explicit) (hn : n.Writable Literal.Explicit)
    (h : signature m = signature n) : m.name = n.name ∧
      (m.clientStreaming = n.clientStreaming ∧ m.input.protoName = n.input.protoName) ∧
      m.serverStreaming = n.serverStreaming ∧ m.output.protoName = n.output.protoName := by
  have hsplit : ∀ m : MethodDescriptor, (signature m).toList = "rpc ".toList ++ (m.name.toList ++
      '(' :: ((streamText m.clientStreaming m.input).toList ++ ')' ::
        (" returns (".toList ++ (streamText m.serverStreaming m.output ++ ")").toList))) := by
    intro m
    simp [signature]
  have hclose : ∀ {s : Bool} {type : TypeRef}, Name.isDotted type.protoName = true →
      ')' ∉ (streamText s type).toList := by
    intro s type htype hmem
    rw [streamText, String.toList_append, List.mem_append] at hmem
    rcases hmem with hword | hname
    · cases s <;> exact absurd hword (by decide)
    · exact absurd ((Name.isPart_of_dottedChars _).1 htype _ hname) (by decide)
  have hlist := congrArg String.toList h
  rw [hsplit, hsplit] at hlist
  obtain ⟨hname, hbehind⟩ := Text.cut_at (Name.not_mem_of_isIdentifier hm.name (by decide))
    (Name.not_mem_of_isIdentifier hn.name (by decide)) (List.append_cancel_left hlist)
  obtain ⟨hinput, hrest⟩ := Text.cut_at (hclose hm.input) (hclose hn.input) hbehind
  have houtput := (String.append_left_inj _).1 (String.toList_inj.1 (List.append_cancel_left hrest))
  exact ⟨String.toList_inj.1 hname,
    streamText_injective hm.input hn.input (String.toList_inj.1 hinput),
    streamText_injective hm.output hn.output houtput⟩

theorem outline_of_methodLayout (hm : m.Writable Literal.Explicit)
    (hn : n.Writable Literal.Explicit) (h : methodLayout m = methodLayout n) :
    m.outline = n.outline := by
  have hboth : signature m = signature n ∧
      OptionEntry.canonicalAll m.options = OptionEntry.canonicalAll n.options := by
    unfold methodLayout at h
    split at h
    · next hnone =>
      split at h
      · next hnone' =>
        rw [List.isEmpty_iff.1 hnone, List.isEmpty_iff.1 hnone']
        exact ⟨(String.append_left_inj _).1 (Layout.line.inj h), rfl⟩
      · cases h
    · split at h
      · cases h
      · obtain ⟨-, hhead, hbody⟩ := Layout.block.inj h
        exact ⟨hhead, canonicalAll_of_optionLayouts hm.options hn.options hbody⟩
  obtain ⟨hname, ⟨hclient, hinput⟩, hserver, houtput⟩ := signature_injective hm hn hboth.1
  rw [MethodDescriptor.outline, MethodDescriptor.outline, hname, hclient, hinput, hserver, houtput,
    hboth.2]

/-- A method is no option statement. -/
theorem tag_methodLayout (m : MethodDescriptor) : tag (methodLayout m) ≠ .option := by
  unfold methodLayout
  split
  · have hhead : (signature m ++ ";").toList.head? = some 'r' := by
      simp [signature]
    intro h
    rw [head?_of_isOptionText (isOptionText_of_tag h)] at hhead
    cases hhead
  · intro h
    cases h

theorem outline_of_serviceLayout {d e : ServiceDescriptor} (hd : d.Writable Literal.Explicit)
    (he : e.Writable Literal.Explicit) (h : serviceLayout d = serviceLayout e) :
    d.outline = e.outline := by
  have hmethods : ∀ ms : List MethodDescriptor, ∀ l ∈ (ms.map methodLayout).head?,
      ¬tag l = .option := by
    intro ms l hl
    obtain ⟨m, -, rfl⟩ := List.mem_map.1 (List.mem_of_head? hl)
    exact tag_methodLayout m
  obtain ⟨-, hname, hbody⟩ := Layout.block.inj h
  obtain ⟨hoptions, hlayouts⟩ := Text.append_cut (tag_optionLayouts hd.options)
    (tag_optionLayouts he.options) (hmethods _) (hmethods _) hbody
  have houtlines := map_eq_of_map_eq (fun m hm n hn =>
    outline_of_methodLayout (hd.methods m hm) (he.methods n hn)) hlayouts
  rw [ServiceDescriptor.outline, ServiceDescriptor.outline, (String.append_right_inj _).1 hname,
    canonicalAll_of_optionLayouts hd.options he.options hoptions, houtlines]

end Services

/-! ## Extension blocks -/

theorem extendee_injective {t u : ExtensionTarget} (h : t.extendee = u.extendee) : t = u := by
  have hall : ∀ t ∈ ExtensionTarget.all, ∀ u ∈ ExtensionTarget.all,
      t.extendee = u.extendee → t = u := by decide
  exact hall t (by cases t <;> decide) u (by cases u <;> decide) h

theorem outline_of_extensionLayout {d e : ExtensionDescriptor}
    (hd : ∀ f ∈ d.fields, f.Writable Literal.Explicit)
    (he : ∀ f ∈ e.fields, f.Writable Literal.Explicit)
    (h : extensionLayout d = extensionLayout e) : d.outline = e.outline := by
  obtain ⟨-, htarget, hfields⟩ := Layout.block.inj h
  rw [ExtensionDescriptor.outline, ExtensionDescriptor.outline,
    extendee_injective ((String.append_right_inj _).1 htarget),
    outlines_of_fieldLayouts hd he hfields]

end ProtoText
end WireSchema

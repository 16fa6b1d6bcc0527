import WireSchema.Proofs.Fragment

/-!
# The layout of a file

The lines of a file form a tree: blank lines, single lines, and blocks of lines between brackets.
Each declaration has its own subtree, so what holds of the text of a file follows from what holds of
the texts in the tree.

* `Text.Layout`: the tree, and the lines that it stands for.
* `ProtoText.linesAll_fileLayout`: the lines of a file are those of its layout.
* `ProtoText.sentence_fileLayout`: the texts in the layout of a writable file are fragments, and begin
  with something other than a blank or a closing bracket. The induction over nested messages is here.
-/

namespace WireSchema

namespace Text

/-! ## Layouts -/

/-- The brackets around the lines of a block. -/
inductive Enclosure where
  | braces
  | squares
deriving DecidableEq, Repr

def Enclosure.opening : Enclosure → String
  | braces => "\x7b"
  | squares => "["

/-- The line that ends a block. -/
def Enclosure.closing : Enclosure → String
  | braces => "\x7d"
  | squares => "];"

/-- Lines as a tree. -/
inductive Layout where
  | blank
  | line (text : String)
  | block (enclosure : Enclosure) (head : String) (body : List Layout)

namespace Layout

mutual

/-- The lines of a layout; those inside a block are moved to the right. -/
def lines : Layout → List String
  | blank => [""]
  | line text => [text]
  | block e head body => (head ++ " " ++ e.opening) :: indent 2 (linesAll body) ++ [e.closing]

def linesAll : List Layout → List String
  | [] => []
  | l :: ls => lines l ++ linesAll ls

end

mutual

/-- The texts in a layout: its single lines, and the heads of its blocks without their brackets. -/
def texts : Layout → List String
  | blank => []
  | line text => [text]
  | block _ head body => head :: textsAll body

def textsAll : List Layout → List String
  | [] => []
  | l :: ls => texts l ++ textsAll ls

end

/-- The parts that are not empty, with a blank line between each two. -/
def sections (parts : List (List Layout)) : List Layout :=
  [blank].intercalate (parts.filter fun part => !part.isEmpty)

/-! ## Lines and texts of lists -/

theorem lines_ne_nil (l : Layout) : l.lines ≠ [] := by
  cases l <;> simp [lines]

@[simp] theorem linesAll_append (ls ms : List Layout) :
    linesAll (ls ++ ms) = linesAll ls ++ linesAll ms := by
  induction ls with
  | nil => rfl
  | cons l ls ih => rw [List.cons_append, linesAll, linesAll, ih, List.append_assoc]

theorem linesAll_map {α : Type} {f : α → Layout} {g : α → List String}
    (h : ∀ a, (f a).lines = g a) (as : List α) : linesAll (as.map f) = as.flatMap g := by
  induction as with
  | nil => rfl
  | cons a as ih => rw [List.map_cons, linesAll, h, ih, List.flatMap_cons]

theorem linesAll_lines (ts : List String) : linesAll (ts.map line) = ts := by
  rw [linesAll_map (g := fun t => [t]) fun _ => rfl, List.flatMap_singleton']

theorem isEmpty_linesAll (ls : List Layout) : (linesAll ls).isEmpty = ls.isEmpty := by
  cases ls with
  | nil => rfl
  | cons l ls => simp [linesAll, lines_ne_nil]

theorem linesAll_intercalate (parts : List (List Layout)) :
    linesAll ([blank].intercalate parts) = [""].intercalate (parts.map linesAll) := by
  induction parts with
  | nil => rfl
  | cons part parts ih =>
    cases parts with
    | nil => simp
    | cons next parts =>
      have hlines : (part :: next :: parts).map linesAll =
          linesAll part :: linesAll next :: parts.map linesAll := rfl
      rw [List.intercalate_cons_cons, linesAll_append, linesAll_append, ih, hlines,
        List.intercalate_cons_cons]
      rfl

/-- Sections of layouts are sections of lines. -/
theorem linesAll_sections (parts : List (List Layout)) :
    linesAll (sections parts) = Text.sections (parts.map linesAll) := by
  have hempty : ((fun part : List String => !part.isEmpty) ∘ linesAll) =
      fun part : List Layout => !part.isEmpty :=
    funext fun part => by rw [Function.comp_apply, isEmpty_linesAll]
  rw [sections, linesAll_intercalate, Text.sections, List.filter_map, hempty]

theorem mem_textsAll {ls : List Layout} {t : String} :
    t ∈ textsAll ls ↔ ∃ l ∈ ls, t ∈ l.texts := by
  induction ls with
  | nil => simp [textsAll]
  | cons l ls ih => rw [textsAll, List.mem_append, ih]; simp

theorem mem_intercalate {l : Layout} {parts : List (List Layout)}
    (h : l ∈ [blank].intercalate parts) : l = blank ∨ ∃ part ∈ parts, l ∈ part := by
  induction parts with
  | nil => cases h
  | cons part parts ih =>
    cases parts with
    | nil => exact .inr ⟨part, List.mem_cons_self, by simpa using h⟩
    | cons next parts =>
      rw [List.intercalate_cons_cons, List.mem_append, List.mem_append] at h
      rcases h with (h | h) | h
      · exact .inr ⟨part, List.mem_cons_self, h⟩
      · exact .inl (List.mem_singleton.1 h)
      · obtain hblank | ⟨p, hp, hl⟩ := ih h
        · exact .inl hblank
        · exact .inr ⟨p, List.mem_cons_of_mem _ hp, hl⟩

/-- A property of the texts in every part holds of the texts in the sections. -/
theorem forall_textsAll_sections {P : String → Prop} {parts : List (List Layout)}
    (h : ∀ part ∈ parts, ∀ t ∈ textsAll part, P t) : ∀ t ∈ textsAll (sections parts), P t := by
  intro t ht
  obtain ⟨l, hl, ht⟩ := mem_textsAll.1 ht
  obtain rfl | ⟨part, hpart, hl⟩ := mem_intercalate hl
  · cases ht
  · exact h part (List.mem_of_mem_filter hpart) t (mem_textsAll.2 ⟨l, hl, ht⟩)

theorem forall_textsAll_append {P : String → Prop} {ls ms : List Layout}
    (hls : ∀ t ∈ textsAll ls, P t) (hms : ∀ t ∈ textsAll ms, P t) :
    ∀ t ∈ textsAll (ls ++ ms), P t := by
  intro t ht
  obtain ⟨l, hl, ht⟩ := mem_textsAll.1 ht
  rcases List.mem_append.1 hl with hl | hl
  · exact hls t (mem_textsAll.2 ⟨l, hl, ht⟩)
  · exact hms t (mem_textsAll.2 ⟨l, hl, ht⟩)

theorem forall_textsAll_map {α : Type} {P : String → Prop} {f : α → Layout} {as : List α}
    (h : ∀ a ∈ as, ∀ t ∈ (f a).texts, P t) : ∀ t ∈ textsAll (as.map f), P t := by
  intro t ht
  obtain ⟨l, hl, ht⟩ := mem_textsAll.1 ht
  obtain ⟨a, ha, rfl⟩ := List.mem_map.1 hl
  exact h a ha t ht

theorem forall_texts_block {P : String → Prop} {e : Enclosure} {head : String}
    {body : List Layout} (hhead : P head) (hbody : ∀ t ∈ textsAll body, P t) :
    ∀ t ∈ (block e head body).texts, P t :=
  List.forall_mem_cons.2 ⟨hhead, hbody⟩

end Layout
end Text

/-! ## Layouts of declarations -/

namespace ProtoText

open Text (Layout)

def optionText (e : OptionEntry) : String := "option " ++ e.text ++ ";"

/-- Each assignment as a statement. -/
def optionLayouts (entries : List OptionEntry) : List Layout :=
  entries.map fun e => .line (optionText e)

/-- A declaration with its assignments in brackets. -/
def annotated (head : String) : List OptionEntry → Layout
  | [] => .line (head ++ ";")
  | [e] => .line (head ++ " [" ++ e.text ++ "];")
  | es => .block .squares head ((Text.commaLines (es.map OptionEntry.text)).map .line)

/-- A field up to its options. -/
def fieldHead (d : FieldDescriptor) : String :=
  label d ++ d.protoType ++ " " ++ d.name ++ " = " ++ toString d.number

def fieldLayout (d : FieldDescriptor) : Layout := annotated (fieldHead d) d.assigned

def oneofLayout (d : OneofDescriptor) : Layout :=
  .block .braces ("oneof " ++ d.name) (optionLayouts d.assigned ++ d.fields.map fieldLayout)

def enumValueLayout (v : EnumValueDescriptor) : Layout :=
  annotated (v.name ++ " = " ++ toString v.number) v.options

/-- The ends of the ranges that an enum reserves, as they are written. -/
def numberTexts (rs : List ReservedNumbers) : List (String × String) :=
  rs.map fun r => (toString r.first, toString r.last)

/-- The ends of the ranges that a message reserves, as they are written. -/
def rangeTexts (rs : List ReservedRange) : List (String × String) :=
  rs.map fun r => (toString r.first, toString r.last)

def enumLayout (d : EnumDescriptor) : Layout :=
  .block .braces ("enum " ++ d.name) (optionLayouts d.options ++ d.values.map enumValueLayout
    ++ (reserved (numberTexts d.reservedRanges) d.reservedNames).map .line)

/-- The parts of a message in front of the messages nested in it. -/
def messageParts (m : FlatMessageDescriptor) : List (List Layout) :=
  [optionLayouts m.assigned,
    (reserved (rangeTexts m.reservedRanges) m.reservedNames).map .line,
    m.fields.map fieldLayout]
    ++ m.oneofs.map (fun o => [oneofLayout o])
    ++ m.enums.map (fun e => [enumLayout e])

mutual

def messageLayout : MessageDescriptor → Layout
  | ⟨m, nested⟩ => .block .braces ("message " ++ m.name)
      (Layout.sections (messageParts m ++ messageLayouts nested))

/-- Messages side by side, each a part of its own. -/
def messageLayouts : List MessageDescriptor → List (List Layout)
  | [] => []
  | m :: ms => [messageLayout m] :: messageLayouts ms

end

def signature (m : MethodDescriptor) : String :=
  "rpc " ++ m.name ++ "(" ++ streamText m.clientStreaming m.input ++ ") returns ("
    ++ streamText m.serverStreaming m.output ++ ")"

def methodLayout (m : MethodDescriptor) : Layout :=
  if m.options.isEmpty then .line (signature m ++ ";")
  else .block .braces (signature m) (optionLayouts m.options)

def serviceLayout (d : ServiceDescriptor) : Layout :=
  .block .braces ("service " ++ d.name) (optionLayouts d.options ++ d.methods.map methodLayout)

def extensionLayout (d : ExtensionDescriptor) : Layout :=
  .block .braces ("extend " ++ d.target.extendee) (d.fields.map fieldLayout)

def importText (path : String) : String := "import " ++ Text.quote path ++ ";"

/-- The parts of a file, the comment with its name first. -/
def fileParts (name : String) (d : FileDescriptor) : List (List Layout) :=
  [[.line banner, .line ("// source: " ++ name)],
    [.line "syntax = \"proto3\";"],
    [.line ("package " ++ d.package ++ ";")],
    d.imports.toList.map fun path => .line (importText path),
    optionLayouts d.options]
    ++ d.enums.map (fun e => [enumLayout e])
    ++ messageLayouts d.messages
    ++ d.services.map (fun v => [serviceLayout v])
    ++ d.extensions.map fun e => [extensionLayout e]

def fileLayout (name : String) (d : FileDescriptor) : List Layout :=
  Layout.sections (fileParts name d)

/-! ## Lines of declarations -/

theorem linesAll_optionLayouts (entries : List OptionEntry) :
    Layout.linesAll (optionLayouts entries) = statements (entries.map OptionEntry.text) := by
  rw [optionLayouts, Layout.linesAll_map (g := fun e => [optionText e]) fun _ => rfl, statements,
    List.map_map, ← List.map_eq_flatMap]
  rfl

theorem lines_annotated (head : String) (entries : List OptionEntry) :
    (annotated head entries).lines = withOptions head (entries.map OptionEntry.text) := by
  cases entries with
  | nil => rfl
  | cons e es =>
    cases es with
    | nil => rfl
    | cons e' es =>
      have hblock : annotated head (e :: e' :: es) = .block .squares head
        ((Text.commaLines ((e :: e' :: es).map OptionEntry.text)).map .line) := rfl
      rw [hblock, Layout.lines, Layout.linesAll_lines, String.append_assoc]
      rfl

theorem lines_fieldLayout (d : FieldDescriptor) : (fieldLayout d).lines = ofField d := by
  rw [fieldLayout, lines_annotated, ofField, assignments_eq]
  rfl

theorem lines_enumValueLayout (v : EnumValueDescriptor) :
    (enumValueLayout v).lines = ofEnumValue v := by
  rw [enumValueLayout, lines_annotated, ofEnumValue, assignments_eq, List.flatMap_nil,
    List.append_nil]

/-- A block in braces is a declaration. -/
theorem lines_braces (head : String) (body : List Layout) :
    (Layout.block .braces head body).lines = declaration head (Layout.linesAll body) := by
  rw [Layout.lines, String.append_assoc]
  rfl

theorem lines_oneofLayout (d : OneofDescriptor) : (oneofLayout d).lines = ofOneof d := by
  rw [oneofLayout, lines_braces, Layout.linesAll_append, linesAll_optionLayouts,
    Layout.linesAll_map lines_fieldLayout, ofOneof, assignments_eq]
  rfl

theorem optionStatements_eq (options : List OptionEntry) :
    optionStatements options = statements (options.map OptionEntry.text) := by
  rw [optionStatements, assignments_eq, List.flatMap_nil, List.append_nil]

theorem lines_enumLayout (d : EnumDescriptor) : (enumLayout d).lines = ofEnum d := by
  rw [enumLayout, lines_braces, Layout.linesAll_append, Layout.linesAll_append,
    linesAll_optionLayouts, Layout.linesAll_map lines_enumValueLayout, Layout.linesAll_lines,
    ofEnum, optionStatements_eq]
  rfl

/-- Layouts that are parts of their own. -/
theorem map_linesAll_singletons {α : Type} {f : α → Layout} {g : α → List String}
    (h : ∀ a, (f a).lines = g a) (as : List α) :
    (as.map fun a => [f a]).map Layout.linesAll = as.map g := by
  rw [List.map_map]
  refine List.map_congr_left fun a _ => ?_
  rw [Function.comp_apply, Layout.linesAll, h, Layout.linesAll, List.append_nil]

theorem linesAll_messageParts (m : FlatMessageDescriptor) :
    (messageParts m).map Layout.linesAll = messageSections m := by
  rw [messageParts, List.map_append, List.map_append, map_linesAll_singletons lines_oneofLayout,
    map_linesAll_singletons lines_enumLayout, messageSections, assignments_eq]
  simp only [List.map_cons, List.map_nil, linesAll_optionLayouts, Layout.linesAll_lines,
    Layout.linesAll_map lines_fieldLayout]
  rfl

mutual

theorem lines_messageLayout : ∀ m : MessageDescriptor, (messageLayout m).lines = ofMessage m
  | ⟨m, nested⟩ => by
    rw [messageLayout, lines_braces, Layout.linesAll_sections, List.map_append,
      linesAll_messageParts, linesAll_messageLayouts nested, ofMessage]

theorem linesAll_messageLayouts : ∀ ms : List MessageDescriptor,
    (messageLayouts ms).map Layout.linesAll = ofMessages ms
  | [] => rfl
  | m :: ms => by
    rw [messageLayouts, List.map_cons, linesAll_messageLayouts ms, Layout.linesAll,
      lines_messageLayout m, Layout.linesAll, List.append_nil, ofMessages]

end

theorem lines_methodLayout (m : MethodDescriptor) : (methodLayout m).lines = ofMethod m := by
  unfold methodLayout ofMethod
  split
  · rfl
  · rw [lines_braces, linesAll_optionLayouts, optionStatements_eq]
    rfl

theorem lines_serviceLayout (d : ServiceDescriptor) : (serviceLayout d).lines = ofService d := by
  rw [serviceLayout, lines_braces, Layout.linesAll_append, linesAll_optionLayouts,
    Layout.linesAll_map lines_methodLayout, ofService, optionStatements_eq]

theorem lines_extensionLayout (d : ExtensionDescriptor) :
    (extensionLayout d).lines = ofExtension d := by
  rw [extensionLayout, lines_braces, Layout.linesAll_map lines_fieldLayout, ofExtension]

theorem map_linesAll_fileParts (name : String) (d : FileDescriptor) :
    (fileParts name d).map Layout.linesAll = fileSections name d := by
  have himports : Layout.linesAll (d.imports.toList.map fun path => .line (importText path)) =
      importLines d.imports := by
    rw [Layout.linesAll_map (g := fun path => [importText path]) fun _ => rfl,
      ← List.map_eq_flatMap]
    rfl
  simp only [fileParts, List.map_append, map_linesAll_singletons lines_enumLayout,
    map_linesAll_singletons lines_serviceLayout, map_linesAll_singletons lines_extensionLayout,
    linesAll_messageLayouts, List.map_cons, List.map_nil, himports, linesAll_optionLayouts,
    fileSections, optionStatements_eq]
  rfl

/-- **The lines of a file are those of its layout.** -/
theorem linesAll_fileLayout (name : String) (d : FileDescriptor) :
    Layout.linesAll (fileLayout name d) = lines name d := by
  rw [fileLayout, Layout.linesAll_sections, map_linesAll_fileParts, lines]

end ProtoText

/-! ## Texts of declarations -/

/-- The text begins, with something other than a blank or a closing bracket. -/
def Text.opens (s : String) : Bool := s.toList.head?.any fun c => !([' ', '\x7d', ']'].contains c)

theorem Text.opens_append {s : String} (h : opens s = true) (t : String) :
    opens (s ++ t) = true := by
  unfold opens at h ⊢
  rw [String.toList_append, List.head?_append]
  cases hs : s.toList.head? with
  | none => rw [hs] at h; cases h
  | some c => rwa [hs] at h

namespace Name

theorem opens_of_isStart {s : String} {c : Char} {cs : List Char} (hs : s.toList = c :: cs)
    (hc : isStart c = true) : Text.opens s = true := by
  have hplain : ∀ d ∈ [' ', '\x7d', ']'], isStart d = false := by decide
  rw [Text.opens, hs, List.head?_cons, Option.any_some, Bool.not_eq_true', ← Bool.not_eq_true,
    List.contains_iff_mem]
  intro hmem
  rw [hplain c hmem] at hc
  cases hc

theorem exists_start {s : String} (h : isIdentifier s = true) :
    ∃ c cs, s.toList = c :: cs ∧ isStart c = true := by
  unfold isIdentifier at h
  cases hs : s.toList with
  | nil => rw [hs] at h; cases h
  | cons c cs =>
    rw [hs, identifierChars, Bool.and_eq_true] at h
    exact ⟨c, cs, rfl, h.1⟩

theorem opens_of_isIdentifier {s : String} (h : isIdentifier s = true) : Text.opens s = true := by
  obtain ⟨c, cs, hs, hc⟩ := exists_start h
  exact opens_of_isStart hs hc

theorem opens_of_isDotted {s : String} (h : isDotted s = true) : Text.opens s = true := by
  unfold isDotted at h
  cases hs : s.toList with
  | nil => rw [hs] at h; cases h
  | cons c cs =>
    rw [hs, dottedChars, Bool.and_eq_true] at h
    exact opens_of_isStart hs h.1

theorem opens_of_isOptionName {s : String} (h : isOptionName s = true) : Text.opens s = true := by
  rcases optionName_cases h with h | ⟨extension, tail, rfl, -, -⟩
  · exact opens_of_isDotted h
  · exact Text.opens_append (Text.opens_append (Text.opens_append (by decide) _) _) _

end Name

namespace ProtoText

open Text (Layout Fragment)

variable {Bare : String → Prop}

/-- A text in a layout: a fragment that begins with something other than a blank or a closing
bracket. -/
structure Sentence (Bare : String → Prop) (s : String) : Prop where
  fragment : Fragment Bare s
  opens : Text.opens s = true

theorem Sentence.append {s t : String} (hs : Sentence Bare s) (ht : Fragment Bare t) :
    Sentence Bare (s ++ t) :=
  ⟨hs.fragment.append ht, Text.opens_append hs.opens _⟩

/-- Plain text, such as the words of the language. -/
theorem Sentence.plain {s : String} (h : ∀ c ∈ s.toList, Text.isPlain c = true)
    (ho : Text.opens s = true) : Sentence Bare s :=
  ⟨.plain h, ho⟩

/-- The names that a literal writes without quotes are bare text. -/
abbrev NamesAre (Bare : String → Prop) (v : Literal) : Prop := ∀ n ∈ v.names, Bare n

theorem sentence_entry {entries : List OptionEntry}
    (h : OptionEntry.AllWritable (NamesAre Bare) entries) :
    ∀ e ∈ entries, Sentence Bare e.text := fun e he =>
  ⟨OptionEntry.fragment_text (h e he).1 (h e he).2, by
    rw [OptionEntry.text, assignment, String.append_assoc]
    exact Text.opens_append (Name.opens_of_isOptionName (h e he).1) _⟩

theorem sentence_optionLayouts {entries : List OptionEntry}
    (h : OptionEntry.AllWritable (NamesAre Bare) entries) :
    ∀ t ∈ Layout.textsAll (optionLayouts entries), Sentence Bare t := by
  refine Layout.forall_textsAll_map fun e he t ht => ?_
  rw [List.mem_singleton.1 ht]
  exact .append (.append (.plain (by decide) (by decide)) (sentence_entry h e he).fragment)
    (.plain (by decide))

/-- Commas are added to the right. -/
theorem sentence_commaLines {ls : List String} (h : ∀ l ∈ ls, Sentence Bare l) :
    ∀ l ∈ Text.commaLines ls, Sentence Bare l := by
  induction ls with
  | nil => exact nofun
  | cons l ls ih =>
    obtain ⟨hl, hls⟩ := List.forall_mem_cons.1 h
    cases ls with
    | nil => exact h
    | cons l' ls => exact List.forall_mem_cons.2 ⟨hl.append (.plain (by decide)), ih hls⟩

theorem forall_textsAll_lines {P : String → Prop} {ts : List String} (h : ∀ t ∈ ts, P t) :
    ∀ t ∈ Layout.textsAll (ts.map .line), P t :=
  Layout.forall_textsAll_map fun s hs _ ht => List.mem_singleton.1 ht ▸ h s hs

theorem sentence_annotated {head : String} {entries : List OptionEntry}
    (hhead : Sentence Bare head) (h : OptionEntry.AllWritable (NamesAre Bare) entries) :
    ∀ t ∈ (annotated head entries).texts, Sentence Bare t := by
  have hentries := sentence_entry h
  cases entries with
  | nil =>
    intro t ht
    rw [List.mem_singleton.1 ht]
    exact hhead.append (.plain (by decide))
  | cons e es =>
    cases es with
    | nil =>
      intro t ht
      have hsquares : head ++ " [" ++ e.text ++ "];" =
          head ++ (" " ++ (("[" ++ e.text ++ "]") ++ ";")) := by
        rw [← String.toList_inj]; simp
      rw [List.mem_singleton.1 ht, hsquares]
      exact hhead.append (.append (.plain (by decide))
        (.append (hentries e List.mem_cons_self).fragment.squares (.plain (by decide))))
    | cons e' es =>
      refine Layout.forall_texts_block hhead (forall_textsAll_lines (sentence_commaLines ?_))
      exact List.forall_mem_map.2 hentries

theorem sentence_reserved {ranges : List (String × String)} (names : List String)
    (h : ∀ r ∈ ranges, Fragment Bare r.1 ∧ Fragment Bare r.2) :
    ∀ t ∈ Layout.textsAll ((reserved ranges names).map .line), Sentence Bare t := by
  have hstatement : ∀ ts : List String, (∀ t ∈ ts, Fragment Bare t) →
      Sentence Bare ("reserved " ++ ", ".intercalate ts ++ ";") := fun ts hts =>
    .append (.append (.plain (by decide) (by decide)) (.intercalate (.plain (by decide)) hts))
      (.plain (by decide))
  refine forall_textsAll_lines fun t ht => ?_
  rcases List.mem_append.1 ht with ht | ht <;> split at ht
  · cases ht
  · rw [List.mem_singleton.1 ht]
    refine hstatement _ (List.forall_mem_map.2 ?_)
    rintro ⟨first, last⟩ hr
    obtain ⟨hfirst, hlast⟩ := h _ hr
    show Fragment Bare (rangeText first last)
    unfold rangeText
    split
    · exact hfirst
    · exact .append (.append hfirst (.plain (by decide))) hlast
  · cases ht
  · rw [List.mem_singleton.1 ht]
    exact hstatement _ (List.forall_mem_map.2 fun n _ => .quoted n)

theorem isPlain_append {s t : String} (hs : ∀ c ∈ s.toList, Text.isPlain c = true)
    (ht : ∀ c ∈ t.toList, Text.isPlain c = true) :
    ∀ c ∈ (s ++ t).toList, Text.isPlain c = true := by
  rw [String.toList_append]
  exact List.forall_mem_append.2 ⟨hs, ht⟩

/-- A field up to its options is plain: the brackets of a map are no marks. -/
theorem isPlain_fieldHead {Q : Literal → Prop} {d : FieldDescriptor} (h : d.Writable Q) :
    ∀ c ∈ (fieldHead d).toList, Text.isPlain c = true := by
  have hdotted : ∀ {s : String}, Name.isDotted s = true → ∀ c ∈ s.toList, Text.isPlain c = true :=
    fun hs c hc => Name.isPlain_of_dotted ((Name.isPart_of_dottedChars _).1 hs c hc)
  have hlabel : ∀ c ∈ (label d).toList, Text.isPlain c = true := by
    unfold label
    split
    · decide
    · split <;> decide
  have htype : ∀ c ∈ d.protoType.toList, Text.isPlain c = true := by
    rcases h.type with hname | ⟨key, value, htype, hkey, hvalue, -⟩
    · exact hdotted hname
    · rw [htype]
      exact isPlain_append (isPlain_append (isPlain_append (isPlain_append (by decide)
        (hdotted hkey)) (by decide)) (hdotted hvalue)) (by decide)
  have hname : ∀ c ∈ d.name.toList, Text.isPlain c = true := fun c hc =>
    Name.isPlain_of_isPart (Name.isPart_of_isIdentifier h.name c hc)
  have hnumber : ∀ c ∈ (toString d.number).toList, Text.isPlain c = true := fun c hc =>
    Text.isPlain_of_isDigit (Text.isDigit_of_mem_toString hc)
  exact isPlain_append (isPlain_append (isPlain_append (isPlain_append
    (isPlain_append hlabel htype) (by decide)) hname) (by decide)) hnumber

theorem sentence_fieldHead {d : FieldDescriptor} (h : d.Writable (NamesAre Bare)) :
    Sentence Bare (fieldHead d) := by
  have htype : Text.opens d.protoType = true := by
    rcases h.type with hname | ⟨key, value, htype, -⟩
    · exact Name.opens_of_isDotted hname
    · rw [htype, String.append_assoc, String.append_assoc, String.append_assoc]
      exact Text.opens_append (by decide) _
  have htoken : Text.opens (label d ++ d.protoType) = true := by
    unfold label
    split
    · exact Text.opens_append (by decide) _
    · split
      · exact Text.opens_append (by decide) _
      · simpa using htype
  exact .plain (isPlain_fieldHead h) (Text.opens_append (Text.opens_append (Text.opens_append
    (Text.opens_append htoken _) _) _) _)

theorem sentence_fieldLayout {d : FieldDescriptor} (h : d.Writable (NamesAre Bare)) :
    ∀ t ∈ (fieldLayout d).texts, Sentence Bare t :=
  sentence_annotated (sentence_fieldHead h) h.assigned

/-- A keyword and an identifier. -/
theorem sentence_keyword {keyword name : String} (hname : Name.isIdentifier name = true)
    (hplain : ∀ c ∈ keyword.toList, Text.isPlain c = true) (ho : Text.opens keyword = true) :
    Sentence Bare (keyword ++ name) :=
  .append (.plain hplain ho) (Name.fragment_of_isIdentifier hname)

theorem sentence_oneofLayout {d : OneofDescriptor} (h : d.Writable (NamesAre Bare)) :
    ∀ t ∈ (oneofLayout d).texts, Sentence Bare t :=
  Layout.forall_texts_block (sentence_keyword h.name (by decide) (by decide))
    (Layout.forall_textsAll_append (sentence_optionLayouts h.assigned)
      (Layout.forall_textsAll_map fun f hf => sentence_fieldLayout (h.fields f hf)))

theorem sentence_enumValueLayout {v : EnumValueDescriptor} (h : v.Writable (NamesAre Bare)) :
    ∀ t ∈ (enumValueLayout v).texts, Sentence Bare t :=
  sentence_annotated (.append (.append ⟨Name.fragment_of_isIdentifier h.name,
    Name.opens_of_isIdentifier h.name⟩ (.plain (by decide))) (Text.fragment_int _)) h.options

theorem sentence_enumLayout {d : EnumDescriptor} (h : d.Writable (NamesAre Bare)) :
    ∀ t ∈ (enumLayout d).texts, Sentence Bare t := by
  refine Layout.forall_texts_block (sentence_keyword h.name (by decide) (by decide))
    (Layout.forall_textsAll_append (Layout.forall_textsAll_append
      (sentence_optionLayouts h.options) ?_) ?_)
  · exact Layout.forall_textsAll_map fun v hv => sentence_enumValueLayout (h.values v hv)
  · exact sentence_reserved _ (List.forall_mem_map.2 fun r _ =>
      ⟨Text.fragment_int _, Text.fragment_int _⟩)

theorem sentence_singletons {α : Type} {f : α → Layout} {as : List α}
    (h : ∀ a ∈ as, ∀ t ∈ (f a).texts, Sentence Bare t) :
    ∀ part ∈ as.map fun a => [f a], ∀ t ∈ Layout.textsAll part, Sentence Bare t := by
  refine List.forall_mem_map.2 fun a ha t ht => ?_
  rw [Layout.textsAll, Layout.textsAll, List.append_nil] at ht
  exact h a ha t ht

theorem sentence_messageParts {m : FlatMessageDescriptor} (h : m.Writable (NamesAre Bare)) :
    ∀ part ∈ messageParts m, ∀ t ∈ Layout.textsAll part, Sentence Bare t := by
  refine List.forall_mem_append.2 ⟨List.forall_mem_append.2 ⟨?_, ?_⟩, ?_⟩
  · simp only [List.forall_mem_cons]
    refine ⟨sentence_optionLayouts h.assigned, ?_, ?_, nofun⟩
    · exact sentence_reserved _ (List.forall_mem_map.2 fun r _ =>
        ⟨Text.fragment_nat _, Text.fragment_nat _⟩)
    · exact Layout.forall_textsAll_map fun f hf => sentence_fieldLayout (h.fields f hf)
  · exact sentence_singletons fun o ho => sentence_oneofLayout (h.oneofs o ho)
  · exact sentence_singletons fun e he => sentence_enumLayout (h.enums e he)

mutual

theorem sentence_messageLayout : ∀ m : MessageDescriptor, m.Writable (NamesAre Bare) →
    ∀ t ∈ (messageLayout m).texts, Sentence Bare t
  | ⟨m, nested⟩, h => by
    obtain ⟨hflat, hnested⟩ := MessageDescriptor.writable_iff.1 h
    exact Layout.forall_texts_block (sentence_keyword hflat.name (by decide) (by decide))
      (Layout.forall_textsAll_sections (List.forall_mem_append.2
        ⟨sentence_messageParts hflat, sentence_messageLayouts nested hnested⟩))

theorem sentence_messageLayouts : ∀ ms : List MessageDescriptor,
    (∀ m ∈ ms, m.Writable (NamesAre Bare)) →
      ∀ part ∈ messageLayouts ms, ∀ t ∈ Layout.textsAll part, Sentence Bare t
  | [], _ => nofun
  | m :: ms, h => by
    obtain ⟨hm, hms⟩ := List.forall_mem_cons.1 h
    refine List.forall_mem_cons.2 ⟨fun t ht => ?_, sentence_messageLayouts ms hms⟩
    rw [Layout.textsAll, Layout.textsAll, List.append_nil] at ht
    exact sentence_messageLayout m hm t ht

end

theorem sentence_signature {m : MethodDescriptor} (h : m.Writable (NamesAre Bare)) :
    Sentence Bare (signature m) := by
  have hstream : ∀ (streaming : Bool) (type : TypeRef), Name.isDotted type.protoName = true →
      Fragment Bare (streamText streaming type) := by
    intro streaming type htype
    refine .append ?_ (Name.fragment_of_isDotted htype)
    split <;> exact .plain (by decide)
  have hsplit : signature m = "rpc " ++ m.name ++ (("(" ++ streamText m.clientStreaming m.input
      ++ ")") ++ (" returns " ++ ("(" ++ streamText m.serverStreaming m.output ++ ")"))) := by
    rw [signature, ← String.toList_inj]; simp
  rw [hsplit]
  exact .append (sentence_keyword h.name (by decide) (by decide))
    (.append (hstream _ _ h.input).parens (.append (.plain (by decide))
      (hstream _ _ h.output).parens))

theorem sentence_methodLayout {m : MethodDescriptor} (h : m.Writable (NamesAre Bare)) :
    ∀ t ∈ (methodLayout m).texts, Sentence Bare t := by
  unfold methodLayout
  split
  · intro t ht
    rw [List.mem_singleton.1 ht]
    exact (sentence_signature h).append (.plain (by decide))
  · exact Layout.forall_texts_block (sentence_signature h) (sentence_optionLayouts h.options)

theorem sentence_serviceLayout {d : ServiceDescriptor} (h : d.Writable (NamesAre Bare)) :
    ∀ t ∈ (serviceLayout d).texts, Sentence Bare t :=
  Layout.forall_texts_block (sentence_keyword h.name (by decide) (by decide))
    (Layout.forall_textsAll_append (sentence_optionLayouts h.options)
      (Layout.forall_textsAll_map fun m hm => sentence_methodLayout (h.methods m hm)))

theorem sentence_extensionLayout {d : ExtensionDescriptor}
    (h : ∀ f ∈ d.fields, f.Writable (NamesAre Bare)) :
    ∀ t ∈ (extensionLayout d).texts, Sentence Bare t := by
  have htarget : Sentence Bare ("extend " ++ d.target.extendee) := by
    cases d.target <;> exact .plain (by decide +kernel) (by decide +kernel)
  exact Layout.forall_texts_block htarget
    (Layout.forall_textsAll_map fun f hf => sentence_fieldLayout (h f hf))

theorem sentence_fileParts {d : FileDescriptor} (h : d.Writable (NamesAre Bare)) :
    ∀ part ∈ fileParts d.name d, ∀ t ∈ Layout.textsAll part, Sentence Bare t := by
  have hsingle : ∀ {s}, Sentence Bare s → ∀ t ∈ Layout.textsAll [.line s], Sentence Bare t :=
    fun hs => forall_textsAll_lines (List.forall_mem_singleton.2 hs)
  simp only [fileParts, List.forall_mem_append, List.forall_mem_cons]
  refine ⟨⟨⟨⟨⟨?_, ?_, ?_, ?_, ?_, nofun⟩, ?_⟩, ?_⟩, ?_⟩, ?_⟩
  · have hcomment : ∀ t ∈ [banner, "// source: " ++ d.name], Sentence Bare t :=
      List.forall_mem_cons.2 ⟨.plain (by decide +kernel) (by decide +kernel),
        List.forall_mem_singleton.2 (.append (.plain (by decide) (by decide))
          (Name.fragment_of_isProtoPath h.name))⟩
    exact forall_textsAll_lines hcomment
  · have hproto : "syntax = \"proto3\";" = "syntax = " ++ (Text.quote "proto3" ++ ";") := by
      decide +kernel
    rw [hproto]
    exact hsingle (.append (.plain (by decide) (by decide)) (.append (.quoted _)
      (.plain (by decide))))
  · exact hsingle (.append (.append (.plain (by decide) (by decide))
      (Name.fragment_of_isDotted h.package)) (.plain (by decide)))
  · refine Layout.forall_textsAll_map fun path _ t ht => ?_
    rw [List.mem_singleton.1 ht]
    exact .append (.append (.plain (by decide) (by decide)) (.quoted path)) (.plain (by decide))
  · exact sentence_optionLayouts h.options
  · exact sentence_singletons fun e he => sentence_enumLayout (h.enums e he)
  · exact sentence_messageLayouts d.messages h.messages
  · exact sentence_singletons fun v hv => sentence_serviceLayout (h.services v hv)
  · exact sentence_singletons fun e he => sentence_extensionLayout (h.extensions e he)

/-- **The texts of a file are sentences**, where the names in its literals are bare text. -/
theorem sentence_fileLayout {d : FileDescriptor} (h : d.Writable (NamesAre Bare)) :
    ∀ t ∈ Layout.textsAll (fileLayout d.name d), Sentence Bare t :=
  Layout.forall_textsAll_sections (sentence_fileParts h)

end ProtoText

end WireSchema

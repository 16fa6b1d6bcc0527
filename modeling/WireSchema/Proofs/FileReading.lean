import WireSchema.Proofs.DeclarationReading

/-!
# Reading files

The text of a file gives its outline, if no field of a message reads as an option. The literals have
to be explicit: an identifier is the author's own text and could be anything, and a large float is
written like an integer.

* `ProtoText.outline_of_fileLayout`: the layout of a file gives its outline.
* `Package.outline_of_text`: so does its text.
* `Package.text_ambiguous`: what a text does not tell.
-/

namespace WireSchema
namespace ProtoText

open Text (Layout)

/-! ## Layouts of files -/

/-- The first lines of a file. -/
def preamble (name : String) (d : FileDescriptor) : List Layout :=
  [.line banner, .line ("// source: " ++ name), .line "syntax = \"proto3\";",
    .line ("package " ++ d.package ++ ";")]

/-- The runs of a file behind its first lines. -/
def fileRuns (d : FileDescriptor) : List (List Layout) :=
  [d.imports.toList.map fun path => .line (importText path), optionLayouts d.options,
    d.enums.map enumLayout, d.messages.map messageLayout, d.services.map serviceLayout,
    d.extensions.map extensionLayout]

theorem flatten_fileParts (name : String) (d : FileDescriptor) :
    (fileParts name d).flatten = preamble name d ++ (fileRuns d).flatten := by
  simp [fileParts, messageLayouts_eq, preamble, fileRuns, flatten_singletons]

theorem runs_file {d : FileDescriptor} (h : d.Writable Literal.Explicit) :
    Runs [.item, .option, .block ['e', 'n'], .block ['m', 'e'], .block ['s', 'e'],
      .block ['e', 'x']] (fileRuns d) := by
  refine .cons (List.forall_mem_map.2 fun path _ => ?_) <| .cons (tag_optionLayouts h.options) <|
    .cons (List.forall_mem_map.2 fun e _ => tag_braces rfl) <|
    .cons (List.forall_mem_map.2 ?_) <|
    .cons (List.forall_mem_map.2 fun v _ => tag_braces rfl) <|
    .cons (List.forall_mem_map.2 fun x _ => tag_braces rfl) .nil
  · exact tag_item_of_head (head?_append (head?_append (c := 'i') (by decide) _) _)
      (by decide) (by decide)
  · rintro ⟨m, nested⟩ _
    rw [messageLayout]
    exact tag_braces rfl

theorem solid_fileParts {d : FileDescriptor} (h : d.Writable Literal.Explicit) (name : String) :
    Layout.Solid (fileParts name d) := by
  rw [Layout.Solid, flatten_fileParts]
  refine List.forall_mem_append.2 ⟨?_, solid_of_runs (by decide) (runs_file h)⟩
  simp only [preamble, List.forall_mem_cons]
  exact ⟨rfl, rfl, rfl, rfl, List.forall_mem_nil _⟩

/-- The first lines give the name and the package of the file. -/
theorem preamble_injective {name name' : String} {a b : FileDescriptor}
    (h : preamble name a = preamble name' b) : name = name' ∧ a.package = b.package := by
  simp only [preamble, List.cons.injEq, Layout.line.injEq, true_and, and_true] at h
  exact ⟨(String.append_right_inj _).1 h.1,
    (String.append_right_inj _).1 ((String.append_left_inj _).1 h.2)⟩

theorem imports_injective {a b : StringSet} (h : a.toList.map (fun path => Layout.line (importText path)) =
    b.toList.map fun path => .line (importText path)) : a = b := by
  have hpaths : a.toList = b.toList := by
    refine (List.map_inj_right fun p q hpq => ?_).1 h
    exact Text.quote_injective
      ((String.append_right_inj _).1 ((String.append_left_inj _).1 (Layout.line.inj hpq)))
  exact StringSet.ext fun p => by rw [StringSet.mem_def, StringSet.mem_def, hpaths]

end ProtoText

structure FileDescriptor.Readable (d : FileDescriptor) : Prop where
  writable : d.Writable Literal.Explicit
  apart : ∀ m ∈ d.flatMessages, ∀ f ∈ m.allFields, ¬f.ReadsAsOption

theorem FileDescriptor.Readable.messages {d : FileDescriptor} (h : d.Readable) :
    ∀ m ∈ d.messages, m.Readable := by
  have hapart := MessageDescriptor.forall_flattenAll_iff.1 h.apart
  exact fun m hm x hx => ⟨h.writable.messages m hm x hx, hapart m hm x hx⟩

namespace ProtoText

open Text (Layout)

/-- **A file is read back** from its layout. -/
theorem outline_of_fileLayout {a b : FileDescriptor} (ha : a.Readable) (hb : b.Readable)
    (h : fileLayout a.name a = fileLayout b.name b) : a.outline = b.outline := by
  have hflatten := Layout.flatten_of_sections (solid_fileParts ha.writable a.name)
    (solid_fileParts hb.writable b.name) h
  rw [flatten_fileParts, flatten_fileParts] at hflatten
  obtain ⟨hfirst, hbehind⟩ := List.append_inj hflatten rfl
  obtain ⟨hname, hpackage⟩ := preamble_injective hfirst
  have hruns := Text.runs_injective (by decide) (runs_file ha.writable) (runs_file hb.writable)
    hbehind
  simp only [fileRuns, List.cons.injEq, and_true] at hruns
  obtain ⟨himports, hoptions, henums, hmessages, hservices, hextensions⟩ := hruns
  have henums := map_eq_of_map_eq (fun d hd e he =>
    outline_of_enumLayout (ha.writable.enums d hd) (hb.writable.enums e he)) henums
  have hservices := map_eq_of_map_eq (fun d hd e he =>
    outline_of_serviceLayout (ha.writable.services d hd) (hb.writable.services e he)) hservices
  have hextensions := map_eq_of_map_eq (fun d hd e he => outline_of_extensionLayout
    (ha.writable.extensions d hd) (hb.writable.extensions e he)) hextensions
  rw [FileDescriptor.outline, FileDescriptor.outline, hname, hpackage, imports_injective himports,
    canonicalAll_of_optionLayouts ha.writable.options hb.writable.options hoptions, henums,
    outlines_of_messageLayouts _ _ ha.messages hb.messages hmessages, hservices, hextensions]

/-- The text of a file gives its layout, where no name in its literals has a newline in it. -/
theorem fileLayout_of_text {a b : FileDescriptor}
    (ha : a.Writable (NamesAre fun n => '\n' ∉ n.toList))
    (hb : b.Writable (NamesAre fun n => '\n' ∉ n.toList))
    (h : ofFile a.name a = ofFile b.name b) : fileLayout a.name a = fileLayout b.name b := by
  have htexts := sentence_fileLayout ha
  have htexts' := sentence_fileLayout hb
  have hlines : lines a.name a = lines b.name b := by
    refine Text.ofLines_injective ?_ ?_ h
    · rw [← linesAll_fileLayout]
      exact Layout.newline_not_mem_linesAll _ fun t ht => (htexts t ht).fragment.newline_not_mem
    · rw [← linesAll_fileLayout]
      exact Layout.newline_not_mem_linesAll _ fun t ht => (htexts' t ht).fragment.newline_not_mem
  rw [← linesAll_fileLayout, ← linesAll_fileLayout] at hlines
  exact Layout.linesAll_injective _ _ (fun t ht => (htexts t ht).opens)
    (fun t ht => (htexts' t ht).opens) hlines

end ProtoText

/-! ## Built files -/

def FileDescriptor.IsBuilt (fd : FileDescriptor) : Prop :=
  ∃ (p : Package) (d : PackageDescriptor), p.Spelled ∧ p.build = .ok d ∧ fd ∈ d.files

/-- Two files that packages build, under one name, with explicit literals and the same text. -/
structure FileDescriptor.WrittenAlike (fd fe : FileDescriptor) : Prop where
  built : fd.IsBuilt
  built' : fe.IsBuilt
  name : fd.name = fe.name
  literals : ∀ v ∈ fd.literals, v.Explicit
  literals' : ∀ v ∈ fe.literals, v.Explicit
  text : ProtoText.ofFile fd.name fd = ProtoText.ofFile fe.name fe

/-- What a package builds is writable with its explicit literals, which have no newline in their
names. -/
theorem FileDescriptor.IsBuilt.writable {fd : FileDescriptor} (h : fd.IsBuilt)
    (hliterals : ∀ v ∈ fd.literals, v.Explicit) : fd.Writable Literal.Explicit ∧
      fd.Writable (ProtoText.NamesAre fun n => '\n' ∉ n.toList) := by
  obtain ⟨p, d, hp, hd, hfd⟩ := h
  refine ⟨Package.writable hp hd hfd hliterals, Package.writable hp hd hfd fun v hv n hn => ?_⟩
  exact Name.not_mem_of_isIdentifier (v.names_of_isExplicit (hliterals v hv) n hn) (by decide)

namespace Package

/-- **The text of a file gives its outline**: files that are written alike have the same outline, if
no field of a message reads as an option in either. -/
theorem outline_of_text {fd fe : FileDescriptor} (h : fd.WrittenAlike fe)
    (hfields : ∀ m ∈ fd.flatMessages, ∀ f ∈ m.allFields, ¬f.ReadsAsOption)
    (hfields' : ∀ m ∈ fe.flatMessages, ∀ f ∈ m.allFields, ¬f.ReadsAsOption) :
    fd.outline = fe.outline := by
  obtain ⟨hwritable, hlines⟩ := h.built.writable h.literals
  obtain ⟨hwritable', hlines'⟩ := h.built'.writable h.literals'
  exact ProtoText.outline_of_fileLayout ⟨hwritable, hfields⟩ ⟨hwritable', hfields'⟩
    (ProtoText.fileLayout_of_text hlines hlines' h.text)

/-- The texts of the files that a package builds. -/
def texts (p : Package) : Option (List String) :=
  p.build.toOption.map fun d => d.files.map fun fd => ProtoText.ofFile fd.name fd

/-- Each file that a package builds: its name, whether its literals are explicit, and what is
observed of it. -/
def observed {α : Type} (p : Package) (observe : FileDescriptor → α) :
    Option (List (String × Bool × α)) :=
  p.build.toOption.map fun d => d.files.map fun fd =>
    (fd.name, fd.literals.all Literal.isExplicit, observe fd)

/-- A package with one file builds it. -/
theorem exists_file_of_observed {p : Package} {α : Type} {observe : FileDescriptor → α}
    {name : String} {explicit : Bool} {a : α} (h : p.observed observe = some [(name, explicit, a)]) :
    ∃ d fd, p.build = .ok d ∧ d.files = [fd] ∧ fd.name = name ∧
      fd.literals.all Literal.isExplicit = explicit ∧ observe fd = a := by
  obtain ⟨d, hd, hfiles⟩ := exists_ok_of_summary h
  obtain ⟨fd, hfd, heq⟩ := List.map_eq_singleton_iff.1 hfiles
  simp only [Prod.mk.injEq] at heq
  exact ⟨d, fd, hd, hfd, heq⟩

/-- Packages of one file each, with the same texts and explicit literals, build files that are
written alike. -/
theorem exists_writtenAlike {p q : Package} {α : Type} {observe : FileDescriptor → α}
    {name : String} {a b : α} (hspelled : p.Spelled ∧ q.Spelled) (htexts : p.texts = q.texts)
    (hp : p.observed observe = some [(name, true, a)])
    (hq : q.observed observe = some [(name, true, b)]) :
    ∃ d e fd fe, p.build = .ok d ∧ q.build = .ok e ∧ d.files = [fd] ∧ e.files = [fe] ∧
      fd.WrittenAlike fe ∧ observe fd = a ∧ observe fe = b := by
  obtain ⟨d, fd, hd, hfd, hname, hliterals, ha⟩ := exists_file_of_observed hp
  obtain ⟨e, fe, he, hfe, hname', hliterals', hb⟩ := exists_file_of_observed hq
  refine ⟨d, e, fd, fe, hd, he, hfd, hfe, ?_, ha, hb⟩
  exact {
    built := ⟨p, d, hspelled.1, hd, hfd ▸ List.mem_singleton.2 rfl⟩
    built' := ⟨q, e, hspelled.2, he, hfe ▸ List.mem_singleton.2 rfl⟩
    name := hname.trans hname'.symm
    literals := List.all_eq_true.1 hliterals
    literals' := List.all_eq_true.1 hliterals'
    text := by
      rw [texts, texts, hd, he] at htexts
      simpa [Except.toOption, hfd, hfe] using htexts }

/-- Two packages that differ in the signedness of an integer and in a byte string that could be a
text. The type of their field is named `option`, but the field has a label. -/
theorem outline_of_text_note :
    let tries : Field := .repeated { name := "tries" }
      (.leaf { head := { name := "item" }, type := .message (.declared "option") }) {} false
    let note (size mark : Literal) : Message := {
      name := "Note", options := [⟨"(acme.size)", size⟩, ⟨"(acme.marks)", .list [mark]⟩],
      fields := [(1, tries)] }
    let package (size mark : Literal) : Package := { config := { package := "acme" }, files := [
      { name := "note.proto", messages := [{ name := "option" }, note size mark] }] }
    let p := package (.uint 3) (.bytes [0x61, 0x62])
    let q := package (.int 3) (.string "ab")
    ∃ d e fd fe, p.build = .ok d ∧ q.build = .ok e ∧ d.files = [fd] ∧ e.files = [fe] ∧
      fd.WrittenAlike fe ∧ fd.outline = fe.outline := by
  intro tries note package p q
  let labels (fd : FileDescriptor) :=
    fd.flatMessages.flatMap fun m => m.allFields.map ProtoText.label
  have hapart : ∀ {fd : FileDescriptor}, labels fd = ["repeated "] →
      ∀ m ∈ fd.flatMessages, ∀ f ∈ m.allFields, ¬f.ReadsAsOption := by
    intro fd hlabels m hm f hf hoption
    have hlabel : ProtoText.label f ∈ labels fd :=
      List.mem_flatMap.2 ⟨m, hm, List.mem_map_of_mem hf⟩
    rw [hlabels, hoption.1] at hlabel
    exact absurd hlabel (by decide)
  have hp : p.observed labels = some [("note.proto", true, ["repeated "])] := by decide +kernel
  have hq : q.observed labels = some [("note.proto", true, ["repeated "])] := by decide +kernel
  obtain ⟨d, e, fd, fe, hd, he, hfiles, hfiles', halike, hlabels, hlabels'⟩ :=
    exists_writtenAlike (p := p) (q := q) (by decide +kernel) (by decide +kernel) hp hq
  exact ⟨d, e, fd, fe, hd, he, hfiles, hfiles', halike,
    outline_of_text halike (hapart hlabels) (hapart hlabels')⟩

/-- **What a text does not tell.** An unlabelled field whose type is a message named `option` is
written like an option of its message, so files that are written alike can have different outlines;
and integers of either signedness are written alike, so they can have different options even where
their outlines agree. -/
theorem text_ambiguous :
    (¬∀ fd fe : FileDescriptor, fd.WrittenAlike fe → fd.outline = fe.outline) ∧
      ¬∀ fd fe : FileDescriptor, fd.WrittenAlike fe → fd.options = fe.options := by
  constructor
  · intro hall
    let package (note : Message) : Package := { config := { package := "acme" }, files := [
      { name := "note.proto", messages := [{ name := "option" }, note] }] }
    let p := package { name := "Note", options := [⟨"retries", .uint 1⟩] }
    let q := package { name := "Note", fields := [(1, .leaf {
      head := { name := "retries" }, type := .message (.declared "option") })] }
    let fieldCounts (fd : FileDescriptor) := fd.outline.messages.map fun m => m.fields.length
    have hp : p.observed fieldCounts = some [("note.proto", true, [0, 0])] := by decide +kernel
    have hq : q.observed fieldCounts = some [("note.proto", true, [0, 1])] := by decide +kernel
    obtain ⟨_, _, fd, fe, -, -, -, -, halike, hcounts, hcounts'⟩ :=
      exists_writtenAlike (p := p) (q := q) (by decide +kernel) (by decide +kernel) hp hq
    have hsame : fieldCounts fd = fieldCounts fe :=
      congrArg (fun o : FileOutline => o.messages.map fun m => m.fields.length) (hall fd fe halike)
    rw [hcounts, hcounts'] at hsame
    exact absurd hsame (by decide)
  · intro hall
    let package (size : Literal) : Package := { config := { package := "acme" }, files := [
      { name := "note.proto", options := [⟨"(acme.size)", size⟩] }] }
    let unsigned (fd : FileDescriptor) := fd.options.map fun e => e.value.same (.uint 1)
    have hp : (package (.uint 1)).observed unsigned = some [("note.proto", true, [true])] := by
      decide +kernel
    have hq : (package (.int 1)).observed unsigned = some [("note.proto", true, [false])] := by
      decide +kernel
    obtain ⟨_, _, fd, fe, -, -, -, -, halike, hunsigned, hsigned⟩ :=
      exists_writtenAlike (by decide +kernel) (by decide +kernel) hp hq
    have hsame : unsigned fd = unsigned fe :=
      congrArg (List.map fun e : OptionEntry => e.value.same (.uint 1)) (hall fd fe halike)
    rw [hunsigned, hsigned] at hsame
    exact absurd hsame (by decide)

end Package
end WireSchema

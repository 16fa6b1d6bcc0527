import WireSchema.Proofs.Layout
import WireSchema.Proofs.Quoted
import WireSchema.Text.Pieces

/-!
# The import lines of a file

The lines of a file that begin with `import` are those of its imports and no others: whatever a
literal holds, no text that is written has a newline in it, and everything inside of a block stands
further to the right.

* `Text.Fragment.newline_not_mem`: a fragment stands on one line.
* `Text.piecesOf_ofLines`: text between newlines gives the lines back.
* `ProtoText.filter_lines`: of the lines of a file, those of its imports begin with `import`.
* `Package.import_lines`: so they do in the text, one line for each import in ascending order.
-/

namespace WireSchema

namespace Text

/-! ## Texts on one line -/

theorem newline_not_mem_escapeChar (c : Char) : '\n' ∉ escapeChar c :=
  escapeChar_cases (P := fun _ written => '\n' ∉ written) (by decide) (by decide +kernel)
    (fun _ _ _ hne h => hne (List.mem_singleton.1 h).symm) c

theorem newline_not_mem_escapeByte (b : UInt8) : '\n' ∉ escapeByte b := by
  have hall : ∀ n < 256, '\n' ∉ escapeByte (UInt8.ofNat n) := by decide +kernel
  have hb := hall b.toNat b.toNat_lt
  rwa [UInt8.ofNat_toNat] at hb

theorem newline_not_mem_quoted {α : Type} {escape : α → List Char} (h : ∀ a, '\n' ∉ escape a)
    (as : List α) : '\n' ∉ '"' :: as.flatMap escape ++ ['"'] := by
  rw [List.cons_append, List.mem_cons, List.mem_append, List.mem_flatMap]
  rintro (hquote | ⟨a, -, ha⟩ | hquote)
  · exact absurd hquote (by decide)
  · exact h a ha
  · exact absurd hquote (by decide)

/-- **A fragment stands on one line**, if what it holds without quotes does. -/
theorem Fragment.newline_not_mem {s : String} (h : Fragment (fun n => '\n' ∉ n.toList) s) :
    '\n' ∉ s.toList := by
  have hplain : isPlain '\n' = false := by decide
  induction h with
  | plain h =>
    intro hmem
    rw [h _ hmem] at hplain
    cases hplain
  | bare h => exact h
  | quoted s =>
    rw [quote, String.toList_ofList]
    exact newline_not_mem_quoted newline_not_mem_escapeChar _
  | quotedBytes bs =>
    rw [quoteBytes, String.toList_ofList]
    exact newline_not_mem_quoted newline_not_mem_escapeByte bs
  | append _ _ hs ht =>
    rw [String.toList_append, List.mem_append]
    exact not_or_intro hs ht
  | parens _ h => simpa using h
  | squares _ h => simpa using h
  | braces _ h => simpa using h

theorem newline_not_mem_indentLine (w : Nat) {l : String} (h : '\n' ∉ l.toList) :
    '\n' ∉ (indentLine w l).toList := by
  unfold indentLine
  split
  · exact h
  · rw [String.toList_append, List.mem_append]
    refine not_or_intro (fun hmem => ?_) h
    rw [blanks, String.toList_ofList] at hmem
    exact absurd (List.eq_of_mem_replicate hmem) (by decide)

namespace Layout

mutual

/-- The lines of a layout have no newline in them when its texts have none. -/
theorem newline_not_mem_lines : ∀ l : Layout, (∀ t ∈ l.texts, '\n' ∉ t.toList) →
    ∀ line ∈ l.lines, '\n' ∉ line.toList
  | blank, _ => List.forall_mem_singleton.2 (by decide)
  | line _, h => h
  | block e head body, h => by
    obtain ⟨hhead, hbody⟩ := List.forall_mem_cons.1 h
    have hinner := newline_not_mem_linesAll body hbody
    refine List.forall_mem_cons.2 ⟨?_, List.forall_mem_append.2 ⟨?_, ?_⟩⟩
    · cases e <;> simpa [Enclosure.opening] using hhead
    · exact List.forall_mem_map.2 fun l hl => newline_not_mem_indentLine 2 (hinner l hl)
    · cases e <;> exact List.forall_mem_singleton.2 (by decide)

theorem newline_not_mem_linesAll : ∀ ls : List Layout, (∀ t ∈ textsAll ls, '\n' ∉ t.toList) →
    ∀ line ∈ linesAll ls, '\n' ∉ line.toList
  | [], _ => nofun
  | l :: ls, h => by
    obtain ⟨hl, hls⟩ := List.forall_mem_append.1 h
    exact List.forall_mem_append.2 ⟨newline_not_mem_lines l hl, newline_not_mem_linesAll ls hls⟩

end

end Layout

/-! ## Lines of a text -/

theorem pieces_append {sep : Char} {p : List Char} (h : sep ∉ p) (cs : List Char) :
    pieces sep (p ++ sep :: cs) = p :: pieces sep cs := by
  induction p with
  | nil => simp [pieces]
  | cons c p ih =>
    obtain ⟨hc, hp⟩ := not_or.1 (mt List.mem_cons.2 h)
    rw [List.cons_append, pieces, if_neg (Ne.symm hc), ih hp]

/-- **The text of lines gives them back**, each piece between newlines being one, and nothing behind
the last. -/
theorem piecesOf_ofLines {ls : List String} (h : ∀ l ∈ ls, '\n' ∉ l.toList) :
    piecesOf '\n' (ofLines ls) = ls ++ [""] := by
  induction ls with
  | nil => rfl
  | cons l ls ih =>
    obtain ⟨hl, hls⟩ := List.forall_mem_cons.1 h
    have hcons : (ofLines (l :: ls)).toList = l.toList ++ '\n' :: (ofLines ls).toList := by
      simp [ofLines, String.toList_join]
    rw [piecesOf, hcons, pieces_append hl, List.map_cons, String.ofList_toList]
    exact congrArg _ (ih hls)

/-! ## Lines that begin with a word -/

def startsWith (word line : String) : Bool := word.toList.isPrefixOf line.toList

theorem startsWith_append (word rest : String) : startsWith word (word ++ rest) = true := by
  rw [startsWith, List.isPrefixOf_iff_prefix, String.toList_append]
  exact List.prefix_append _ _

/-- A line that begins with another character. -/
theorem startsWith_of_head {word line : String} {c : Char} (hword : word.toList.head? = some c)
    (hline : line.toList.head? ≠ some c) : startsWith word line = false := by
  rw [← Bool.not_eq_true, startsWith, List.isPrefixOf_iff_prefix]
  rintro ⟨rest, hrest⟩
  rw [← hrest, List.head?_append, hword] at hline
  exact hline rfl

/-- Of several sections, the lines that begin with a word are those of each section. -/
theorem filter_sections {word : String} (hempty : startsWith word "" = false)
    (parts : List (List String)) :
    (sections parts).filter (startsWith word) = parts.flatMap (List.filter (startsWith word)) := by
  have hintercalate : ∀ ps : List (List String), ([""].intercalate ps).filter (startsWith word) =
      ps.flatMap (List.filter (startsWith word)) := by
    intro ps
    induction ps with
    | nil => rfl
    | cons p ps ih =>
      cases ps with
      | nil => simp
      | cons q ps =>
        rw [List.intercalate_cons_cons, List.filter_append, List.filter_append, ih,
          List.filter_cons_of_neg (by rw [hempty]; exact Bool.false_ne_true), List.filter_nil,
          List.append_nil]
        simp only [List.flatMap_cons]
  rw [sections, hintercalate]
  induction parts with
  | nil => rfl
  | cons p ps ih =>
    cases p with
    | nil => simpa using ih
    | cons l ls => rw [List.filter_cons_of_pos (by rfl), List.flatMap_cons, ih, List.flatMap_cons]

/-- The lines inside of a block begin with a blank, its last line with a bracket. -/
theorem filter_block {word : String} {c : Char} (hword : word.toList.head? = some c)
    (hc : c ∉ [' ', '\x7d', ']']) (hempty : startsWith word "" = false) {e : Enclosure}
    {head : String} {body : List Layout} (hhead : startsWith word (head ++ " " ++ e.opening) = false) :
    (Layout.block e head body).lines.filter (startsWith word) = [] := by
  have hinner : ∀ l ∈ indent 2 (Layout.linesAll body), startsWith word l = false := by
    refine List.forall_mem_map.2 fun l _ => ?_
    unfold indentLine
    split
    · next hl => rw [String.isEmpty_iff.1 hl]; exact hempty
    · refine startsWith_of_head hword ?_
      rw [String.toList_append, show (blanks 2).toList = [' ', ' '] by decide]
      rintro ⟨⟩
      exact hc (by decide)
  have hlast : startsWith word e.closing = false := by
    refine startsWith_of_head hword ?_
    cases e
    · rintro ⟨⟩
      exact hc (by decide)
    · rintro ⟨⟩
      exact hc (by decide)
  refine List.filter_eq_nil_iff.2 fun l hl => ?_
  rw [Bool.not_eq_true]
  rcases List.mem_cons.1 hl with rfl | hl
  · exact hhead
  · rcases List.mem_append.1 hl with hl | hl
    · exact hinner l hl
    · rw [List.mem_singleton.1 hl]; exact hlast

end Text

/-! ## Files -/

namespace ProtoText

open Text (Layout startsWith)

/-- Lines that begin otherwise. -/
theorem filter_import_of_head {ls : List String} (h : ∀ l ∈ ls, l.toList.head? ≠ some 'i') :
    ls.filter (startsWith "import ") = [] :=
  List.filter_eq_nil_iff.2 fun l hl => by
    rw [Text.startsWith_of_head (c := 'i') (by decide) (h l hl)]
    exact Bool.false_ne_true

theorem head?_append {keyword : String} {c : Char} (h : keyword.toList.head? = some c)
    (rest : String) : (keyword ++ rest).toList.head? = some c := by
  rw [String.toList_append, List.head?_append, h]
  rfl

/-- A declaration that begins with another keyword. -/
theorem filter_import_declaration {keyword name : String} {body : List String} {c : Char}
    (h : keyword.toList.head? = some c) (hc : c ≠ 'i') :
    (declaration (keyword ++ name) body).filter (startsWith "import ") = [] := by
  rw [← Layout.linesAll_lines body, ← lines_braces]
  refine Text.filter_block (c := 'i') (by decide) (by decide) (by decide)
    (Text.startsWith_of_head (c := 'i') (by decide) ?_)
  rw [head?_append (head?_append (head?_append h name) _)]
  exact fun he => hc (Option.some.inj he)

theorem filter_import_messages (ms : List MessageDescriptor) :
    (ofMessages ms).flatMap (List.filter (startsWith "import ")) = [] := by
  induction ms with
  | nil => rfl
  | cons m ms ih =>
    obtain ⟨m, nested⟩ := m
    rw [ofMessages, List.flatMap_cons, ih, ofMessage,
      filter_import_declaration (c := 'm') (by decide) (by decide)]
    rfl

/-- Of the lines of a file, those of its imports begin with `import`. -/
theorem filter_lines (name : String) (d : FileDescriptor) :
    (lines name d).filter (startsWith "import ") = importLines d.imports := by
  have hcomment : [banner, "// source: " ++ name].filter (startsWith "import ") = [] := by
    refine filter_import_of_head (List.forall_mem_cons.2 ⟨by decide +kernel, ?_⟩)
    refine List.forall_mem_singleton.2 ?_
    rw [head?_append (c := '/') (by decide)]
    decide
  have hpackage : ["package " ++ d.package ++ ";"].filter (startsWith "import ") = [] := by
    refine filter_import_of_head (List.forall_mem_singleton.2 ?_)
    rw [head?_append (head?_append (c := 'p') (by decide) _)]
    decide
  have himports : (importLines d.imports).filter (startsWith "import ") = importLines d.imports := by
    refine List.filter_eq_self.2 (List.forall_mem_map.2 fun path _ => ?_)
    rw [String.append_assoc]
    exact Text.startsWith_append _ _
  have hoptions : (optionStatements d.options).filter (startsWith "import ") = [] := by
    refine filter_import_of_head ?_
    rw [optionStatements_eq]
    refine List.forall_mem_map.2 fun a _ => ?_
    rw [head?_append (head?_append (c := 'o') (by decide) _)]
    decide
  have hproto : ["syntax = \"proto3\";"].filter (startsWith "import ") = [] := by decide
  have hblocks : ∀ {α : Type} (as : List α) (write : α → List String),
      (∀ a, (write a).filter (startsWith "import ") = []) →
        (as.map write).flatMap (List.filter (startsWith "import ")) = [] := by
    intro α as write h
    rw [List.flatMap_map, List.flatMap_eq_nil_iff]
    exact fun a _ => h a
  have henums := hblocks d.enums ofEnum fun _ =>
    filter_import_declaration (c := 'e') (by decide) (by decide)
  have hservices := hblocks d.services ofService fun _ =>
    filter_import_declaration (c := 's') (by decide) (by decide)
  have hextensions := hblocks d.extensions ofExtension fun _ =>
    filter_import_declaration (c := 'e') (by decide) (by decide)
  rw [lines, Text.filter_sections (by decide), fileSections]
  simp only [List.flatMap_append, List.flatMap_cons, List.flatMap_nil, hcomment, hproto, hpackage,
    himports, hoptions, henums, hservices, hextensions, filter_import_messages, List.append_nil,
    List.nil_append]

end ProtoText

/-- **The import lines of a file are its imports**, where no name in its literals has a newline in
it: of the lines of the text, those that begin with `import` are the quoted paths of the imports, in
strictly ascending order of the paths, and different paths are quoted differently. -/
theorem Package.import_lines {p : Package} {d : PackageDescriptor} (hp : p.Spelled)
    (h : p.build = .ok d) {fd : FileDescriptor} (hfd : fd ∈ d.files)
    (hnames : ∀ v ∈ fd.literals, ∀ n ∈ v.names, '\n' ∉ n.toList) :
    (Text.piecesOf '\n' (ProtoText.ofFile fd.name fd)).filter (Text.startsWith "import ") =
        fd.imports.toList.map (fun path => "import " ++ Text.quote path ++ ";") ∧
      fd.imports.toList.Pairwise (· < ·) ∧ Function.Injective Text.quote := by
  have htexts := ProtoText.sentence_fileLayout (writable hp h hfd hnames)
  have hlines : ∀ l ∈ ProtoText.lines fd.name fd, '\n' ∉ l.toList := by
    rw [← ProtoText.linesAll_fileLayout]
    exact Text.Layout.newline_not_mem_linesAll _ fun t ht => (htexts t ht).fragment.newline_not_mem
  refine ⟨?_, fd.imports.ascending, Text.quote_injective⟩
  rw [ProtoText.ofFile, Text.piecesOf_ofLines hlines, List.filter_append, ProtoText.filter_lines]
  exact List.append_nil _

/-- A file that imports a path with a quote and a newline in it, and whose option holds a line that
looks like an import. -/
theorem Package.import_lines_note :
    let note : Message := {
      name := "Note", fields := [(1, .leaf { head := { name := "at" }, type := .timestamp {} })],
      options := [⟨"(acme.doc)", .list [.string "\nimport \"b.proto\";", .ident "import"]⟩] }
    let p : Package := { config := { package := "acme" }, files := [
      { name := "note.proto", messages := [note], imports := .singleton "a\"\n.proto" }] }
    p.Spelled ∧ ∃ d fd, p.build = .ok d ∧ fd ∈ d.files ∧
      (∀ v ∈ fd.literals, ∀ n ∈ v.names, '\n' ∉ n.toList) ∧
      fd.imports.toList = ["a\"\n.proto", "google/protobuf/timestamp.proto"] ∧
      (Text.piecesOf '\n' (ProtoText.ofFile fd.name fd)).filter (Text.startsWith "import ") =
        ["import \"a\\\"\\n.proto\";", "import \"google/protobuf/timestamp.proto\";"] := by
  intro note p
  have hp : p.Spelled := by decide +kernel
  let summary (d : PackageDescriptor) := d.files.map fun fd =>
    (fd.literals.flatMap Literal.names, fd.imports.toList)
  obtain ⟨d, hd, hsummary⟩ : ∃ d, p.build = .ok d ∧
      summary d = [(["import"], ["a\"\n.proto", "google/protobuf/timestamp.proto"])] :=
    exists_ok_of_summary (by decide +kernel)
  obtain ⟨fd, hfd, hfile⟩ := List.map_eq_singleton_iff.1 hsummary
  obtain ⟨hnames, himports⟩ := Prod.mk.inj hfile
  have hmem : fd ∈ d.files := hfd ▸ List.mem_singleton.2 rfl
  have hline : ∀ v ∈ fd.literals, ∀ n ∈ v.names, '\n' ∉ n.toList := by
    intro v hv n hn
    have hn : n ∈ ["import"] := hnames ▸ List.mem_flatMap.2 ⟨v, hv, hn⟩
    rw [List.mem_singleton.1 hn]
    decide
  refine ⟨hp, d, fd, hd, hmem, hline, himports, ?_⟩
  rw [(import_lines hp hd hmem hline).1, himports]
  decide +kernel

end WireSchema

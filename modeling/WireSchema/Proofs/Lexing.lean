import WireSchema.Proofs.Layout
import WireSchema.Proofs.Quoted

/-!
# Strings and brackets in the text of a file

A reader of a file has to know two things to find its way: whether it is inside a string, and which
brackets are open. Here it goes through the text character by character, and gives up at a newline
inside a string or at a bracket that closes the wrong one.

* `Text.Reader.run_beneath`: what is open further out does not matter to text that is read inside it.
* `Text.settled_of_fragment`: a fragment leaves the reader as it was.
* `Text.Layout.settled_linesAll`: so do the lines of a layout, by induction over its blocks.
* `Package.text_lexes`: the text of a file reads through to its end, every top-level block stands by
  itself in it, and inside of a block a bracket is open throughout.
-/

namespace WireSchema

namespace Text

/-! ## The reader -/

/-- Outside of strings, inside of one, or behind a backslash in one. -/
inductive Mode where
  | code
  | string
  | escape
deriving DecidableEq, Repr

/-- Where the reader is. -/
structure Reader where
  mode : Mode := .code
  /-- The brackets that close those that are open, innermost first. -/
  pending : List Char := []
deriving DecidableEq, Repr

namespace Reader

/-- The bracket that closes this one. -/
def closer? : Char → Option Char
  | '(' => some ')'
  | '[' => some ']'
  | '\x7b' => some '\x7d'
  | _ => none

def isCloser (c : Char) : Bool := [')', ']', '\x7d'].contains c

/-- One character further, unless a string is left open at the end of a line or a bracket does not
fit. -/
def step (r : Reader) (c : Char) : Option Reader :=
  match r.mode with
  | .escape => if c = '\n' then none else some { r with mode := .string }
  | .string =>
    if c = '\n' then none
    else if c = '\\' then some { r with mode := .escape }
    else if c = '"' then some { r with mode := .code }
    else some r
  | .code =>
    if c = '"' then some { r with mode := .string }
    else
      match closer? c with
      | some d => some { r with pending := d :: r.pending }
      | none =>
        if isCloser c then
          match r.pending with
          | [] => none
          | d :: ds => if c = d then some { r with pending := ds } else none
        else some r

def run (r : Reader) : List Char → Option Reader
  | [] => some r
  | c :: cs => (r.step c).bind fun r => r.run cs

theorem run_append (r : Reader) (cs ds : List Char) :
    r.run (cs ++ ds) = (r.run cs).bind fun r => r.run ds := by
  induction cs generalizing r with
  | nil => rfl
  | cons c cs ih => simp only [List.cons_append, run, Option.bind_assoc, ih]

/-- A reader that has more brackets open further out. -/
def beneath (outer : List Char) (r : Reader) : Reader :=
  { r with pending := r.pending ++ outer }

theorem step_beneath {r r' : Reader} {c : Char} (h : r.step c = some r') (outer : List Char) :
    (r.beneath outer).step c = some (r'.beneath outer) := by
  obtain ⟨mode, pending⟩ := r
  unfold step beneath at *
  cases mode with
  | escape | string => grind
  | code =>
    dsimp only at h ⊢
    split at h
    · next hquote => cases h; rw [if_pos hquote]
    · next hquote =>
      rw [if_neg hquote]
      split at h
      · cases h; rfl
      · split at h
        · next hclose =>
          rw [if_pos hclose]
          cases pending with
          | nil => cases h
          | cons d ds =>
            dsimp only [List.cons_append] at h ⊢
            split at h
            · next hd => cases h; rw [if_pos hd]
            · cases h
        · next hclose => cases h; rw [if_neg hclose]

/-- **What is open further out does not matter.** -/
theorem run_beneath {r r' : Reader} {cs : List Char} (h : r.run cs = some r')
    (outer : List Char) : (r.beneath outer).run cs = some (r'.beneath outer) := by
  induction cs generalizing r with
  | nil => cases h; rfl
  | cons c cs ih =>
    obtain ⟨s, hs, hrun⟩ := Option.bind_eq_some_iff.1 h
    rw [run, step_beneath hs outer]
    exact ih hrun

/-- Text that reads through reads through up to any place in it. -/
theorem run_prefix {r r' : Reader} {cs pre : List Char} (h : r.run cs = some r')
    (hpre : pre <+: cs) : ∃ s, r.run pre = some s := by
  obtain ⟨rest, rfl⟩ := hpre
  rw [run_append] at h
  obtain ⟨s, hs, -⟩ := Option.bind_eq_some_iff.1 h
  exact ⟨s, hs⟩

end Reader

/-! ## Settled text -/

/-- Read from outside of strings and brackets, the text ends outside of them. -/
def Settled (cs : List Char) : Prop := Reader.run {} cs = some {}

instance (cs : List Char) : Decidable (Settled cs) := inferInstanceAs (Decidable (_ = _))

namespace Settled

theorem nil : Settled [] := rfl

theorem append {cs ds : List Char} (hc : Settled cs) (hd : Settled ds) : Settled (cs ++ ds) := by
  rw [Settled, Reader.run_append, hc]
  exact hd

theorem plain {cs : List Char} (h : ∀ c ∈ cs, isPlain c = true ∨ c = '\n') : Settled cs := by
  have hstep : ∀ c : Char, isPlain c = true ∨ c = '\n' → Reader.step {} c = some {} := by
    intro c hc
    have hmarks : ∀ m ∈ marks, m ≠ '\n' → c ≠ m := by
      rintro m hm hne rfl
      rcases hc with hc | hc
      · rw [isPlain, Bool.not_eq_true', ← Bool.not_eq_true, List.contains_iff_mem] at hc
        exact hc hm
      · exact hne hc
    have hcloser : Reader.closer? c = none := by
      unfold Reader.closer?
      split
      · exact absurd rfl (hmarks '(' (by decide) (by decide))
      · exact absurd rfl (hmarks '[' (by decide) (by decide))
      · exact absurd rfl (hmarks '\x7b' (by decide) (by decide))
      · rfl
    have hclose : Reader.isCloser c = false := by
      rw [Reader.isCloser, ← Bool.not_eq_true, List.contains_iff_mem]
      intro hmem
      have hm : ∀ m ∈ [')', ']', '\x7d'], m ∈ marks ∧ m ≠ '\n' := by decide
      exact hmarks c (hm c hmem).1 (hm c hmem).2 rfl
    simp [Reader.step, hcloser, hclose, hmarks '"' (by decide) (by decide)]
  induction cs with
  | nil => exact nil
  | cons c cs ih =>
    obtain ⟨hc, hcs⟩ := List.forall_mem_cons.1 h
    rw [Settled, Reader.run, hstep c hc]
    exact ih hcs

/-- Brackets that fit around settled text. -/
theorem enclosed (opening closing : Char) {cs : List Char}
    (hopen : Reader.step {} opening = some { pending := [closing] })
    (hclose : Reader.step { pending := [closing] } closing = some {}) (h : Settled cs) :
    Settled (opening :: cs ++ [closing]) := by
  have hinner : Reader.run { pending := [closing] } cs = some { pending := [closing] } :=
    Reader.run_beneath h [closing]
  rw [Settled, List.cons_append, Reader.run, hopen, Option.bind_some, Reader.run_append, hinner,
    Option.bind_some, Reader.run, hclose]
  rfl

end Settled

/-! ## Quoted text -/

/-- Every character is written so that the string stays open. -/
theorem run_escapeChar (c : Char) :
    Reader.run { mode := .string } (escapeChar c) = some { mode := .string } := by
  refine escapeChar_cases (P := fun _ written =>
    Reader.run { mode := .string } written = some { mode := .string })
    (by decide) (by decide +kernel) (fun c hquote hslash hnewline => ?_) c
  simp [Reader.run, Reader.step, hquote, hslash, hnewline]

theorem run_escapeByte (b : UInt8) :
    Reader.run { mode := .string } (escapeByte b) = some { mode := .string } := by
  have hall : ∀ n < 256, Reader.run { mode := .string } (escapeByte (UInt8.ofNat n)) =
      some { mode := .string } := by decide +kernel
  have hb := hall b.toNat b.toNat_lt
  rwa [UInt8.ofNat_toNat] at hb

/-- Quotes around characters that leave the string open. -/
theorem settled_quoted {α : Type} {escape : α → List Char}
    (h : ∀ a, Reader.run { mode := .string } (escape a) = some { mode := .string })
    (as : List α) : Settled ('"' :: as.flatMap escape ++ ['"']) := by
  have hinner : Reader.run { mode := .string } (as.flatMap escape) = some { mode := .string } := by
    induction as with
    | nil => rfl
    | cons a as ih =>
      rw [List.flatMap_cons, Reader.run_append, h a]
      exact ih
  have hopen : Reader.step {} '"' = some { mode := .string } := by decide
  rw [Settled, List.cons_append, Reader.run, hopen, Option.bind_some, Reader.run_append, hinner]
  decide

/-- **A fragment leaves the reader as it was.** -/
theorem settled_of_fragment {s : String}
    (h : Fragment (fun n => Name.isIdentifier n = true) s) : Settled s.toList := by
  induction h with
  | plain h => exact .plain fun c hc => .inl (h c hc)
  | bare h => exact .plain fun c hc => .inl (Name.isPlain_of_isPart (Name.isPart_of_isIdentifier h c hc))
  | quoted s => rw [quote, String.toList_ofList]; exact settled_quoted run_escapeChar _
  | quotedBytes bs => rw [quoteBytes, String.toList_ofList]; exact settled_quoted run_escapeByte bs
  | append _ _ hs ht => rw [String.toList_append]; exact hs.append ht
  | parens _ h =>
    rw [String.toList_append, String.toList_append]
    exact .enclosed _ _ (by decide) (by decide) h
  | squares _ h =>
    rw [String.toList_append, String.toList_append]
    exact .enclosed _ _ (by decide) (by decide) h
  | braces _ h =>
    rw [String.toList_append, String.toList_append]
    exact .enclosed _ _ (by decide) (by decide) h

/-! ## Lines -/

theorem ofLines_cons (l : String) (ls : List String) :
    (ofLines (l :: ls)).toList = l.toList ++ '\n' :: (ofLines ls).toList := by
  simp [ofLines, String.toList_join]

theorem ofLines_append (ls ms : List String) :
    (ofLines (ls ++ ms)).toList = (ofLines ls).toList ++ (ofLines ms).toList := by
  simp [ofLines, String.toList_join]

theorem indent_append (w : Nat) (ls ms : List String) :
    indent w (ls ++ ms) = indent w ls ++ indent w ms := List.map_append

theorem indent_zero (ls : List String) : indent 0 ls = ls := by
  have hline : ∀ l, indentLine 0 l = l := fun l => by
    rw [indentLine, ← String.toList_inj]
    split <;> simp [blanks]
  rw [indent, List.map_congr_left fun l _ => hline l, List.map_id']

/-- Lines that are moved twice. -/
theorem indent_indent (w v : Nat) (ls : List String) :
    indent w (indent v ls) = indent (w + v) ls := by
  rw [indent, indent, List.map_map]
  refine List.map_congr_left fun l _ => ?_
  rw [Function.comp_apply, indentLine, indentLine, indentLine]
  by_cases hl : l.isEmpty = true
  · rw [if_pos hl, if_pos hl, if_pos hl]
  · have hne : (blanks v ++ l).isEmpty = false := by
      rw [← Bool.not_eq_true, String.isEmpty_iff, ← String.toList_inj] at *
      simpa using fun _ => hl
    rw [if_neg hl, if_neg hl, hne, if_neg Bool.false_ne_true, ← String.toList_inj]
    simp [blanks, ← List.append_assoc, List.replicate_append_replicate]

theorem settled_blanks (w : Nat) : Settled (blanks w).toList := by
  refine .plain fun c hc => .inl ?_
  rw [blanks, String.toList_ofList] at hc
  rw [List.eq_of_mem_replicate hc]
  decide

theorem settled_indentLine (w : Nat) {l : String} (h : Settled l.toList) :
    Settled (indentLine w l).toList := by
  unfold indentLine
  split
  · exact h
  · rw [String.toList_append]; exact (settled_blanks w).append h

theorem settled_newline : Settled ['\n'] := by decide

namespace Layout

/-- The lines of a block, between the brackets that they open and close. -/
theorem settled_block {e : Enclosure} {head : String} {body : List Layout} {w : Nat}
    (hhead : Settled head.toList)
    (hbody : Settled (ofLines (indent (w + 2) (linesAll body))).toList) :
    Settled (ofLines (indent w (block e head body).lines)).toList := by
  have hindent : ∀ l : String, l ≠ "" → indentLine w l = blanks w ++ l := fun l hl => by
    rw [indentLine, if_neg (by simpa using hl)]
  have hfirst : indentLine w (head ++ " " ++ e.opening) =
      blanks w ++ (head ++ " " ++ e.opening) := hindent _ <| by
    rw [ne_eq, ← String.toList_inj]; simp
  have hlast : indentLine w e.closing = blanks w ++ e.closing :=
    hindent _ (by cases e <;> decide)
  have hlines : indent w (block e head body).lines =
      (blanks w ++ (head ++ " " ++ e.opening)) :: (indent (w + 2) (linesAll body)
        ++ [blanks w ++ e.closing]) := by
    rw [lines, List.cons_append, ← hfirst, ← hlast, ← indent_indent]
    simp [indent]
  have hinner : Settled ('\n' :: (ofLines (indent (w + 2) (linesAll body))).toList
      ++ (blanks w).toList) :=
    (settled_newline.append hbody).append (settled_blanks w)
  have hbefore : Settled ((blanks w).toList ++ head.toList ++ [' ']) :=
    ((settled_blanks w).append hhead).append (by decide)
  rw [hlines, ofLines_cons, ofLines_append, ofLines_cons]
  cases e with
  | braces =>
    have hpair := Settled.enclosed '\x7b' '\x7d' (by decide) (by decide)
      hinner
    have hall := (hbefore.append hpair).append (show Settled ['\n'] by decide)
    simpa [Enclosure.opening, Enclosure.closing, ofLines, List.append_assoc] using hall
  | squares =>
    have hpair := Settled.enclosed '[' ']' (by decide) (by decide) hinner
    have hall := (hbefore.append hpair).append (show Settled [';', '\n'] by decide)
    simpa [Enclosure.opening, Enclosure.closing, ofLines, List.append_assoc] using hall

mutual

/-- **The lines of a layout leave the reader as it was**, however far they are moved. -/
theorem settled_lines : ∀ (l : Layout) (w : Nat), (∀ t ∈ l.texts, Settled t.toList) →
    Settled (ofLines (indent w l.lines)).toList
  | blank, w, _ => by
    have hblank : Settled (indentLine w "").toList := settled_indentLine w .nil
    rw [lines, indent, List.map_singleton, ofLines_cons]
    exact hblank.append (by decide)
  | line t, w, h => by
    rw [lines, indent, List.map_singleton, ofLines_cons]
    exact (settled_indentLine w (h t (List.mem_singleton.2 rfl))).append (by decide)
  | block e head body, w, h => by
    obtain ⟨hhead, hbody⟩ := List.forall_mem_cons.1 h
    exact settled_block hhead (settled_linesAll body (w + 2) hbody)

theorem settled_linesAll : ∀ (ls : List Layout) (w : Nat),
    (∀ t ∈ textsAll ls, Settled t.toList) → Settled (ofLines (indent w (linesAll ls))).toList
  | [], w, _ => by
    rw [linesAll, indent, List.map_nil]
    exact .nil
  | l :: ls, w, h => by
    obtain ⟨hl, hls⟩ := List.forall_mem_append.1 h
    rw [linesAll, indent_append, ofLines_append]
    exact (settled_lines l w hl).append (settled_linesAll ls w hls)

end

end Layout

/-! ## Blocks and sections -/

/-- From behind the first line of the block to the beginning of its last, some bracket is open. -/
def OpenInside (block : List String) : Prop :=
  ∃ first inner last, block = first :: inner ++ [last] ∧
    ∀ pre, pre <+: (ofLines inner).toList →
      ∃ r, Reader.run {} ((ofLines [first]).toList ++ pre) = some r ∧ r.pending ≠ []

theorem Layout.openInside_block {e : Enclosure} {head : String} {body : List Layout}
    (h : ∀ t ∈ (block e head body).texts, Settled t.toList) :
    OpenInside (block e head body).lines := by
  obtain ⟨hhead, hbody⟩ := List.forall_mem_cons.1 h
  refine ⟨head ++ " " ++ e.opening, indent 2 (linesAll body), e.closing, rfl, fun pre hpre => ?_⟩
  obtain ⟨s, hs⟩ := Reader.run_prefix (settled_linesAll body 2 hbody) hpre
  have hopen : ∃ c, Reader.run {} (ofLines [head ++ " " ++ e.opening]).toList =
      some { pending := [c] } := by
    have hfirst : (ofLines [head ++ " " ++ e.opening]).toList =
        head.toList ++ (" " ++ e.opening ++ "\n").toList := by
      rw [ofLines_cons]; simp [ofLines]
    rw [hfirst, Reader.run_append, hhead]
    cases e with
    | braces => exact ⟨'\x7d', by decide⟩
    | squares => exact ⟨']', by decide⟩
  obtain ⟨c, hc⟩ := hopen
  refine ⟨s.beneath [c], ?_, by simp [Reader.beneath]⟩
  rw [Reader.run_append, hc]
  exact Reader.run_beneath hs [c]

/-- The lines stand in the text with nothing open in front of them, nor behind them. -/
def StandsAlone (text : List Char) (part : List String) : Prop :=
  ∃ before after, text = before ++ (ofLines part).toList ++ after ∧
    Settled before ∧ Settled (ofLines part).toList ∧ Settled after

theorem intercalate_split {α : Type} (sep : List α) (as : List (List α)) (part : List α)
    (bs : List (List α)) : sep.intercalate (as ++ part :: bs) =
      as.flatMap (· ++ sep) ++ part ++ bs.flatMap (sep ++ ·) := by
  have hbehind : sep.intercalate (part :: bs) = part ++ bs.flatMap (sep ++ ·) := by
    induction bs generalizing part with
    | nil => simp
    | cons b bs ih =>
      rw [List.intercalate_cons_cons, ih, List.flatMap_cons]
      simp [List.append_assoc]
  induction as with
  | nil => simpa using hbehind
  | cons a as ih =>
    obtain ⟨next, rest, hrest⟩ : ∃ next rest, as ++ part :: bs = next :: rest := by
      cases as <;> exact ⟨_, _, rfl⟩
    rw [List.cons_append, hrest, List.intercalate_cons_cons, ← hrest, ih, List.flatMap_cons]
    simp [List.append_assoc]

theorem settled_flatMap {parts : List (List String)} {f : List String → List String}
    (h : ∀ part ∈ parts, Settled (ofLines (f part)).toList) :
    Settled (ofLines (parts.flatMap f)).toList := by
  induction parts with
  | nil => exact .nil
  | cons part parts ih =>
    obtain ⟨hpart, hparts⟩ := List.forall_mem_cons.1 h
    rw [List.flatMap_cons, ofLines_append]
    exact hpart.append (ih hparts)

/-- Each of several settled sections stands alone among them. -/
theorem standsAlone_sections {parts : List (List String)}
    (h : ∀ part ∈ parts, Settled (ofLines part).toList) {part : List String}
    (hpart : part ∈ parts) (hne : part ≠ []) :
    StandsAlone (ofLines (sections parts)).toList part := by
  have hblank : Settled (ofLines [""]).toList := by decide
  have hmem : part ∈ parts.filter fun part => !part.isEmpty :=
    List.mem_filter.2 ⟨hpart, by simpa using hne⟩
  obtain ⟨as, bs, hsplit⟩ := List.append_of_mem hmem
  have hall : ∀ p ∈ as ++ part :: bs, Settled (ofLines p).toList := fun p hp =>
    h p (List.mem_of_mem_filter (hsplit ▸ hp))
  refine ⟨(ofLines (as.flatMap (· ++ [""]))).toList, (ofLines (bs.flatMap ([""] ++ ·))).toList,
    ?_, ?_, h part hpart, ?_⟩
  · rw [sections, hsplit, intercalate_split, ofLines_append, ofLines_append]
  · refine settled_flatMap fun p hp => ?_
    rw [ofLines_append]
    exact (hall p (List.mem_append_left _ hp)).append hblank
  · refine settled_flatMap fun p hp => ?_
    rw [ofLines_append]
    exact hblank.append (hall p (List.mem_append_right _ (List.mem_cons_of_mem _ hp)))

theorem settled_sections {parts : List (List String)}
    (h : ∀ part ∈ parts, Settled (ofLines part).toList) :
    Settled (ofLines (sections parts)).toList := by
  by_cases hempty : ∀ part ∈ parts, part = []
  · have hnone : (parts.filter fun part => !part.isEmpty) = [] :=
      List.filter_eq_nil_iff.2 fun part hpart => by simp [hempty part hpart]
    rw [sections, hnone]
    exact .nil
  · obtain ⟨part, hpart, hne⟩ : ∃ part ∈ parts, part ≠ [] := by simpa using hempty
    obtain ⟨before, after, htext, hbefore, hown, hafter⟩ := standsAlone_sections h hpart hne
    rw [htext]
    exact (hbefore.append hown).append hafter

end Text

/-! ## Files -/

namespace ProtoText

open Text (Layout Settled StandsAlone OpenInside)

/-- The top-level blocks of a file. -/
def blocks (d : FileDescriptor) : List (List String) :=
  d.enums.map ofEnum ++ ofMessages d.messages ++ d.services.map ofService
    ++ d.extensions.map ofExtension

theorem blocks_subset (name : String) (d : FileDescriptor) :
    ∀ block ∈ blocks d, block ∈ (fileSections name d).tail := by
  intro block h
  simp only [blocks, fileSections, List.mem_append, List.cons_append, List.tail_cons,
    List.mem_cons, List.nil_append] at h ⊢
  tauto

/-- Every top-level block is a block of the layout. -/
theorem exists_layout_of_mem_blocks {d : FileDescriptor} {block : List String}
    (h : block ∈ blocks d) : ∃ e head body, block = (Layout.block e head body).lines ∧
      [Layout.block e head body] ∈ fileParts d.name d := by
  have hmessages : ∀ ms : List MessageDescriptor, block ∈ ofMessages ms →
      ∃ e head body, block = (Layout.block e head body).lines ∧
        [Layout.block e head body] ∈ messageLayouts ms := by
    intro ms hms
    induction ms with
    | nil => cases hms
    | cons m ms ih =>
      obtain ⟨m, nested⟩ := m
      rcases List.mem_cons.1 hms with rfl | hms
      · exact ⟨_, _, _, (lines_messageLayout ⟨m, nested⟩).symm, List.mem_cons_self⟩
      · obtain ⟨e, head, body, hlines, hmem⟩ := ih hms
        exact ⟨e, head, body, hlines, List.mem_cons_of_mem _ hmem⟩
  simp only [blocks, List.mem_append] at h
  simp only [fileParts, List.mem_append]
  rcases h with ((h | h) | h) | h
  · obtain ⟨e, he, rfl⟩ := List.mem_map.1 h
    exact ⟨_, _, _, (lines_enumLayout e).symm,
      .inl (.inl (.inl (.inr (List.mem_map.2 ⟨e, he, rfl⟩))))⟩
  · obtain ⟨e, head, body, hlines, hmem⟩ := hmessages d.messages h
    exact ⟨e, head, body, hlines, .inl (.inl (.inr hmem))⟩
  · obtain ⟨v, hv, rfl⟩ := List.mem_map.1 h
    exact ⟨_, _, _, (lines_serviceLayout v).symm, .inl (.inr (List.mem_map.2 ⟨v, hv, rfl⟩))⟩
  · obtain ⟨x, hx, rfl⟩ := List.mem_map.1 h
    exact ⟨_, _, _, (lines_extensionLayout x).symm, .inr (List.mem_map.2 ⟨x, hx, rfl⟩)⟩

variable {d : FileDescriptor}

/-- The texts in the layout of a writable file are settled, where the names in its literals are
identifiers. -/
theorem settled_texts (h : d.Writable (NamesAre fun n => Name.isIdentifier n = true)) :
    ∀ part ∈ fileParts d.name d, ∀ t ∈ Layout.textsAll part, Settled t.toList :=
  fun part hpart t ht => Text.settled_of_fragment (sentence_fileParts h part hpart t ht).fragment

theorem settled_fileSections (h : d.Writable (NamesAre fun n => Name.isIdentifier n = true)) :
    ∀ part ∈ fileSections d.name d, Settled (Text.ofLines part).toList := by
  rw [← map_linesAll_fileParts]
  refine List.forall_mem_map.2 fun part hpart => ?_
  have hlines := Layout.settled_linesAll part 0 (settled_texts h part hpart)
  rwa [Text.indent_zero] at hlines

/-- The text of a file is its comment, a blank line, and the other sections. -/
theorem ofFile_eq (name : String) (d : FileDescriptor) : ofFile name d =
    Text.ofLines [banner, "// source: " ++ name]
      ++ Text.ofLines ("" :: Text.sections (fileSections name d).tail) := by
  have hcons : fileSections name d =
      [banner, "// source: " ++ name] :: (fileSections name d).tail := rfl
  obtain ⟨rest, hrest⟩ : ∃ rest, (fileSections name d).tail = ["syntax = \"proto3\";"] :: rest :=
    ⟨_, rfl⟩
  have hlines : lines name d =
      [banner, "// source: " ++ name] ++ "" :: Text.sections (fileSections name d).tail := by
    rw [lines, hcons, hrest, List.tail_cons, Text.sections, Text.sections,
      List.filter_cons_of_pos (by rfl), List.filter_cons_of_pos (by rfl),
      List.intercalate_cons_cons]
    simp
  rw [ofFile, hlines, ← String.toList_inj, Text.ofLines_append, String.toList_append]

end ProtoText

/-- The text of a file, of which `rest` follows the comment, reads through. -/
structure ProtoText.Lexes (name : String) (d : FileDescriptor) (rest : String) : Prop where
  text : ofFile name d = Text.ofLines [banner, "// source: " ++ name] ++ rest
  /-- Every string is closed on its line, and brackets are balanced and nested. -/
  settled : Text.Settled rest.toList
  /-- Every section begins and ends with nothing open. -/
  sections : ∀ part ∈ (fileSections name d).tail, part ≠ [] → Text.StandsAlone rest.toList part
  /-- So does every top-level block, and some bracket is open throughout the inside of it. -/
  blocks : ∀ block ∈ blocks d, Text.StandsAlone rest.toList block ∧ Text.OpenInside block

/-- **The text of a file is lexically well-formed**, where the names that its literals write without
quotes are identifiers: behind the comment, its strings are closed on the lines that they open, its
brackets are balanced and nested, nothing is open between sections, and something is open throughout
the inside of a top-level block. -/
theorem Package.text_lexes {p : Package} {d : PackageDescriptor} (hp : p.Spelled)
    (h : p.build = .ok d) {fd : FileDescriptor} (hfd : fd ∈ d.files)
    (hnames : ∀ v ∈ fd.literals, ∀ n ∈ v.names, Name.isIdentifier n = true) :
    ∃ rest, ProtoText.Lexes fd.name fd rest := by
  have hwritable := writable hp h hfd hnames
  have hsettled : ∀ part ∈ (ProtoText.fileSections fd.name fd).tail,
      Text.Settled (Text.ofLines part).toList := fun part hpart =>
    ProtoText.settled_fileSections hwritable part (List.mem_of_mem_tail hpart)
  have halone : ∀ part ∈ (ProtoText.fileSections fd.name fd).tail, part ≠ [] →
      Text.StandsAlone (Text.ofLines
        ("" :: Text.sections (ProtoText.fileSections fd.name fd).tail)).toList part := by
    intro part hpart hne
    obtain ⟨before, after, htext, hbefore, hown, hafter⟩ :=
      Text.standsAlone_sections hsettled hpart hne
    refine ⟨'\n' :: before, after, ?_, ?_, hown, hafter⟩
    · rw [Text.ofLines_cons, htext]; simp
    · exact Text.settled_newline.append hbefore
  refine ⟨_, ProtoText.ofFile_eq fd.name fd, ?_, halone, fun block hblock => ?_⟩
  · rw [Text.ofLines_cons]
    exact Text.settled_newline.append (Text.settled_sections hsettled)
  · obtain ⟨e, head, body, rfl, hmem⟩ := ProtoText.exists_layout_of_mem_blocks hblock
    have htexts := ProtoText.settled_texts hwritable _ hmem
    rw [Text.Layout.textsAll, Text.Layout.textsAll, List.append_nil] at htexts
    exact ⟨halone _ (ProtoText.blocks_subset _ _ _ hblock) (Text.Layout.lines_ne_nil _),
      Text.Layout.openInside_block htexts⟩

/-- Quotes, backslashes, brackets and newlines in strings, byte strings and constraints, a literal
with an identifier in a list in an aggregate, and a message nested in another. -/
theorem Package.text_lexes_note :
    let tag : Field := .leaf {
      head := { name := "tag", options := [⟨"(acme.mark)", .string "a \"b\" \\ \x7b\n"⟩] },
      type := .string { members := { allowed := ["(", "]"] } } }
    let span : Literal :=
      .list [.bytes [0x22, 0x0a], .message [("path", .list [.ident "ROOT", .uint 3])]]
    let note : Message := {
      name := "Note", fields := [(1, tag)], options := [⟨"(acme.span)", span⟩],
      constraints := [{ id := "note", message := "\"", expression := "this.tag != '\x7d'" }],
      messages := [{ name := "Inner", fields := [(2, tag)] }] }
    let p : Package := {
      config := { package := "acme" }, files := [{ name := "note.proto", messages := [note] }] }
    p.Spelled ∧ ∃ d fd, p.build = .ok d ∧ d.files = [fd] ∧
      fd.literals.flatMap Literal.names = ["path", "ROOT", "id", "message", "expression"] ∧
      (ProtoText.blocks fd).length = 1 ∧ ∃ rest, ProtoText.Lexes fd.name fd rest := by
  intro tag span note p
  have hp : p.Spelled := by decide +kernel
  let summary (d : PackageDescriptor) := d.files.map fun fd =>
    (fd.literals.flatMap Literal.names, (ProtoText.blocks fd).length)
  obtain ⟨d, hd, hsummary⟩ : ∃ d, p.build = .ok d ∧
      summary d = [(["path", "ROOT", "id", "message", "expression"], 1)] :=
    exists_ok_of_summary (by decide +kernel)
  obtain ⟨fd, hfd, hfile⟩ := List.map_eq_singleton_iff.1 hsummary
  obtain ⟨hnames, hblocks⟩ := Prod.mk.inj hfile
  have hidentifiers : ∀ v ∈ fd.literals, ∀ n ∈ v.names, Name.isIdentifier n = true := by
    intro v hv n hn
    have hmem : n ∈ ["path", "ROOT", "id", "message", "expression"] :=
      hnames ▸ List.mem_flatMap.2 ⟨v, hv, hn⟩
    exact (show ∀ n ∈ ["path", "ROOT", "id", "message", "expression"],
      Name.isIdentifier n = true by decide +kernel) n hmem
  exact ⟨hp, d, fd, hd, hfd, hnames, hblocks,
    text_lexes hp hd (hfd ▸ List.mem_singleton.2 rfl) hidentifiers⟩

end WireSchema

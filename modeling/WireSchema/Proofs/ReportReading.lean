import WireSchema.Proofs.ImportLines
import WireSchema.Report

/-!
# Reading reports

The text of a report writes a scope once for all neighbouring findings that share it, so what a line
says depends on the lines above it. A reader keeps the stack of the headings that are open: a
heading at some depth replaces the stack from there on, and a violation at some depth belongs to
that many of the scopes.

The stack may hold more than the path of the last finding, as nothing is written when a path shrinks
to one of its own prefixes. What holds throughout is that the last path is a prefix of the stack.

* `Report.Line.ofLine?_heading`, `Report.Line.ofLine?_violation`: the two kinds of lines are told
  apart, and give back their depth and their text.
* `Report.readLines?_headings`: the headings of a path leave a stack that begins with it.
* `Report.read_text`: the text of a report gives back its findings, by induction over them.
-/

namespace WireSchema

namespace Report

/-! ## Lines -/

/-- What a line of a report says. -/
inductive Line where
  /-- The heading of a scope inside `depth` others. -/
  | heading (depth : Nat) (scope : String)
  /-- A violation inside the outermost `depth` scopes. -/
  | violation (depth : Nat) (text : String)
deriving DecidableEq, Repr

namespace Line

/-- What stands behind `width` blanks, of which each scope has two. -/
def behind? (width : Nat) (cs : List Char) : Option Line :=
  if width % 2 = 0 then
    if ['-', ' '] <+: cs then some (violation (width / 2) (String.ofList (cs.drop 2)))
    else if cs.getLast? = some ':' then
      some (heading (width / 2) (String.ofList cs.dropLast))
    else none
  else none

def ofLine? (line : String) : Option Line :=
  behind? (line.toList.takeWhile (· == ' ')).length (line.toList.dropWhile (· == ' '))

end Line

/-! ## The reader -/

/-- The findings on these lines, each with its path, where `stack` has the scopes of the headings
above them. No line stands deeper than the stack. -/
def readLines? (stack : List String) : List String → Option (List (List String × String))
  | [] => some []
  | line :: lines =>
    match Line.ofLine? line with
    | some (.heading depth scope) =>
      if depth ≤ stack.length then readLines? (stack.take depth ++ [scope]) lines else none
    | some (.violation depth text) =>
      if depth ≤ stack.length then (readLines? stack lines).map ((stack.take depth, text) :: ·)
      else none
    | none => none

/-- The findings of a text whose lines each end in a newline. -/
def read? (text : String) : Option (List (List String × String)) :=
  if (Text.piecesOf '\n' text).getLast? = some "" then
    readLines? [] (Text.piecesOf '\n' text).dropLast
  else none

/-! ## Reading single lines -/

/-- A scope that its heading gives back: it is one line, and does not begin as a line does that is
indented further, or as a violation. -/
structure PlainScope (scope : String) : Prop where
  newline : '\n' ∉ scope.toList
  blank : scope.toList.head? ≠ some ' '
  dash : ¬ ['-', ' '] <+: scope.toList

/-- A report whose text can be read line by line. -/
structure Plain (r : Report) : Prop where
  scopes : ∀ f ∈ r, ∀ scope ∈ f.path, PlainScope scope
  texts : ∀ f ∈ r, '\n' ∉ f.violation.message.toList

instance (scope : String) : Decidable (PlainScope scope) :=
  decidable_of_iff ('\n' ∉ scope.toList ∧ scope.toList.head? ≠ some ' ' ∧
    ¬ ['-', ' '] <+: scope.toList) ⟨fun h => ⟨h.1, h.2.1, h.2.2⟩, fun h => ⟨h.1, h.2, h.3⟩⟩

instance (r : Report) : Decidable r.Plain :=
  decidable_of_iff ((∀ f ∈ r, ∀ scope ∈ f.path, PlainScope scope) ∧
    ∀ f ∈ r, '\n' ∉ f.violation.message.toList) ⟨fun h => ⟨h.1, h.2⟩, fun h => ⟨h.1, h.2⟩⟩

/-- The blanks that a line begins with are counted. -/
theorem Line.ofLine?_blanks (width : Nat) {cs : List Char} (h : cs.head? ≠ some ' ') :
    Line.ofLine? (Text.blanks width ++ String.ofList cs) = Line.behind? width cs := by
  have hblanks : ∀ c ∈ List.replicate width ' ', (c == ' ') = true := fun c hc => by
    simp [List.eq_of_mem_replicate hc]
  have hhead : ∀ c ∈ cs.head?, (c == ' ') = false := fun c hc =>
    beq_eq_false_iff_ne.2 fun he => h (he ▸ hc)
  obtain ⟨htake, hdrop⟩ := Text.takeWhile_dropWhile_append hblanks hhead
  rw [Line.ofLine?, String.toList_append, Text.blanks, String.toList_ofList, String.toList_ofList,
    htake, hdrop, List.length_replicate]

/-- **A heading is read as one.** -/
theorem Line.ofLine?_heading (depth : Nat) {scope : String} (h : PlainScope scope) :
    Line.ofLine? (Text.blanks (2 * depth) ++ scope ++ ":") = some (.heading depth scope) := by
  have hline : Text.blanks (2 * depth) ++ scope ++ ":" =
      Text.blanks (2 * depth) ++ String.ofList (scope.toList ++ [':']) := by
    rw [← String.toList_inj]
    simp
  have hhead : (scope.toList ++ [':']).head? ≠ some ' ' := by
    have hblank := h.blank
    cases hs : scope.toList with
    | nil => simp
    | cons c cs => simpa [hs] using hblank
  -- the colon at the end does not make it a violation
  have hdash : ¬ ['-', ' '] <+: scope.toList ++ [':'] := by
    rw [List.prefix_concat_iff, not_or]
    refine ⟨fun he => ?_, h.dash⟩
    have hlast := congrArg List.getLast? he
    simp at hlast
  rw [hline, Line.ofLine?_blanks _ hhead, Line.behind?, if_pos (by omega), if_neg hdash]
  simp

/-- **A violation is read as one**, whatever its text is. -/
theorem Line.ofLine?_violation (depth : Nat) (text : String) :
    Line.ofLine? (Text.blanks (2 * depth) ++ "- " ++ text) = some (.violation depth text) := by
  have hline : Text.blanks (2 * depth) ++ "- " ++ text =
      Text.blanks (2 * depth) ++ String.ofList ('-' :: ' ' :: text.toList) := by
    rw [← String.toList_inj]
    simp
  rw [hline, Line.ofLine?_blanks _ (by simp), Line.behind?, if_pos (by omega)]
  simp

/-! ## Paths -/

/-- The shared scopes of two paths are the same in both, and no more than either has. -/
theorem take_sharedDepth : ∀ as bs : List String,
    as.take (sharedDepth as bs) = bs.take (sharedDepth as bs) ∧ sharedDepth as bs ≤ bs.length
  | [], bs => by cases bs <;> simp [sharedDepth]
  | a :: as, [] => by simp [sharedDepth]
  | a :: as, b :: bs => by
    obtain ⟨htake, hle⟩ := take_sharedDepth as bs
    unfold sharedDepth
    split
    · next h => simp [h, htake, hle]
    · simp

/-- The headings of the scopes behind `front` leave a stack that begins with the whole path, when
the stack has begun with `front`. -/
theorem readLines?_headings {scopes : List String} (h : ∀ scope ∈ scopes, PlainScope scope) :
    ∀ {front stack : List String}, front <+: stack → ∃ stack', front ++ scopes <+: stack' ∧
      ∀ lines, readLines? stack (headings front.length scopes ++ lines) =
        readLines? stack' lines := by
  induction scopes with
  | nil => exact fun {front stack} hfront => ⟨stack, by simpa using hfront, fun lines => rfl⟩
  | cons scope scopes ih =>
    intro front stack hfront
    obtain ⟨hscope, hscopes⟩ := List.forall_mem_cons.1 h
    have hopen : stack.take front.length = front := (List.prefix_iff_eq_take.1 hfront).symm
    obtain ⟨stack', hstack', hread⟩ := ih hscopes (List.prefix_refl (front ++ [scope]))
    refine ⟨stack', by simpa using hstack', fun lines => ?_⟩
    rw [List.length_append, List.length_singleton] at hread
    rw [headings, List.cons_append, readLines?, Line.ofLine?_heading _ hscope]
    simp only [hfront.length_le, if_true, hopen, hread]

/-! ## Reading reports -/

/-- The lines that follow a finding are read, when the stack begins with its path. -/
theorem readLines?_linesAfter {r : Report} (h : r.Plain) :
    ∀ {previous stack : List String}, previous <+: stack →
      readLines? stack (linesAfter previous r) =
        some (r.map fun f => (f.path, f.violation.message)) := by
  induction r with
  | nil => exact fun _ => rfl
  | cons f r ih =>
    intro previous stack hprevious
    have hrest : Plain r :=
      ⟨fun g hg => h.scopes g (List.mem_cons_of_mem f hg),
        fun g hg => h.texts g (List.mem_cons_of_mem f hg)⟩
    obtain ⟨hshared, hle⟩ := take_sharedDepth previous f.path
    -- what the two paths share is still open
    have hfront : f.path.take (sharedDepth previous f.path) <+: stack :=
      hshared ▸ (List.take_prefix _ previous).trans hprevious
    have hscopes : ∀ scope ∈ f.path.drop (sharedDepth previous f.path), PlainScope scope :=
      fun scope hs => h.scopes f List.mem_cons_self scope (List.mem_of_mem_drop hs)
    obtain ⟨stack', hpath, hread⟩ := readLines?_headings hscopes hfront
    rw [List.take_append_drop] at hpath
    rw [List.length_take, Nat.min_eq_left hle] at hread
    have htake : stack'.take f.path.length = f.path := (List.prefix_iff_eq_take.1 hpath).symm
    rw [linesAfter, hread, readLines?, Line.ofLine?_violation]
    simp only [hpath.length_le, if_true, htake, ih hrest hpath, Option.map_some, List.map_cons]

theorem newline_not_mem_headings {scopes : List String} (h : ∀ s ∈ scopes, PlainScope s)
    (depth : Nat) : ∀ line ∈ headings depth scopes, '\n' ∉ line.toList := by
  induction scopes generalizing depth with
  | nil => exact nofun
  | cons scope scopes ih =>
    obtain ⟨hscope, hscopes⟩ := List.forall_mem_cons.1 h
    refine List.forall_mem_cons.2 ⟨?_, ih hscopes (depth + 1)⟩
    simpa [Text.blanks, List.mem_replicate] using hscope.newline

/-- Each line of a report is one line. -/
theorem newline_not_mem_linesAfter {r : Report} (h : r.Plain) (previous : List String) :
    ∀ line ∈ linesAfter previous r, '\n' ∉ line.toList := by
  induction r generalizing previous with
  | nil => exact nofun
  | cons f r ih =>
    obtain ⟨hscopes, hrest⟩ := List.forall_mem_cons.1 h.scopes
    obtain ⟨htext, htexts⟩ := List.forall_mem_cons.1 h.texts
    have hheadings := newline_not_mem_headings
      (fun s hs => hscopes s (List.mem_of_mem_drop (i := sharedDepth previous f.path) hs))
      (sharedDepth previous f.path)
    refine List.forall_mem_append.2 ⟨hheadings, List.forall_mem_cons.2 ⟨?_, ih ⟨hrest, htexts⟩ _⟩⟩
    simpa [Text.blanks, List.mem_replicate] using htext

/-- **A report loses nothing in its text.** Where nothing in it has a newline and no scope begins
with a blank or like a violation, reading the text line by line gives back the path and the wording
of every finding, in order. -/
theorem read_text {r : Report} (h : r.Plain) :
    read? r.text = some (r.map fun f => (f.path, f.violation.message)) := by
  have hlines : Text.piecesOf '\n' r.text = r.lines ++ [""] :=
    Text.piecesOf_ofLines (newline_not_mem_linesAfter h [])
  rw [read?, hlines, List.getLast?_concat, if_pos rfl, List.dropLast_concat]
  exact readLines?_linesAfter h (List.prefix_refl [])

/-- Paths that grow, shrink to a prefix, part again beneath it, and come back to one left before. -/
theorem read_text_returning :
    let report : Report := [
      ⟨["package", "file", "field"], .constOptional⟩,
      ⟨["package", "file"], .duplicateName "Line"⟩,
      ⟨["package", "file", "items", "-"], .enumMissingZero⟩,
      ⟨["package"], .duplicateName "Order"⟩,
      ⟨["package", "file", "field"], .constOptional⟩]
    report.Plain ∧ read? report.text =
      some (report.map fun f => (f.path, f.violation.message)) := by
  intro report
  have hplain : report.Plain := by decide
  exact ⟨hplain, read_text hplain⟩

end Report
end WireSchema

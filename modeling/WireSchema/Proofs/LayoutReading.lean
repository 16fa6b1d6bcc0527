import WireSchema.Proofs.ImportLines
import WireSchema.Proofs.Reading

/-!
# Reading layouts

The lines of a layout give it back, as long as its texts begin with something other than a blank or a
closing bracket: the lines inside of a block begin with a blank, and the first line that does not ends
the block.

* `Text.Layout.linesAll_injective`: lines determine the layout, by induction over the blocks.
* `Text.Layout.flatten_of_sections`: sections determine what stands in them one after another.
* `Text.runs_injective`: a list determines the runs that it consists of, if each has a tag of its own.
-/

namespace WireSchema.Text

/-- Lines without newlines in them are read back from their text. -/
theorem ofLines_injective {ls ms : List String} (hls : ∀ l ∈ ls, '\n' ∉ l.toList)
    (hms : ∀ l ∈ ms, '\n' ∉ l.toList) (h : ofLines ls = ofLines ms) : ls = ms := by
  have hpieces := piecesOf_ofLines hls
  rw [h, piecesOf_ofLines hms] at hpieces
  exact (List.append_cancel_right hpieces).symm

/-! ## Lines inside of blocks -/

/-- A line inside of a block, moved to the right: it is empty or begins with a blank. -/
def IsInner (l : String) : Prop := ∀ c ∈ l.toList.head?, c = ' '

theorem toList_blanks_two : (blanks 2).toList = [' ', ' '] := by decide

theorem isInner_indentLine (l : String) : IsInner (indentLine 2 l) := by
  unfold indentLine
  split
  · next hl =>
    rw [String.isEmpty_iff.1 hl]
    exact nofun
  · rw [IsInner, String.toList_append, toList_blanks_two]
    rintro c ⟨⟩
    rfl

theorem indentLine_injective {l m : String} (h : indentLine 2 l = indentLine 2 m) : l = m := by
  have hempty : ∀ {s : String}, "" ≠ blanks 2 ++ s := fun {s} hs => by
    have hlist := congrArg String.toList hs
    rw [String.toList_append, toList_blanks_two] at hlist
    cases hlist
  unfold indentLine at h
  split at h
  · next hl =>
    split at h
    · exact h
    · exact absurd ((String.isEmpty_iff.1 hl).symm.trans h) hempty
  · split at h
    · next hm => exact absurd ((String.isEmpty_iff.1 hm).symm.trans h.symm) hempty
    · exact String.append_right_inj _ |>.1 h

/-- The first character of a line, a closing bracket or not. -/
def IsClosing (l : String) : Prop := ∃ c ∈ l.toList.head?, c = '\x7d' ∨ c = ']'

theorem not_isInner_of_isClosing {l : String} (h : IsClosing l) : ¬IsInner l := by
  obtain ⟨c, hc, rfl | rfl⟩ := h
  · exact fun hinner => absurd (hinner _ hc) (by decide)
  · exact fun hinner => absurd (hinner _ hc) (by decide)

theorem Enclosure.isClosing_closing (e : Enclosure) : IsClosing e.closing := by
  cases e
  · exact ⟨'\x7d', rfl, .inl rfl⟩
  · exact ⟨']', rfl, .inr rfl⟩

theorem exists_head_of_opens {s : String} (h : opens s = true) :
    ∃ c, s.toList.head? = some c ∧ c ∉ [' ', '\x7d', ']'] := by
  unfold opens at h
  cases hs : s.toList.head? with
  | none => rw [hs] at h; cases h
  | some c =>
    rw [hs, Option.any_some, Bool.not_eq_true', ← Bool.not_eq_true, List.contains_iff_mem] at h
    exact ⟨c, rfl, h⟩

theorem ne_empty_of_opens {s : String} (h : opens s = true) : s ≠ "" := by
  rintro rfl
  cases h

theorem not_isInner_of_opens {s : String} (h : opens s = true) : ¬IsInner s := by
  obtain ⟨c, hc, hmem⟩ := exists_head_of_opens h
  intro hinner
  rw [hinner c hc] at hmem
  exact hmem (by decide)

theorem not_isClosing_of_opens {s : String} (h : opens s = true) : ¬IsClosing s := by
  obtain ⟨c, hc, hmem⟩ := exists_head_of_opens h
  rintro ⟨d, hd, hclose⟩
  obtain rfl : c = d := Option.some.inj (hc.symm.trans hd)
  rcases hclose with rfl | rfl
  · exact hmem (by decide)
  · exact hmem (by decide)

/-! ## Lines of layouts -/

namespace Layout

/-- The texts of these layouts begin with something other than a blank or a closing bracket. -/
abbrev Opens (ls : List Layout) : Prop := ∀ t ∈ textsAll ls, opens t = true

theorem opens_cons {l : Layout} {ls : List Layout} (h : Opens (l :: ls)) :
    (∀ t ∈ l.texts, opens t = true) ∧ Opens ls := List.forall_mem_append.1 h

/-- The first line of a layout that is not blank. -/
theorem exists_first {l : Layout} (hl : l ≠ blank) (h : ∀ t ∈ l.texts, opens t = true) :
    ∃ first rest, l.lines = first :: rest ∧ opens first = true := by
  cases l with
  | blank => exact absurd rfl hl
  | line t => exact ⟨t, [], rfl, h t List.mem_cons_self⟩
  | block e head body =>
    exact ⟨_, _, rfl, opens_append (opens_append (h head List.mem_cons_self) _) _⟩

/-- Behind lines inside of a block a layout has no closing line: whatever ends a block begins it. -/
theorem not_closes_linesAll {ls : List Layout} (h : Opens ls) {inner rest : List String}
    {last : String} (hinner : ∀ l ∈ inner, IsInner l) (hlast : IsClosing last) :
    linesAll ls ≠ inner ++ last :: rest := by
  intro heq
  induction ls generalizing inner with
  | nil => cases inner <;> cases heq
  | cons l ls ih =>
    obtain ⟨hl, hls⟩ := opens_cons h
    by_cases hblank : l = blank
    · subst hblank
      cases inner with
      | nil =>
        obtain ⟨c, hc, -⟩ := hlast
        rw [← (List.cons.inj heq).1] at hc
        cases hc
      | cons i inner =>
        exact ih hls (fun m hm => hinner m (List.mem_cons_of_mem _ hm)) (List.cons.inj heq).2
    · obtain ⟨first, more, hlines, hopens⟩ := exists_first hblank hl
      rw [linesAll, hlines] at heq
      cases inner with
      | nil => exact not_isClosing_of_opens hopens ((List.cons.inj heq).1 ▸ hlast)
      | cons i inner =>
        exact not_isInner_of_opens hopens
          ((List.cons.inj heq).1 ▸ hinner i List.mem_cons_self)

/-- The first line of a block tells its head from its bracket. -/
theorem head_injective {e e' : Enclosure} {head head' : String}
    (h : head ++ " " ++ e.opening = head' ++ " " ++ e'.opening) : head = head' ∧ e = e' := by
  have hsize : ∀ e : Enclosure, e.opening.toList.length = 1 := fun e => by cases e <;> rfl
  have hlist : (head ++ " ").toList ++ e.opening.toList =
      (head' ++ " ").toList ++ e'.opening.toList :=
    String.toList_append.symm.trans ((congrArg _ h).trans String.toList_append)
  obtain ⟨hfront, hlast⟩ := List.append_inj' hlist ((hsize e).trans (hsize e').symm)
  refine ⟨(String.append_left_inj _).1 (String.toList_inj.1 hfront), ?_⟩
  have hopening : e.opening = e'.opening := String.toList_inj.1 hlast
  cases e <;> cases e' <;> first | rfl | exact absurd hopening (by decide)

theorem linesAll_block (e : Enclosure) (head : String) (body ls : List Layout) :
    linesAll (block e head body :: ls) =
      (head ++ " " ++ e.opening) :: (indent 2 (linesAll body) ++ e.closing :: linesAll ls) := by
  rw [linesAll, lines, List.cons_append, List.cons_append, List.append_assoc]
  rfl

theorem isInner_indent (ls : List String) : ∀ l ∈ indent 2 ls, IsInner l :=
  List.forall_mem_map.2 fun l _ => isInner_indentLine l

/-- Only a blank begins with an empty line. -/
theorem linesAll_ne_blank {l : Layout} {ls : List Layout} (h : Opens (l :: ls)) (hl : l ≠ .blank)
    (ms : List Layout) : linesAll (l :: ls) ≠ linesAll (.blank :: ms) := by
  obtain ⟨first, behind, hlines, hopens⟩ := exists_first hl (opens_cons h).1
  rw [linesAll, hlines]
  exact fun heq => ne_empty_of_opens hopens (List.cons.inj heq).1

/-- Behind the first line of a block its body or its end follows, neither of which begins a layout. -/
theorem linesAll_line_ne_block {ls : List Layout} (h : Opens ls) (t : String) (e : Enclosure)
    (head : String) (body ms : List Layout) :
    linesAll (.line t :: ls) ≠ linesAll (.block e head body :: ms) := by
  rw [linesAll_block]
  intro heq
  exact absurd (List.cons.inj heq).2 (not_closes_linesAll h (isInner_indent _) e.isClosing_closing)

/-- **Lines determine the layout.** The induction is on the size of the layouts, since a block is read
before the lines behind it. -/
theorem linesAll_injective : ∀ (ls ms : List Layout), Opens ls → Opens ms →
    linesAll ls = linesAll ms → ls = ms
  | [], [], _, _, _ => rfl
  | [], m :: ms, _, _, h => by
    have hlines := List.append_eq_nil_iff.1 h.symm
    exact absurd hlines.1 m.lines_ne_nil
  | l :: ls, [], _, _, h => by
    have hlines := List.append_eq_nil_iff.1 h
    exact absurd hlines.1 l.lines_ne_nil
  | .blank :: ls, .blank :: ms, hls, hms, h => by
    rw [linesAll_injective ls ms (opens_cons hls).2 (opens_cons hms).2 (List.cons.inj h).2]
  | .blank :: ls, .line _ :: _, _, hms, h => absurd h.symm (linesAll_ne_blank hms nofun ls)
  | .blank :: ls, .block _ _ _ :: _, _, hms, h => absurd h.symm (linesAll_ne_blank hms nofun ls)
  | .line _ :: _, .blank :: ms, hls, _, h => absurd h (linesAll_ne_blank hls nofun ms)
  | .line t :: ls, .line u :: ms, hls, hms, h => by
    obtain ⟨htext, hrest⟩ := List.cons.inj h
    rw [htext, linesAll_injective ls ms (opens_cons hls).2 (opens_cons hms).2 hrest]
  | .line t :: _, .block e head body :: ms, hls, _, h =>
    absurd h (linesAll_line_ne_block (opens_cons hls).2 t e head body ms)
  | .block _ _ _ :: _, .blank :: ms, hls, _, h => absurd h (linesAll_ne_blank hls nofun ms)
  | .block e head body :: ls, .line t :: _, _, hms, h =>
    absurd h.symm (linesAll_line_ne_block (opens_cons hms).2 t e head body ls)
  | .block e head body :: ls, .block e' head' body' :: ms, hls, hms, h => by
    rw [linesAll_block, linesAll_block] at h
    obtain ⟨hfirst, hbehind⟩ := List.cons.inj h
    obtain ⟨rfl, rfl⟩ := head_injective hfirst
    have hend : ∀ {rest : List String}, ∀ l ∈ (e.closing :: rest).head?, ¬IsInner l := by
      rintro rest l ⟨⟩
      exact not_isInner_of_isClosing e.isClosing_closing
    obtain ⟨hbody, hrest⟩ :=
      append_cut (isInner_indent _) (isInner_indent _) hend hend hbehind
    have hinner := (List.map_inj_right fun _ _ => indentLine_injective).1 hbody
    rw [linesAll_injective body body' (List.forall_mem_cons.1 (opens_cons hls).1).2
        (List.forall_mem_cons.1 (opens_cons hms).1).2 hinner,
      linesAll_injective ls ms (opens_cons hls).2 (opens_cons hms).2 (List.cons.inj hrest).2]
termination_by ls => sizeOf ls

/-! ## Sections -/

def isBlank : Layout → Bool
  | blank => true
  | _ => false

/-- Parts without blank lines of their own. -/
abbrev Solid (parts : List (List Layout)) : Prop := ∀ l ∈ parts.flatten, l.isBlank = false

theorem filter_intercalate {parts : List (List Layout)} (h : Solid parts) :
    ([blank].intercalate parts).filter (fun l => !l.isBlank) = parts.flatten := by
  induction parts with
  | nil => rfl
  | cons part parts ih =>
    obtain ⟨hpart, hparts⟩ := List.forall_mem_append.1 h
    have hself : part.filter (fun l => !l.isBlank) = part :=
      List.filter_eq_self.2 fun l hl => by rw [hpart l hl]; rfl
    cases parts with
    | nil => rw [List.intercalate_singleton, hself, List.flatten_singleton]
    | cons next parts =>
      rw [List.intercalate_cons_cons, List.filter_append, List.filter_append, hself, ih hparts,
        List.flatten_cons]
      exact congrArg (· ++ _) (List.append_nil part)

/-- Without the blank lines, sections are their parts one after another. -/
theorem filter_sections {parts : List (List Layout)} (h : Solid parts) :
    (sections parts).filter (fun l => !l.isBlank) = parts.flatten := by
  have hflatten : (parts.filter fun part => !part.isEmpty).flatten = parts.flatten :=
    List.flatten_filter_not_isEmpty
  rw [sections, filter_intercalate (by rwa [Solid, hflatten]), hflatten]

/-- Sections determine the layouts that stand in them one after another. -/
theorem flatten_of_sections {ps qs : List (List Layout)} (hp : Solid ps) (hq : Solid qs)
    (h : sections ps = sections qs) : ps.flatten = qs.flatten := by
  rw [← filter_sections hp, ← filter_sections hq, h]

end Layout

/-! ## Runs -/

/-- **A list determines the runs that it consists of**, where every run has a tag of its own. -/
theorem runs_injective {α κ : Type} {tag : α → κ} {ks : List κ} (hks : ks.Nodup)
    {lss mss : List (List α)} (hl : List.Forall₂ (fun k ls => ∀ a ∈ ls, tag a = k) ks lss)
    (hm : List.Forall₂ (fun k ms => ∀ a ∈ ms, tag a = k) ks mss)
    (h : lss.flatten = mss.flatten) : lss = mss := by
  induction hl generalizing mss with
  | nil =>
    cases hm
    rfl
  | @cons k ls ks lss hls hlss ih =>
    cases hm with
    | @cons _ ms _ mss hms hmss =>
      obtain ⟨hk, hks⟩ := List.nodup_cons.1 hks
      have hother : ∀ {lss : List (List α)},
          List.Forall₂ (fun k ls => ∀ a ∈ ls, tag a = k) ks lss → ∀ a ∈ lss.flatten, tag a ≠ k := by
        intro lss hlss a ha he
        obtain ⟨ls, hls, ha⟩ := List.mem_flatten.1 ha
        obtain ⟨k', hk', htag⟩ := exists_of_forall₂_right hlss hls
        exact hk (he ▸ htag a ha ▸ hk')
      rw [List.flatten_cons, List.flatten_cons] at h
      obtain ⟨rfl, hrest⟩ := append_cut hls hms
        (fun a ha => hother hlss a (List.mem_of_head? ha))
        (fun a ha => hother hmss a (List.mem_of_head? ha)) h
      rw [ih hks hmss hrest]

end WireSchema.Text

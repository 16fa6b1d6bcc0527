import WireSchema.Proofs.NameCasing

/-!
# Words of recased names

Snake case sets a word apart by an underscore, Pascal case by a capital. A name that is first put in
Pascal case loses the underscores, and snake case has to find its words again by their capitals: a
word that begins with a digit has none, and that of a one-letter word takes the next one for the run
of capitals it stands in. On the other hand snake case on its own takes every capital inside a word
for the beginning of another one.

* `Text.snakeAfter_eq_iff`: snake case adds no underscore to a text just when it is `Unbroken`.
* `Text.snakeAfter_words_iff`: capitalized words come apart again just when each `Reopens` behind
  the one in front of it, by induction over the words.
* `Name.toSnakeCase_toPascalCase_iff`: an identifier has one snake case, whether it is put in Pascal
  case before or not, just when it `KeepsWords`.
-/

namespace WireSchema

/-! ## Characters -/

namespace Name

/-- The case of a character of identifiers, and of its two forms. -/
structure Cased (c : Char) : Prop where
  isUppercase : Text.isUppercase c = c.isUpper
  isLowercase : Text.isLowercase c = c.isLower
  isUpper_toUpper : c.toUpper.isUpper = c.isAlpha
  isLower_toUpper : c.toUpper.isLower = false
  isUpper_toLower : c.toLower.isUpper = false
  isLower_toLower : c.toLower.isLower = c.isAlpha
  toLower_toUpper : c.toUpper.toLower = c.toLower
  toLower_toLower : c.toLower.toLower = c.toLower
  toUpper_eq_iff : c.toUpper = c ↔ c.isLower = false
  isUpper_of_isLower : c.isLower = true → c.isUpper = false

instance (c : Char) : Decidable (Cased c) :=
  decidable_of_iff (Text.isUppercase c = c.isUpper ∧ Text.isLowercase c = c.isLower ∧
      c.toUpper.isUpper = c.isAlpha ∧ c.toUpper.isLower = false ∧ c.toLower.isUpper = false ∧
      c.toLower.isLower = c.isAlpha ∧ c.toUpper.toLower = c.toLower ∧
      c.toLower.toLower = c.toLower ∧ (c.toUpper = c ↔ c.isLower = false) ∧
      (c.isLower = true → c.isUpper = false))
    ⟨fun ⟨h₁, h₂, h₃, h₄, h₅, h₆, h₇, h₈, h₉, h⟩ => ⟨h₁, h₂, h₃, h₄, h₅, h₆, h₇, h₈, h₉, h⟩,
      fun ⟨h₁, h₂, h₃, h₄, h₅, h₆, h₇, h₈, h₉, h⟩ => ⟨h₁, h₂, h₃, h₄, h₅, h₆, h₇, h₈, h₉, h⟩⟩

theorem cased {c : Char} (hc : isPart c = true) : Cased c :=
  forall_isPart (P := Cased) (by decide +kernel) hc

end Name

namespace Text

open Name (isPart)

/-! ## Where words open -/

/-- A capital behind `p` opens a word, unless it goes on with a run of capitals: then it follows
one, and no small letter follows it. -/
def opensWord (p c : Char) (next : List Char) : Bool :=
  c.isUpper && (!p.isUpper || next.head?.any Char.isLower)

/-- No capital inside of the text opens a word. -/
def Unbroken (cs : List Char) : Prop :=
  ∀ before p c after, cs = before ++ p :: c :: after → opensWord p c after = false

theorem unbroken_nil : Unbroken [] := by
  intro before p c after h
  simp at h

theorem unbroken_singleton (c : Char) : Unbroken [c] := by
  intro before p d after h
  have hlen := congrArg List.length h
  simp at hlen
  omega

theorem unbroken_cons {p c : Char} {cs : List Char} :
    Unbroken (p :: c :: cs) ↔ opensWord p c cs = false ∧ Unbroken (c :: cs) := by
  constructor
  · exact fun h => ⟨h [] p c cs rfl, fun before q d after he => h (p :: before) q d after (by
      rw [he, List.cons_append])⟩
  · rintro ⟨hfirst, hrest⟩ before q d after he
    cases before with
    | nil =>
      obtain ⟨rfl, rfl, rfl⟩ : p = q ∧ c = d ∧ cs = after := by simpa using he
      exact hfirst
    | cons b before => exact hrest before q d after (List.cons.inj he).2

instance decidableUnbroken : (cs : List Char) → Decidable (Unbroken cs)
  | [] => isTrue unbroken_nil
  | [c] => isTrue (unbroken_singleton c)
  | _ :: c :: cs =>
    have := decidableUnbroken (c :: cs)
    decidable_of_iff' _ unbroken_cons

/-! ## Snake case of a text -/

/-- Snake case decides by the letters of ASCII. -/
theorem snakeAfter_some_cons {p c : Char} {cs : List Char} (hp : isPart p = true)
    (h : ∀ d ∈ c :: cs, isPart d = true) : snakeAfter (some p) (c :: cs) =
      (if opensWord p c cs then ['_'] else []) ++ c.toLower :: snakeAfter (some c) cs := by
  obtain ⟨hc, hcs⟩ := List.forall_mem_cons.1 h
  have hnext : cs.head?.any isLowercase = cs.head?.any Char.isLower := by
    cases cs with
    | nil => rfl
    | cons d ds => exact (Name.cased (hcs d List.mem_cons_self)).isLowercase
  rw [snakeAfter_cons hc, startsWord, (Name.cased hc).isUppercase, (Name.cased hp).isUppercase,
    hnext, opensWord]

/-- A capital that opens a word gets an underscore, which is not the small form of any capital. -/
theorem toLower_ne_of_opensWord {p c : Char} {cs : List Char} (hc : isPart c = true)
    (h : opensWord p c cs = true) : c.toLower ≠ '_' := by
  rw [Ne, (Name.recased hc).toLower_eq_iff]
  rintro rfl
  simp [opensWord] at h

/-- **Unbroken texts.** Snake case only makes a text small just when no capital in it opens a
word. -/
theorem snakeAfter_eq_iff {cs : List Char} (h : ∀ c ∈ cs, isPart c = true) :
    ∀ {p : Char}, isPart p = true →
      (snakeAfter (some p) cs = cs.map Char.toLower ↔ Unbroken (p :: cs)) := by
  induction cs with
  | nil => exact fun {p} _ => iff_of_true rfl (unbroken_singleton p)
  | cons c cs ih =>
    intro p hp
    obtain ⟨hc, hcs⟩ := List.forall_mem_cons.1 h
    rw [snakeAfter_some_cons hp h, unbroken_cons, ← ih hcs hc, List.map_cons]
    cases hopens : opensWord p c cs with
    | true => simpa using fun hne => absurd hne.symm (toLower_ne_of_opensWord hc hopens)
    | false => simp

theorem snakeAfter_none_eq_iff {cs : List Char} (h : ∀ c ∈ cs, isPart c = true) :
    snakeAfter none cs = cs.map Char.toLower ↔ Unbroken cs := by
  cases cs with
  | nil => exact iff_of_true rfl unbroken_nil
  | cons c cs =>
    obtain ⟨hc, hcs⟩ := List.forall_mem_cons.1 h
    rw [snakeAfter_none_cons hc, List.map_cons, ← snakeAfter_eq_iff hcs hc]
    simp

theorem count_map_toLower {cs : List Char} (h : ∀ c ∈ cs, isPart c = true) :
    (cs.map Char.toLower).count '_' = cs.count '_' := by
  induction cs with
  | nil => rfl
  | cons c cs ih =>
    obtain ⟨hc, hcs⟩ := List.forall_mem_cons.1 h
    have hsame : (c.toLower == '_') = (c == '_') := by
      rw [Bool.eq_iff_iff, beq_iff_eq, beq_iff_eq, (Name.recased hc).toLower_eq_iff]
    rw [List.map_cons, List.count_cons, List.count_cons, ih hcs, hsame]

/-- Snake case keeps the underscores of a text and adds others, unless it only makes it small. -/
theorem snakeAfter_eq_or_count_lt {cs : List Char} (h : ∀ c ∈ cs, isPart c = true) :
    ∀ previous, snakeAfter previous cs = cs.map Char.toLower ∨
      cs.count '_' < (snakeAfter previous cs).count '_' := by
  induction cs with
  | nil => exact fun _ => .inl rfl
  | cons c cs ih =>
    intro previous
    obtain ⟨hc, hcs⟩ := List.forall_mem_cons.1 h
    have hcount := count_map_toLower h
    rw [snakeAfter_cons hc]
    rcases ih hcs (some c) with hrest | hrest
    · rw [hrest, ← List.map_cons, ← hcount]
      split
      · exact .inr (by simp)
      · exact .inl rfl
    · rw [List.map_cons, List.count_cons, List.count_cons, count_map_toLower hcs] at hcount
      refine .inr ?_
      rw [List.count_append, List.count_cons, List.count_cons]
      omega

/-! ## Capitalized words -/

/-- How a capitalized word ends. -/
def wordEnd : List Char → Char
  | [] => '_'
  | c :: cs => (cs.map Char.toLower).getLastD c.toUpper

/-- Small characters stay as they are. -/
theorem snakeAfter_small {cs : List Char} (h : ∀ c ∈ cs, isPart c = true) (rest : List Char) :
    ∀ p, snakeAfter (some p) (cs.map Char.toLower ++ rest) =
      cs.map Char.toLower ++ snakeAfter (some ((cs.map Char.toLower).getLastD p)) rest := by
  induction cs with
  | nil => exact fun _ => rfl
  | cons c cs ih =>
    intro p
    obtain ⟨hc, hcs⟩ := List.forall_mem_cons.1 h
    have hsmall := (Name.recased hc).isPart_toLower
    rw [List.map_cons, List.cons_append, snakeAfter_cons hsmall, ih hcs,
      (Name.cased hsmall).isUppercase, (Name.cased hc).isUpper_toLower,
      (Name.cased hc).toLower_toLower, List.getLastD_cons]
    rfl

/-- A capitalized word becomes small again. Whether it is set apart shows at its capital. -/
theorem snakeAfter_word {c : Char} {cs : List Char} (h : ∀ d ∈ c :: cs, isPart d = true)
    (previous : Option Char) (rest : List Char) :
    snakeAfter previous (capitalize true (c :: cs) ++ rest) =
      (if isUppercase c.toUpper && startsWord previous (cs.map Char.toLower ++ rest) then ['_']
        else []) ++ ((c :: cs).map Char.toLower ++ snakeAfter (some (wordEnd (c :: cs))) rest) := by
  obtain ⟨hc, hcs⟩ := List.forall_mem_cons.1 h
  rw [capitalize_cons h, if_pos rfl, List.cons_append,
    snakeAfter_cons (Name.recased hc).isPart_toUpper, snakeAfter_small hcs,
    (Name.cased hc).toLower_toUpper]
  rfl

/-- A word of which no underscore is part. -/
def IsWord (w : List Char) : Prop := ∀ c ∈ w, IsLetterOrDigit c

theorem IsWord.isPart {w : List Char} (h : IsWord w) : ∀ c ∈ w, isPart c = true :=
  fun c hc => (h c hc).1

theorem IsWord.count_eq_zero {w : List Char} (h : IsWord w) :
    (w.map Char.toLower).count '_' = 0 := by
  rw [count_map_toLower h.isPart, List.count_eq_zero]
  exact fun hmem => (h '_' hmem).2 rfl

/-- Each word is set apart at most once. -/
theorem count_snakeAfter_words {ws : List (List Char)} (h : ∀ w ∈ ws, IsWord w) :
    ∀ previous, (snakeAfter previous (ws.flatMap (capitalize true))).count '_' ≤ ws.length := by
  induction ws with
  | nil => exact fun _ => Nat.le_refl 0
  | cons w ws ih =>
    intro previous
    obtain ⟨hw, hws⟩ := List.forall_mem_cons.1 h
    rw [List.flatMap_cons, List.length_cons]
    cases w with
    | nil => exact Nat.le_succ_of_le (ih hws previous)
    | cons c cs =>
      have hrest := ih hws (some (wordEnd (c :: cs)))
      rw [snakeAfter_word hw.isPart, List.count_append, List.count_append, hw.count_eq_zero]
      split <;> simp <;> omega

/-- The first of the words is not set apart. -/
theorem count_snakeAfter_none_words {w : List Char} {ws : List (List Char)}
    (h : ∀ v ∈ w :: ws, IsWord v) :
    (snakeAfter none ((w :: ws).flatMap (capitalize true))).count '_' ≤ ws.length := by
  obtain ⟨hw, hws⟩ := List.forall_mem_cons.1 h
  rw [List.flatMap_cons]
  cases w with
  | nil => exact count_snakeAfter_words hws none
  | cons c cs =>
    have hrest := count_snakeAfter_words hws (some (wordEnd (c :: cs)))
    rw [snakeAfter_word hw.isPart, startsWord, Bool.and_false, List.count_append,
      List.count_append, hw.count_eq_zero]
    simpa using hrest

/-! ## Words that come apart again -/

/-- The word `w` is told from the word `v` in front of it when both are capitalized: it begins with
a letter, and `v` does not end with its capital, or a letter follows that of `w`. -/
def Reopens (v w : List Char) : Prop :=
  w.head?.any Char.isAlpha = true ∧ (2 ≤ v.length ∨ w[1]?.any Char.isAlpha = true)

instance (v w : List Char) : Decidable (Reopens v w) :=
  inferInstanceAs (Decidable (_ ∧ _))

/-- No word begins with a small letter once it is capitalized. -/
theorem head?_words {ws : List (List Char)} (h : ∀ w ∈ ws, IsWord w) :
    (ws.flatMap (capitalize true)).head?.any isLowercase = false := by
  induction ws with
  | nil => rfl
  | cons w ws ih =>
    obtain ⟨hw, hws⟩ := List.forall_mem_cons.1 h
    rw [List.flatMap_cons]
    cases w with
    | nil => exact ih hws
    | cons c cs =>
      have hc := hw.isPart c List.mem_cons_self
      rw [capitalize_cons hw.isPart, List.cons_append, List.head?_cons, Option.any_some,
        (Name.cased (Name.recased hc).isPart_toUpper).isLowercase, (Name.cased hc).isLower_toUpper]

/-- A word ends with a capital only if it is a single letter. -/
theorem isUppercase_wordEnd {c : Char} {cs : List Char} (h : ∀ d ∈ c :: cs, isPart d = true) :
    isUppercase (wordEnd (c :: cs)) = (cs.isEmpty && c.isAlpha) := by
  obtain ⟨hc, hcs⟩ := List.forall_mem_cons.1 h
  rcases List.eq_nil_or_concat' cs with rfl | ⟨front, last, rfl⟩
  · exact (Name.cased (Name.recased hc).isPart_toUpper).isUppercase.trans
      (Name.cased hc).isUpper_toUpper
  · have hlast := hcs last (by simp)
    have hend : wordEnd (c :: (front ++ [last])) = last.toLower := by simp [wordEnd]
    rw [hend, (Name.cased (Name.recased hlast).isPart_toLower).isUppercase,
      (Name.cased hlast).isUpper_toLower]
    simp

/-- Behind a word that begins with a letter, another one is set apart just when it reopens. -/
theorem startsWord_iff_reopens {v : List Char} (hv : IsWord v)
    (hletter : v.head?.any Char.isAlpha = true) {c : Char} {cs : List Char} (hw : IsWord (c :: cs))
    {rest : List Char} (hrest : rest.head?.any isLowercase = false) :
    (isUppercase c.toUpper && startsWord (some (wordEnd v)) (cs.map Char.toLower ++ rest)) = true ↔
      Reopens v (c :: cs) := by
  obtain ⟨hc, hcs⟩ := List.forall_mem_cons.1 hw.isPart
  have hcapital : isUppercase c.toUpper = c.isAlpha :=
    (Name.cased (Name.recased hc).isPart_toUpper).isUppercase.trans (Name.cased hc).isUpper_toUpper
  have hnext : (cs.map Char.toLower ++ rest).head?.any isLowercase =
      (c :: cs)[1]?.any Char.isAlpha := by
    cases cs with
    | nil => exact hrest
    | cons d ds =>
      have hd := hcs d List.mem_cons_self
      exact (Name.cased (Name.recased hd).isPart_toLower).isLowercase.trans
        (Name.cased hd).isLower_toLower
  have hend : (!isUppercase (wordEnd v)) = decide (2 ≤ v.length) := by
    cases v with
    | nil => cases hletter
    | cons d ds =>
      have hd : d.isAlpha = true := hletter
      rw [isUppercase_wordEnd hv.isPart, hd]
      cases ds <;> simp
  rw [startsWord, hcapital, hnext, hend, Reopens, Bool.and_eq_true, Bool.or_eq_true,
    decide_eq_true_eq]
  rfl

/-- **Words come apart again** behind a word that begins with a letter, just when each reopens
behind the one in front of it. -/
theorem snakeAfter_words_iff {ws : List (List Char)} (hws : ∀ w ∈ ws, IsWord w) :
    ∀ {v : List Char}, IsWord v → v.head?.any Char.isAlpha = true →
      (snakeAfter (some (wordEnd v)) (ws.flatMap (capitalize true)) =
          ws.flatMap (fun w => '_' :: w.map Char.toLower) ↔ (v :: ws).IsChain Reopens) := by
  induction ws with
  | nil => exact fun {v} _ _ => iff_of_true rfl (.singleton v)
  | cons w ws ih =>
    intro v hv hletter
    obtain ⟨hw, hrest⟩ := List.forall_mem_cons.1 hws
    rw [List.isChain_cons_cons, List.flatMap_cons, List.flatMap_cons]
    cases w with
    | nil =>
      -- an empty word has an underscore that its capital cannot bring back
      refine iff_of_false (fun h => ?_) (fun h => absurd h.1.1 (by simp))
      have hcount := count_snakeAfter_words hrest (some (wordEnd v))
      have hlower : ∀ us : List (List Char), us.length ≤
          (us.flatMap fun w => '_' :: w.map Char.toLower).count '_' := by
        intro us
        induction us with
        | nil => exact Nat.le_refl 0
        | cons u us ihus =>
          rw [List.flatMap_cons, List.count_append, List.count_cons_self, List.length_cons]
          omega
      have hmore := hlower ws
      have heq := congrArg (List.count '_') h
      simp [capitalize] at heq
      omega
    | cons c cs =>
      rw [snakeAfter_word hw.isPart]
      have hopens := startsWord_iff_reopens hv hletter hw (head?_words hrest)
      by_cases hreopens : Reopens v (c :: cs)
      · rw [if_pos (hopens.2 hreopens), and_iff_right hreopens, ← ih hrest hw hreopens.1]
        simp
      · rw [if_neg (mt hopens.1 hreopens)]
        refine iff_of_false (fun h => ?_) fun h => hreopens h.1
        have hhead := congrArg List.head? h
        have hne := (hw c List.mem_cons_self).2
        have hpart := (hw c List.mem_cons_self).1
        simp [(Name.recased hpart).toLower_eq_iff, hne] at hhead

/-! ## Names between underscores -/

theorem join_cons (sep : Char) (p : List Char) (ps : List (List Char)) :
    join sep (p :: ps) = p ++ ps.flatMap (sep :: ·) := by
  induction ps generalizing p with
  | nil => simp [join]
  | cons q ps ih => rw [join, ih, List.flatMap_cons, List.cons_append]

theorem length_pieces (sep : Char) (cs : List Char) :
    (pieces sep cs).length = cs.count sep + 1 := by
  induction cs with
  | nil => rfl
  | cons c cs ih =>
    rw [pieces]
    split
    · next h => rw [List.length_cons, ih, h, List.count_cons_self]
    · next h =>
      have hne : (c == sep) = false := by simpa using h
      rw [List.count_cons, hne]
      cases hps : pieces sep cs with
      | nil => exact absurd hps (pieces_ne_nil sep cs)
      | cons p ps => rw [hps] at ih; simpa using ih

theorem isWord_of_mem_pieces {cs w : List Char} (h : ∀ c ∈ cs, isPart c = true)
    (hw : w ∈ pieces '_' cs) : IsWord w := fun c hc =>
  ⟨h c (mem_of_mem_pieces hw hc), fun he => not_mem_of_mem_pieces cs w hw (he ▸ hc)⟩

/-- The words of a name, capitalized. -/
def capitalizeWords (cs : List Char) : List Char := (pieces '_' cs).flatMap (capitalize true)

theorem toPascalCase_of_underscore {s : String} (h : '_' ∈ s.toList) :
    (toPascalCase s).toList = capitalizeWords s.toList := by
  have hempty : ∀ ws : List (List Char),
      (ws.filter fun w => !w.isEmpty).flatMap (capitalize true) = ws.flatMap (capitalize true) := by
    intro ws
    induction ws with
    | nil => rfl
    | cons w ws ih => cases w <;> simp [capitalize, ih]
  rw [toList_toPascalCase, if_pos (List.contains_iff_mem.2 h), hempty]
  rfl

variable {cs : List Char} (h : ∀ c ∈ cs, isPart c = true)

include h

theorem count_snakeAfter_capitalizeWords :
    (snakeAfter none (capitalizeWords cs)).count '_' ≤ cs.count '_' := by
  have hlength := length_pieces '_' cs
  have hwords : ∀ w ∈ pieces '_' cs, IsWord w := fun w => isWord_of_mem_pieces h
  rw [capitalizeWords]
  cases hps : pieces '_' cs with
  | nil => exact absurd hps (pieces_ne_nil '_' cs)
  | cons w ws =>
    rw [hps] at hlength hwords
    have hcount := count_snakeAfter_none_words hwords
    rw [List.length_cons] at hlength
    omega

/-- The words of an identifier come apart again just when the first one is no empty word, and each
other one reopens. -/
theorem snakeAfter_capitalizeWords_iff (hstart : cs.head?.any Name.isStart = true) :
    snakeAfter none (capitalizeWords cs) = cs.map Char.toLower ↔
      cs.head? ≠ some '_' ∧ (pieces '_' cs).IsChain Reopens := by
  have hwords : ∀ w ∈ pieces '_' cs, IsWord w := fun w => isWord_of_mem_pieces h
  have hjoin : join '_' (pieces '_' cs) = cs := join_pieces '_' cs
  rw [capitalizeWords]
  cases hps : pieces '_' cs with
  | nil => exact absurd hps (pieces_ne_nil '_' cs)
  | cons w ws =>
    rw [hps] at hwords hjoin
    obtain ⟨hw, hws⟩ := List.forall_mem_cons.1 hwords
    have hmap : cs.map Char.toLower =
        w.map Char.toLower ++ ws.flatMap fun w => '_' :: w.map Char.toLower := by
      rw [← hjoin, join_cons, List.map_append, List.map_flatMap]
      rfl
    cases w with
    | nil =>
      -- the text begins with an underscore, and its words are one fewer than those it is cut into
      obtain ⟨v, vs, rfl⟩ : ∃ v vs, ws = v :: vs := by
        cases ws with
        | nil => rw [← hjoin] at hstart; cases hstart
        | cons v vs => exact ⟨v, vs, rfl⟩
      refine iff_of_false (fun heq => ?_) fun hkept => hkept.1 (by rw [← hjoin, join_cons]; rfl)
      have hfewer := count_snakeAfter_none_words hws
      have hcount := congrArg (List.count '_') heq
      have hlength := length_pieces '_' cs
      rw [List.flatMap_cons, capitalize, List.nil_append, count_map_toLower h] at hcount
      rw [hps, List.length_cons, List.length_cons] at hlength
      omega
    | cons c word =>
      have hhead : cs.head? = some c := by rw [← hjoin, join_cons]; rfl
      have hne : c ≠ '_' := (hw c List.mem_cons_self).2
      have hletter : c.isAlpha = true := by
        rw [hhead, Option.any_some, Name.isStart, Bool.or_eq_true, beq_iff_eq] at hstart
        exact hstart.resolve_right hne
      rw [hmap, List.flatMap_cons, snakeAfter_word hw.isPart, startsWord, Bool.and_false,
        ← snakeAfter_words_iff hws hw hletter, hhead]
      simp [hne]

omit h

/-! ## Words of an identifier -/

theorem upperText_eq_iff (h : ∀ c ∈ cs, isPart c = true) :
    upperText cs = cs ↔ cs.any Char.isLower = false := by
  induction cs with
  | nil => exact iff_of_true rfl rfl
  | cons c cs ih =>
    obtain ⟨hc, hcs⟩ := List.forall_mem_cons.1 h
    rw [upperText, List.flatMap_cons, (Name.recased hc).upperOf, List.any_cons,
      Bool.or_eq_false_iff, ← ih hcs, ← (Name.cased hc).toUpper_eq_iff]
    exact List.cons_eq_cons

theorem toPascalCase_of_not_underscore {s : String} (h : ∀ c ∈ s.toList, isPart c = true)
    (hnone : '_' ∉ s.toList) :
    (toPascalCase s).toList = capitalize (!s.toList.any Char.isLower) s.toList := by
  have hupper : (s.toList == upperText s.toList) = !s.toList.any Char.isLower := by
    rw [Bool.eq_iff_iff, beq_iff_eq, eq_comm, upperText_eq_iff h, Bool.not_eq_true']
  rw [toList_toPascalCase, if_neg (mt List.contains_iff_mem.1 hnone), hupper]

/-- The words that snake case takes a name for are still told from each other in Pascal case. Where
the name has underscores, only they set words apart, and each word shows by its capital. A name of
capitals alone is one word. Any other name is kept but for its first letter, and a small one does
not set the next character apart by becoming a capital. -/
def KeepsWords (cs : List Char) : Prop :=
  if '_' ∈ cs then Unbroken cs ∧ cs.head? ≠ some '_' ∧ (pieces '_' cs).IsChain Reopens
  else if cs.any Char.isLower then
    cs.head?.any Char.isLower = true → cs[1]?.any Char.isUpper = true →
      cs[2]?.any Char.isLower = true
  else Unbroken cs

instance (cs : List Char) : Decidable (KeepsWords cs) :=
  inferInstanceAs (Decidable (ite ..))

example : KeepsWords "LineItem".toList ∧ KeepsWords "line_item".toList ∧
    KeepsWords "HTTP".toList ∧ KeepsWords "HTTPServer".toList := by decide

example : ¬KeepsWords "Track_1".toList ∧ ¬KeepsWords "a_b".toList ∧
    ¬KeepsWords "LineItem_Unit".toList ∧ ¬KeepsWords "aB".toList := by decide

/-- A first character that becomes a capital takes the one behind it for a run of capitals. -/
theorem snakeAfter_toUpper_iff {c : Char} (h : ∀ d ∈ c :: cs, isPart d = true) :
    snakeAfter (some c.toUpper) cs = snakeAfter (some c) cs ↔
      (c.isLower = true → cs.head?.any Char.isUpper = true → cs[1]?.any Char.isLower = true) := by
  obtain ⟨hc, hcs⟩ := List.forall_mem_cons.1 h
  cases hsmall : c.isLower with
  | false => rw [(Name.cased hc).toUpper_eq_iff.2 hsmall]; simp
  | true =>
    cases cs with
    | nil => exact iff_of_true rfl fun _ => nofun
    | cons d ds =>
      have hletter : c.isAlpha = true := Bool.or_eq_true_iff.2 (.inr hsmall)
      rw [snakeAfter_some_cons (Name.recased hc).isPart_toUpper hcs, snakeAfter_some_cons hc hcs,
        opensWord, opensWord, (Name.cased hc).isUpper_toUpper, hletter,
        (Name.cased hc).isUpper_of_isLower hsmall]
      have hnext : (d :: ds)[1]? = ds.head? := List.head?_eq_getElem?.symm
      rw [hnext, List.head?_cons, Option.any_some]
      cases d.isUpper <;> cases ds.head?.any Char.isLower <;> simp

end Text

open Text in
/-- **Two casings.** Pascal case in between changes nothing about the snake case of an identifier
just when the words of the identifier are kept. -/
theorem Name.toSnakeCase_toPascalCase_iff {s : String} (h : isIdentifier s = true) :
    toSnakeCase (toPascalCase s) = toSnakeCase s ↔ KeepsWords s.toList := by
  have hparts := isPart_of_isIdentifier h
  have hstart := (identifierChars_iff hparts).1 h
  rw [toSnakeCase, toSnakeCase, String.ofList_inj, KeepsWords]
  by_cases hunderscore : '_' ∈ s.toList
  · -- the capitals bring back at most the underscores of `s`, and snake case keeps at least those
    rw [if_pos hunderscore, toPascalCase_of_underscore hunderscore,
      ← snakeAfter_none_eq_iff hparts, ← snakeAfter_capitalizeWords_iff hparts hstart]
    constructor
    · intro heq
      have hsmall : snakeAfter none s.toList = s.toList.map Char.toLower := by
        refine (snakeAfter_eq_or_count_lt hparts none).resolve_right fun hmore => ?_
        have hfewer := count_snakeAfter_capitalizeWords hparts
        rw [heq] at hfewer
        omega
      exact ⟨hsmall, heq.trans hsmall⟩
    · rintro ⟨hsmall, heq⟩
      exact heq.trans hsmall.symm
  · rw [if_neg hunderscore, toPascalCase_of_not_underscore hparts hunderscore]
    cases hs : s.toList with
    | nil => rw [hs] at hstart; cases hstart
    | cons c cs =>
      rw [hs] at hparts
      have hc := hparts c List.mem_cons_self
      cases (c :: cs).any Char.isLower with
      | false =>
        -- one word, which the capital in front shows well enough
        have hword := snakeAfter_word hparts none []
        rw [List.append_nil, startsWord, Bool.and_false, snakeAfter, List.append_nil] at hword
        exact Eq.congr_left hword |>.trans (eq_comm.trans (snakeAfter_none_eq_iff hparts))
      | true =>
        rw [capitalize_cons hparts, Bool.not_true, if_neg Bool.false_ne_true, if_pos rfl,
          snakeAfter_none_cons (recased hc).isPart_toUpper, snakeAfter_none_cons hc,
          (cased hc).toLower_toUpper, List.cons_inj_right, snakeAfter_toUpper_iff hparts,
          List.head?_eq_getElem?]
        rfl

end WireSchema

import WireSchema.Proofs.Writable

/-!
# Fragments of a line

The text of a line, as a grammar: brackets come in pairs, quotes around quoted text, and everything
else is plain characters. Identifiers inside literals are the author's own, so the grammar takes as a
parameter what may stand there.

* `Literal.fragment_render`: a literal is a fragment around its identifiers, by induction over lists
  and aggregates.
* `OptionEntry.fragment_text`: so is an assignment to an option name.
-/

namespace WireSchema

namespace Text

/-- Decided along the list: an instance that goes through all characters would otherwise apply. -/
instance (priority := high) decidableForallMem (cs : List Char) (p : Char → Prop)
    [DecidablePred p] : Decidable (∀ c ∈ cs, p c) :=
  List.decidableBAll p cs

/-- The characters that mean something to a reader of lines: the newline, the quote, and brackets. -/
def marks : List Char := ['\n', '"', '(', ')', '[', ']', '\x7b', '\x7d']

def isPlain (c : Char) : Bool := !marks.contains c

/-- A class of characters without marks is plain. -/
theorem isPlain_of {p : Char → Bool} (hp : ∀ c ∈ marks, p c = false) {c : Char}
    (h : p c = true) : isPlain c = true := by
  rw [isPlain, Bool.not_eq_true', ← Bool.not_eq_true, List.contains_iff_mem]
  intro hc
  rw [hp c hc] at h
  cases h

/-- Text in which brackets are paired outside of quotes, where `Bare` is what the author may have
written without quotes. -/
inductive Fragment (Bare : String → Prop) : String → Prop where
  | plain {s : String} (h : ∀ c ∈ s.toList, isPlain c = true) : Fragment Bare s
  | bare {s : String} (h : Bare s) : Fragment Bare s
  | quoted (s : String) : Fragment Bare (quote s)
  | quotedBytes (bs : List UInt8) : Fragment Bare (quoteBytes bs)
  | append {s t : String} (hs : Fragment Bare s) (ht : Fragment Bare t) : Fragment Bare (s ++ t)
  | parens {s : String} (h : Fragment Bare s) : Fragment Bare ("(" ++ s ++ ")")
  | squares {s : String} (h : Fragment Bare s) : Fragment Bare ("[" ++ s ++ "]")
  | braces {s : String} (h : Fragment Bare s) : Fragment Bare ("\x7b" ++ s ++ "\x7d")

namespace Fragment

variable {Bare : String → Prop}

theorem intercalate {sep : String} (hsep : Fragment Bare sep) {l : List String}
    (h : ∀ s ∈ l, Fragment Bare s) : Fragment Bare (sep.intercalate l) := by
  induction l with
  | nil => exact .plain nofun
  | cons s l ih =>
    obtain ⟨hs, hl⟩ := List.forall_mem_cons.1 h
    cases l with
    | nil => rwa [String.intercalate_singleton]
    | cons t l =>
      rw [String.intercalate_cons_cons]
      exact (hs.append hsep).append (ih hl)

end Fragment

/-- Behind the first of several lists, each of the others has the separator in front. -/
theorem intercalate_cons {α : Type} (sep a : List α) (as : List (List α)) :
    sep.intercalate (a :: as) = a ++ as.flatMap (sep ++ ·) := by
  induction as generalizing a with
  | nil => simp
  | cons b as ih =>
    rw [List.intercalate_cons_cons, ih, List.flatMap_cons, List.append_assoc, List.append_assoc]

/-- A front that has a property throughout ends where the list goes on without it. -/
theorem takeWhile_dropWhile_append {α : Type} {p : α → Bool} {as rest : List α}
    (has : ∀ a ∈ as, p a = true) (hrest : ∀ a ∈ rest.head?, p a = false) :
    (as ++ rest).takeWhile p = as ∧ (as ++ rest).dropWhile p = rest := by
  rw [List.takeWhile_append_of_pos has, List.dropWhile_append_of_pos has]
  cases rest with
  | nil => exact ⟨List.append_nil as, rfl⟩
  | cons a rest =>
    have ha : ¬p a = true := Bool.eq_false_iff.1 (hrest a rfl)
    rw [List.takeWhile_cons_of_neg ha, List.dropWhile_cons_of_neg ha, List.append_nil]
    exact ⟨rfl, rfl⟩

/-- A character is the separator or stands in one of the pieces. -/
theorem mem_pieces_of_mem {sep c : Char} {cs : List Char} (h : c ∈ cs) :
    c = sep ∨ ∃ p ∈ pieces sep cs, c ∈ p := by
  induction cs with
  | nil => cases h
  | cons d ds ih =>
    unfold pieces
    split
    · next hd =>
      rcases List.mem_cons.1 h with rfl | h
      · exact .inl hd
      · refine (ih h).imp_right fun hpiece => ?_
        obtain ⟨p, hp, hc⟩ := hpiece
        exact ⟨p, List.mem_cons_of_mem _ hp, hc⟩
    · cases hps : pieces sep ds with
      | nil => exact absurd hps (pieces_ne_nil sep ds)
      | cons p ps =>
        rcases List.mem_cons.1 h with rfl | h
        · exact .inr ⟨c :: p, List.mem_cons_self, List.mem_cons_self⟩
        · rw [hps] at ih
          refine (ih h).imp_right ?_
          rintro ⟨q, hq, hc⟩
          rcases List.mem_cons.1 hq with rfl | hq
          · exact ⟨d :: q, List.mem_cons_self, List.mem_cons_of_mem _ hc⟩
          · exact ⟨q, List.mem_cons_of_mem _ hq, hc⟩

end Text

/-! ## Names -/

section Names

variable {Bare : String → Prop}

namespace Name

theorem isPlain_of_isPart {c : Char} (h : isPart c = true) : Text.isPlain c = true :=
  Text.isPlain_of (by decide) h

theorem isPart_of_isStart {c : Char} (h : isStart c = true) : isPart c = true := by
  simp only [isStart, isPart, Char.isAlphanum, Bool.or_eq_true] at h ⊢
  tauto

theorem isPart_of_isIdentifier {s : String} (h : isIdentifier s = true) :
    ∀ c ∈ s.toList, isPart c = true := by
  unfold isIdentifier at h
  cases hs : s.toList with
  | nil => exact nofun
  | cons d ds =>
    rw [hs, identifierChars, Bool.and_eq_true, List.all_eq_true] at h
    exact List.forall_mem_cons.2 ⟨isPart_of_isStart h.1, h.2⟩

/-- A character that is no part of an identifier is none of its characters. -/
theorem not_mem_of_isIdentifier {s : String} {c : Char} (h : isIdentifier s = true)
    (hc : isPart c = false) : c ∉ s.toList := fun hmem => by
  rw [isPart_of_isIdentifier h c hmem] at hc
  cases hc

/-- The characters of a dotted name. -/
theorem isPart_of_dottedChars (cs : List Char) :
    (dottedChars cs = true → ∀ c ∈ cs, (isPart c || c == '.') = true) ∧
      (dottedRest cs = true → ∀ c ∈ cs, (isPart c || c == '.') = true) := by
  induction cs with
  | nil => exact ⟨nofun, fun _ => nofun⟩
  | cons c cs ih =>
    obtain ⟨hdotted, hrest⟩ := ih
    constructor
    · intro h
      rw [dottedChars, Bool.and_eq_true] at h
      exact List.forall_mem_cons.2 ⟨by rw [isPart_of_isStart h.1]; rfl, hrest h.2⟩
    · intro h
      rw [dottedRest] at h
      split at h
      · next hdot => exact List.forall_mem_cons.2 ⟨by rw [hdot, Bool.or_true], hdotted h⟩
      · rw [Bool.and_eq_true] at h
        exact List.forall_mem_cons.2 ⟨by rw [h.1]; rfl, hrest h.2⟩

/-- The characters of an extension between its parentheses. -/
theorem isPart_of_extensionChars {cs : List Char} (h : extensionChars cs = true) :
    ∀ c ∈ cs, (isPart c || c == '.') = true := by
  cases cs with
  | nil => exact nofun
  | cons d ds =>
    rw [extensionChars, Bool.and_eq_true, List.all_eq_true] at h
    exact List.forall_mem_cons.2 ⟨by rw [isPart_of_isStart h.1]; rfl, h.2⟩

theorem isPart_of_optionTail {cs : List Char} (h : optionTail cs = true) :
    ∀ c ∈ cs, (isPart c || c == '.') = true := by
  cases cs with
  | nil => exact nofun
  | cons d ds =>
    rw [optionTail, Bool.and_eq_true, beq_iff_eq] at h
    exact List.forall_mem_cons.2 ⟨by rw [h.1]; rfl, (isPart_of_dottedChars ds).1 h.2⟩

theorem isPlain_of_dotted {c : Char} (h : (isPart c || c == '.') = true) : Text.isPlain c = true :=
  Text.isPlain_of (p := fun c => isPart c || c == '.') (by decide) h

theorem fragment_of_isIdentifier {s : String} (h : isIdentifier s = true) :
    Text.Fragment Bare s := .plain fun c hc => isPlain_of_isPart (isPart_of_isIdentifier h c hc)

theorem fragment_of_isDotted {s : String} (h : isDotted s = true) : Text.Fragment Bare s :=
  .plain fun c hc => isPlain_of_dotted ((isPart_of_dottedChars _).1 h c hc)

/-- An option name is a dotted name, or an extension in parentheses with a dotted tail. -/
theorem optionName_cases {s : String} (h : isOptionName s = true) : isDotted s = true ∨
    ∃ extension tail, s = "(" ++ extension ++ ")" ++ tail ∧
      extensionChars extension.toList = true ∧ optionTail tail.toList = true := by
  unfold isOptionName optionChars at h
  split at h
  · next cs hcs =>
    split at h
    · cases h
    · next c tail hdrop =>
      rw [Bool.and_eq_true] at h
      obtain rfl : c = ')' := by
        have hfirst := List.head_dropWhile_not (· != ')') (l := cs) (by rw [hdrop]; simp)
        simpa [hdrop] using hfirst
      have hsplit : cs.takeWhile (· != ')') ++ ')' :: tail = cs := by
        rw [← hdrop, List.takeWhile_append_dropWhile]
      refine .inr ⟨String.ofList (cs.takeWhile (· != ')')), String.ofList tail, ?_, ?_, ?_⟩
      · rw [← String.toList_inj]
        simp [hcs, hsplit]
      · rw [String.toList_ofList]; exact h.1
      · rw [String.toList_ofList]; exact h.2
  · exact .inl h

theorem fragment_of_isOptionName {s : String} (h : isOptionName s = true) :
    Text.Fragment Bare s := by
  rcases optionName_cases h with hs | ⟨extension, tail, rfl, hext, htail⟩
  · exact fragment_of_isDotted hs
  · exact .append (.parens (.plain fun c hc => isPlain_of_dotted (isPart_of_extensionChars hext c hc)))
      (.plain fun c hc => isPlain_of_dotted (isPart_of_optionTail htail c hc))

/-- The name of an option has parts of identifiers, dots and parentheses in it, and nothing else. -/
theorem not_mem_of_isOptionName {s : String} {c : Char} (h : isOptionName s = true)
    (hc : (isPart c || c == '.' || c == '(' || c == ')') = false) : c ∉ s.toList := by
  simp only [Bool.or_eq_false_iff] at hc
  obtain ⟨⟨⟨hpart, hdot⟩, hopen⟩, hclose⟩ := hc
  have hdotted : ∀ {cs : List Char}, (∀ c ∈ cs, (isPart c || c == '.') = true) → c ∉ cs := by
    intro cs hcs hmem
    have hc := hcs c hmem
    rw [hpart, hdot] at hc
    cases hc
  rcases optionName_cases h with hs | ⟨extension, tail, rfl, hext, htail⟩
  · exact hdotted ((isPart_of_dottedChars _).1 hs)
  · have hparens : c ≠ '(' ∧ c ≠ ')' := ⟨by simpa using hopen, by simpa using hclose⟩
    simpa [hparens] using
      ⟨hdotted (isPart_of_extensionChars hext), hdotted (isPart_of_optionTail htail)⟩

/-- The characters of a path of a file: those of its segments, slashes and the ending. -/
theorem fragment_of_isProtoPath {s : String} (h : isProtoPath s = true) : Text.Fragment Bare s := by
  have hstem : ∀ {stem : List Char}, (Text.pieces '/' stem).all pathSegment = true →
      ∀ c ∈ stem, Text.isPlain c = true := by
    intro stem hstem c hc
    have hpiece : c = '/' ∨ ∃ p ∈ Text.pieces '/' stem, c ∈ p := Text.mem_pieces_of_mem hc
    rcases hpiece with rfl | ⟨p, hp, hc⟩
    · decide
    · have hp := List.all_eq_true.1 hstem p hp
      rw [pathSegment, Bool.and_eq_true] at hp
      exact Text.isPlain_of (p := isPathChar) (by decide) (List.all_eq_true.1 hp.2 c hc)
  refine .plain fun c hc => ?_
  unfold isProtoPath pathChars dropEnding? at h
  split at h
  · next stem hdrop =>
    split at hdrop
    · next hsuffix =>
      cases hdrop
      obtain ⟨stem, hs⟩ := List.isSuffixOf_iff_suffix.1 hsuffix
      rw [← hs, List.length_append, Nat.add_sub_cancel, List.take_left' rfl] at h
      rw [← hs] at hc
      rcases List.mem_append.1 hc with hc | hc
      · exact hstem h c hc
      · exact (show ∀ c ∈ ".proto".toList, Text.isPlain c = true by decide) c hc
    · cases hdrop
  · cases h

end Name

/-! ## Numbers -/

namespace Text

theorem isPlain_of_isDigit {c : Char} (h : c.isDigit = true) : isPlain c = true :=
  isPlain_of (p := Char.isDigit) (by decide) h

theorem isDigit_of_mem_toString {n : Nat} {c : Char} (h : c ∈ (toString n).toList) :
    c.isDigit = true := by
  rw [show toString n = n.repr from rfl, Nat.toList_repr] at h
  exact Nat.isDigit_of_mem_toDigits (by decide) (by decide) h

theorem fragment_nat (n : Nat) : Fragment Bare (toString n) :=
  .plain fun _ hc => isPlain_of_isDigit (isDigit_of_mem_toString hc)

/-- A number is written as digits, with a sign in front if it is negative. -/
theorem toString_int (i : Int) :
    toString i = toString i.natAbs ∨ toString i = "-" ++ toString i.natAbs := by
  cases i with
  | ofNat n => exact .inl rfl
  | negSucc n => exact .inr rfl

theorem isPlain_int (i : Int) : ∀ c ∈ (toString i).toList, isPlain c = true := by
  have hdigits : ∀ c ∈ (toString i.natAbs).toList, isPlain c = true := fun c hc =>
    isPlain_of_isDigit (isDigit_of_mem_toString hc)
  rcases toString_int i with h | h <;> rw [h]
  · exact hdigits
  · rw [String.toList_append]
    exact List.forall_mem_append.2 ⟨by decide, hdigits⟩

theorem fragment_int (i : Int) : Fragment Bare (toString i) := .plain (isPlain_int i)

end Text

/-- A decimal has digits and a point. -/
theorem Decimal.isPlain_positional {keepFraction : Bool} {d : Decimal} {c : Char}
    (h : c ∈ (d.positional keepFraction).toList) : Text.isPlain c = true := by
  have hdigits : ∀ c ∈ d.digitChars, Text.isPlain c = true := fun c hc =>
    Text.isPlain_of_isDigit (Text.isDigit_of_mem_toString hc)
  have hzeros : ∀ n, ∀ c ∈ zeros n, Text.isPlain c = true := fun n c hc => by
    rw [List.eq_of_mem_replicate hc]; decide
  unfold positional at h
  dsimp only at h
  split at h
  · rw [String.toList_ofList, List.mem_append, List.mem_append] at h
    rcases h with (h | h) | h
    · exact hdigits c h
    · exact hzeros _ c h
    · split at h
      · exact (show ∀ c ∈ ['.', '0'], Text.isPlain c = true by decide) c h
      · cases h
  · split at h
    · rw [String.toList_ofList, List.mem_append] at h
      rcases h with h | h
      · exact hdigits c (List.mem_of_mem_take h)
      · rcases List.mem_cons.1 h with rfl | h
        · decide
        · exact hdigits c (List.mem_of_mem_drop h)
    · rw [String.toList_ofList, List.mem_append] at h
      rcases h with h | h
      · rcases List.mem_cons.1 h with rfl | h
        · decide
        · rcases List.mem_cons.1 h with rfl | h
          · decide
          · exact hzeros _ c h
      · exact hdigits c h

theorem Literal.fragment_float (x : Binary64) : Text.Fragment Bare (renderFloat x) := by
  have hsign : ∀ {s}, Text.Fragment Bare s → Text.Fragment Bare (x.withSign s) := by
    intro s hs
    unfold Binary64.withSign
    split
    · exact .append (.plain (by decide)) hs
    · exact hs
  unfold renderFloat
  split
  · exact .plain (by decide)
  · split
    · exact hsign (.plain (by decide))
    · exact hsign (.plain fun c hc => Decimal.isPlain_positional hc)

end Names

/-! ## Literals -/

namespace Literal

mutual

/-- The names that a literal writes without quotes: identifiers, and the fields of aggregates, at any
depth. -/
def names : Literal → List String
  | .ident name => [name]
  | .list items => namesOfItems items
  | .message fields => namesOfFields fields
  | _ => []

def namesOfItems : List Literal → List String
  | [] => []
  | v :: vs => names v ++ namesOfItems vs

def namesOfFields : List (String × Literal) → List String
  | [] => []
  | (name, v) :: fields => name :: names v ++ namesOfFields fields

end

variable {Bare : String → Prop}

mutual

/-- **A literal is a fragment** around the names that it writes without quotes. -/
theorem fragment_render : ∀ v : Literal, (∀ n ∈ v.names, Bare n) → Text.Fragment Bare v.render
  | .bool true, _ => .plain (by decide)
  | .bool false, _ => .plain (by decide)
  | .int i, _ => Text.fragment_int i
  | .uint n, _ => Text.fragment_nat n
  | .float x, _ => fragment_float x
  | .string s, _ => .quoted s
  | .bytes bs, _ => .quotedBytes bs
  | .ident name, h => .bare (h name (List.mem_singleton.2 rfl))
  | .list items, h =>
    .squares (.intercalate (.plain (by decide)) (fragment_items items h))
  | .message fields, h =>
    .braces (.intercalate (.plain (by decide)) (fragment_fields fields h))

theorem fragment_items : ∀ vs : List Literal, (∀ n ∈ namesOfItems vs, Bare n) →
    ∀ s ∈ itemTexts renderFloat vs, Text.Fragment Bare s
  | [], _ => nofun
  | v :: vs, h => by
    obtain ⟨hv, hvs⟩ := List.forall_mem_append.1 h
    exact List.forall_mem_cons.2 ⟨fragment_render v hv, fragment_items vs hvs⟩

theorem fragment_fields : ∀ fs : List (String × Literal), (∀ n ∈ namesOfFields fs, Bare n) →
    ∀ s ∈ fieldTexts renderFloat fs, Text.Fragment Bare s
  | [], _ => nofun
  | (name, v) :: fs, h => by
    obtain ⟨hfield, hfs⟩ := List.forall_mem_append.1 h
    obtain ⟨hname, hv⟩ := List.forall_mem_cons.1 hfield
    have hone : Text.Fragment Bare (name ++ ": " ++ v.render) :=
      .append (.append (.bare hname) (.plain (by decide))) (fragment_render v hv)
    exact List.forall_mem_cons.2 ⟨hone, fragment_fields fs hfs⟩

end

end Literal

/-- An assignment to an option name is a fragment around the names in its value. -/
theorem OptionEntry.fragment_text {Bare : String → Prop} {e : OptionEntry}
    (hname : Name.isOptionName e.name = true) (hvalue : ∀ n ∈ e.value.names, Bare n) :
    Text.Fragment Bare e.text :=
  .append (.append (Name.fragment_of_isOptionName hname) (.plain (by decide)))
    (Literal.fragment_render e.value hvalue)

end WireSchema

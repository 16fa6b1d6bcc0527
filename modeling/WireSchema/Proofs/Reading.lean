import WireSchema.Proofs.Fragment
import WireSchema.Proofs.Quoted

/-!
# Reading literals

A literal says where it ends: a number at the first character that is no digit, everything else at a
mark of its own. So the text of a literal without identifiers and floats gives it back, up to what is
written alike.

* `Text.append_cut`: a list splits in one way into a front of one kind and a rest that begins with
  another.
* `Text.ReadsBack`, `Text.readsBack_delimited`: what is read back wherever it stands, and so are lists
  of it.
* `Literal.canonical`, `Literal.render_canonical`: one literal for all that are written alike.
* `Literal.readsBack`: the text of a literal gives its canonical form, by induction over lists and
  aggregates.
-/

namespace WireSchema

namespace Text

/-! ## Cuts -/

variable {α β : Type}

/-- Two ways to split a list into a front that has a property throughout and a rest that begins
without it are the same. -/
theorem append_cut {P : α → Prop} {as bs r s : List α} (has : ∀ a ∈ as, P a) (hbs : ∀ b ∈ bs, P b)
    (hr : ∀ x ∈ r.head?, ¬P x) (hs : ∀ x ∈ s.head?, ¬P x) (h : as ++ r = bs ++ s) :
    as = bs ∧ r = s := by
  induction as generalizing bs with
  | nil =>
    cases bs with
    | nil => exact ⟨rfl, h⟩
    | cons b bs => exact absurd (hbs b List.mem_cons_self) (hr b (by rw [← List.nil_append r, h]; rfl))
  | cons a as ih =>
    cases bs with
    | nil => exact absurd (has a List.mem_cons_self) (hs a (by rw [← List.nil_append s, ← h]; rfl))
    | cons b bs =>
      obtain ⟨rfl, htail⟩ := List.cons.inj h
      obtain ⟨rfl, hrest⟩ := ih (List.forall_mem_cons.1 has).2 (List.forall_mem_cons.1 hbs).2 htail
      exact ⟨rfl, hrest⟩

/-- A cut at the first of several separators. -/
theorem cut_at {sep : α} {as bs r s : List α} (has : sep ∉ as) (hbs : sep ∉ bs)
    (h : as ++ sep :: r = bs ++ sep :: s) : as = bs ∧ r = s := by
  have hne : ∀ {l : List α}, sep ∉ l → ∀ x ∈ l, x ≠ sep := fun hl x hx he => hl (he ▸ hx)
  have hsep : ∀ {l : List α}, ∀ x ∈ (sep :: l).head?, ¬x ≠ sep := by
    rintro l x ⟨⟩
    exact not_not_intro rfl
  obtain ⟨hfront, hrest⟩ := append_cut (hne has) (hne hbs) hsep hsep h
  exact ⟨hfront, (List.cons.inj hrest).2⟩

/-- A cut at the last of several separators. -/
theorem cut_at_last {sep : α} {as bs r s : List α} (hr : sep ∉ r) (hs : sep ∉ s)
    (h : as ++ sep :: r = bs ++ sep :: s) : as = bs ∧ r = s := by
  have hreverse := congrArg List.reverse h
  rw [List.reverse_append, List.reverse_append, List.reverse_cons, List.reverse_cons,
    List.append_assoc, List.append_assoc] at hreverse
  obtain ⟨hrest, hfront⟩ := cut_at (by simpa using hr) (by simpa using hs) hreverse
  exact ⟨List.reverse_inj.1 hfront, List.reverse_inj.1 hrest⟩

/-! ## Reading back -/

/-- What is written for `a` is read back up to `key`: where it begins the same text as what is
written for something else in the domain, and something else goes on in both that stops it, the keys
agree, and so does what goes on. -/
def ReadsBack (stops : Char → Bool) (write : α → List Char) (key : α → β) (domain : α → Prop)
    (a : α) : Prop :=
  ∀ b, domain b → ∀ r s : List Char, (∀ c ∈ r.head?, stops c = true) →
    (∀ c ∈ s.head?, stops c = true) → write a ++ r = write b ++ s → key a = key b ∧ r = s

section Delimited

variable {stops : Char → Bool} {write : α → List Char} {key : α → β} {domain : α → Prop}
  {close : Char}

/-- Behind the first of a list, each of the others has a comma in front. -/
theorem readsBack_behind (hcomma : stops ',' = true) (hclose : stops close = true)
    (hne : close ≠ ',') {as bs : List α}
    (has : ∀ a ∈ as, ReadsBack stops write key domain a) (hbs : ∀ b ∈ bs, domain b)
    {r s : List Char}
    (h : (as.map write).flatMap ([',', ' '] ++ ·) ++ close :: r =
      (bs.map write).flatMap ([',', ' '] ++ ·) ++ close :: s) :
    as.map key = bs.map key ∧ r = s := by
  have hstops : ∀ (l : List (List Char)) (r : List Char),
      ∀ c ∈ (l.flatMap ([',', ' '] ++ ·) ++ close :: r).head?, stops c = true := by
    intro l r c hc
    cases l with
    | nil => cases hc; exact hclose
    | cons p l => cases hc; exact hcomma
  induction as generalizing bs with
  | nil =>
    cases bs with
    | nil => exact ⟨rfl, (List.cons.inj h).2⟩
    | cons b bs => exact absurd (List.cons.inj h).1 hne
  | cons a as ih =>
    cases bs with
    | nil => exact absurd (List.cons.inj h).1.symm hne
    | cons b bs =>
      obtain ⟨ha, has⟩ := List.forall_mem_cons.1 has
      obtain ⟨hb, hbs⟩ := List.forall_mem_cons.1 hbs
      rw [List.map_cons, List.flatMap_cons, List.map_cons, List.flatMap_cons, List.append_assoc,
        List.append_assoc, List.append_assoc, List.append_assoc] at h
      obtain ⟨hkey, hrest⟩ :=
        ha b hb _ _ (hstops _ _) (hstops _ _) (List.append_cancel_left h)
      obtain ⟨hkeys, hr⟩ := ih has hbs hrest
      exact ⟨by rw [List.map_cons, hkey, hkeys, List.map_cons], hr⟩

/-- **A list of what is read back is read back**, written with commas in between and up to a closing
character that nothing in it begins with. -/
theorem readsBack_delimited (hcomma : stops ',' = true) (hclose : stops close = true)
    (hne : close ≠ ',') (hopen : ∀ a, domain a → ∀ r, (write a ++ r).head? ≠ some close)
    {as bs : List α} (has : ∀ a ∈ as, domain a)
    (hreads : ∀ a ∈ as, ReadsBack stops write key domain a) (hbs : ∀ b ∈ bs, domain b)
    {r s : List Char}
    (h : [',', ' '].intercalate (as.map write) ++ close :: r =
      [',', ' '].intercalate (bs.map write) ++ close :: s) :
    as.map key = bs.map key ∧ r = s := by
  -- The first of a list stands without a comma, so it is read by itself.
  have hfirst : ∀ {a : α} {as : List α} {r : List Char}, [',', ' '].intercalate
      ((a :: as).map write) ++ close :: r =
        write a ++ ((as.map write).flatMap ([',', ' '] ++ ·) ++ close :: r) := by
    intro a as r
    rw [List.map_cons, intercalate_cons, List.append_assoc]
  cases as with
  | nil =>
    cases bs with
    | nil => exact ⟨rfl, (List.cons.inj h).2⟩
    | cons b bs =>
      rw [hfirst] at h
      exact absurd (congrArg List.head? h).symm (hopen b (hbs b List.mem_cons_self) _)
  | cons a as =>
    obtain ⟨ha, has⟩ := List.forall_mem_cons.1 has
    cases bs with
    | nil =>
      rw [hfirst] at h
      exact absurd (congrArg List.head? h) (hopen a ha _)
    | cons b bs =>
      rw [hfirst, hfirst] at h
      have hbehind : ((a :: as).map write).flatMap ([',', ' '] ++ ·) ++ close :: r =
          ((b :: bs).map write).flatMap ([',', ' '] ++ ·) ++ close :: s := by
        rw [List.map_cons, List.flatMap_cons, List.map_cons, List.flatMap_cons, List.append_assoc,
          List.append_assoc, List.append_assoc, List.append_assoc, h]
      exact readsBack_behind hcomma hclose hne hreads hbs hbehind

end Delimited

/-! ## Numbers -/

/-- A number ends at the first character that is no digit. -/
def endsNumber (c : Char) : Bool := !c.isDigit

theorem not_isDigit_of_endsNumber {r : List Char} (h : ∀ c ∈ r.head?, endsNumber c = true) :
    ∀ c ∈ r.head?, ¬c.isDigit = true := fun c hc hdigit => by
  have hends := h c hc
  rw [endsNumber, hdigit] at hends
  cases hends

theorem exists_digit (n : Nat) : ∃ c cs, (toString n).toList = c :: cs ∧ c.isDigit = true := by
  have hdigits := Nat.toList_repr (n := n)
  cases hcs : (toString n).toList with
  | nil => exact absurd (hdigits.symm.trans hcs) Nat.toDigits_ne_nil
  | cons c cs => exact ⟨c, cs, rfl, isDigit_of_mem_toString (hcs ▸ List.mem_cons_self)⟩

theorem nat_of_digits {m n : Nat} (h : (toString m).toList = (toString n).toList) : m = n := by
  have hdigits : Nat.toDigits 10 m = Nat.toDigits 10 n :=
    Nat.toList_repr.symm.trans (h.trans Nat.toList_repr)
  rw [← Nat.ofDigitChars_toDigits (b := 10) (n := m) (by decide) (by decide), hdigits,
    Nat.ofDigitChars_toDigits (by decide) (by decide)]

theorem readsBack_nat (m : Nat) :
    ReadsBack endsNumber (fun n : Nat => (toString n).toList) id (fun _ => True) m := by
  intro n _ r s hr hs h
  obtain ⟨hdigits, hrest⟩ := append_cut (P := fun c => c.isDigit = true)
    (fun _ hc => isDigit_of_mem_toString hc) (fun _ hc => isDigit_of_mem_toString hc)
    (not_isDigit_of_endsNumber hr) (not_isDigit_of_endsNumber hs) h
  exact ⟨nat_of_digits hdigits, hrest⟩

theorem readsBack_int (i : Int) :
    ReadsBack endsNumber (fun i : Int => (toString i).toList) id (fun _ => True) i := by
  have hminus : ∀ (n : Nat) (r s : List Char), (toString n).toList ++ r ≠ '-' :: s := by
    intro n r s h
    obtain ⟨c, cs, hn, hc⟩ := exists_digit n
    rw [hn] at h
    rw [(List.cons.inj h).1] at hc
    cases hc
  have hneg : ∀ n : Nat, (toString (Int.negSucc n)).toList = '-' :: (toString (n + 1)).toList :=
    fun n => String.toList_append
  intro j _ r s hr hs h
  cases i with
  | ofNat m =>
    cases j with
    | ofNat n =>
      obtain ⟨hmn, hrest⟩ := readsBack_nat m n trivial r s hr hs h
      exact ⟨congrArg Int.ofNat hmn, hrest⟩
    | negSucc n =>
      dsimp only at h
      rw [hneg] at h
      exact absurd h (hminus m r _)
  | negSucc m =>
    dsimp only at h
    rw [hneg] at h
    cases j with
    | ofNat n => exact absurd h.symm (hminus n s _)
    | negSucc n =>
      rw [hneg] at h
      obtain ⟨hmn, hrest⟩ := readsBack_nat (m + 1) (n + 1) trivial r s hr hs (List.cons.inj h).2
      exact ⟨congrArg Int.negSucc (Nat.succ.inj hmn), hrest⟩

/-- A quoted text ends at its second quote, whatever stands behind it. -/
theorem readsBack_quote (s : String) :
    ReadsBack (fun _ => true) (fun s => (quote s).toList) id (fun _ => True) s := by
  intro t _ r r' _ _ h
  exact quote_append_injective h

end Text

/-! ## Literals that are written alike -/

namespace Literal

/-- A printable character of ASCII, as a byte. -/
def isPrintable (b : UInt8) : Bool := 0x20 ≤ b && b ≤ 0x7e

mutual

/-- One literal for all that are written alike: integers have no signedness in a text, and a byte
string of printable characters is written like a text. -/
def canonical : Literal → Literal
  | .uint n => .int n
  | .bytes bs =>
    if bs.all isPrintable then .string (String.ofList (bs.map fun b => Char.ofNat b.toNat))
    else .bytes bs
  | .list items => .list (canonicalItems items)
  | .message fields => .message (canonicalFields fields)
  | v => v

def canonicalItems : List Literal → List Literal
  | [] => []
  | v :: vs => canonical v :: canonicalItems vs

def canonicalFields : List (String × Literal) → List (String × Literal)
  | [] => []
  | (name, v) :: fields => (name, canonical v) :: canonicalFields fields

end

theorem canonicalItems_eq (vs : List Literal) : canonicalItems vs = vs.map canonical := by
  induction vs with
  | nil => rfl
  | cons v vs ih => rw [canonicalItems, ih, List.map_cons]

theorem canonicalFields_eq (fs : List (String × Literal)) :
    canonicalFields fs = fs.map fun f => (f.1, f.2.canonical) := by
  induction fs with
  | nil => rfl
  | cons f fs ih => rw [canonicalFields, ih, List.map_cons]

theorem itemTexts_eq (vs : List Literal) : itemTexts renderFloat vs = vs.map render := by
  induction vs with
  | nil => rfl
  | cons v vs ih => rw [itemTexts, ih, List.map_cons]; rfl

theorem fieldTexts_eq (fs : List (String × Literal)) :
    fieldTexts renderFloat fs = fs.map fun f => f.1 ++ ": " ++ f.2.render := by
  induction fs with
  | nil => rfl
  | cons f fs ih => rw [fieldTexts, ih, List.map_cons]; rfl

/-- Printable characters stand for themselves in byte strings as in texts. -/
theorem glyphs_printable {bs : List UInt8} (h : bs.all isPrintable = true) :
    bs.map Text.Glyph.ofByte = (bs.map fun b => Char.ofNat b.toNat).map Text.Glyph.char := by
  rw [List.map_map]
  refine List.map_congr_left fun b hb => ?_
  have hprintable : isPrintable b = true := List.all_eq_true.1 h b hb
  rw [isPrintable] at hprintable
  rw [Text.Glyph.ofByte, if_pos hprintable]
  rfl

mutual

/-- **The canonical form is written alike.** -/
theorem render_canonical : ∀ v : Literal, v.canonical.render = v.render
  | .bytes bs => by
    rw [canonical]
    split
    · next h =>
      show Text.quote _ = Text.quoteBytes bs
      rw [← String.toList_inj, Text.quote_eq, Text.quoteBytes_eq, String.toList_ofList,
        glyphs_printable h]
    · rfl
  | .list items => by
    show "[" ++ ", ".intercalate _ ++ "]" = "[" ++ ", ".intercalate _ ++ "]"
    rw [itemTexts_canonical items]
  | .message fields => by
    show "\x7b" ++ ", ".intercalate _ ++ "\x7d" = "\x7b" ++ ", ".intercalate _ ++ "\x7d"
    rw [fieldTexts_canonical fields]
  | .bool _ | .int _ | .uint _ | .float _ | .string _ | .ident _ => rfl

theorem itemTexts_canonical : ∀ vs : List Literal,
    itemTexts renderFloat (canonicalItems vs) = itemTexts renderFloat vs
  | [] => rfl
  | v :: vs => congrArg₂ List.cons (render_canonical v) (itemTexts_canonical vs)

theorem fieldTexts_canonical : ∀ fs : List (String × Literal),
    fieldTexts renderFloat (canonicalFields fs) = fieldTexts renderFloat fs
  | [] => rfl
  | (name, v) :: fs => congrArg₂ List.cons (congrArg (name ++ ": " ++ ·) (render_canonical v))
      (fieldTexts_canonical fs)

end

/-! ## Explicit literals -/

mutual

/-- No identifier and no float at any depth, and the names of fields are identifiers. -/
def isExplicit : Literal → Bool
  | .float _ | .ident _ => false
  | .list items => itemsExplicit items
  | .message fields => fieldsExplicit fields
  | _ => true

def itemsExplicit : List Literal → Bool
  | [] => true
  | v :: vs => isExplicit v && itemsExplicit vs

def fieldsExplicit : List (String × Literal) → Bool
  | [] => true
  | (name, v) :: fields => Name.isIdentifier name && isExplicit v && fieldsExplicit fields

end

theorem itemsExplicit_iff {vs : List Literal} :
    itemsExplicit vs = true ↔ ∀ v ∈ vs, v.isExplicit = true := by
  induction vs with
  | nil => simp [itemsExplicit]
  | cons v vs ih => rw [itemsExplicit, Bool.and_eq_true, ih, List.forall_mem_cons]

/-- A field of an explicit aggregate. -/
def FieldExplicit (f : String × Literal) : Prop :=
  Name.isIdentifier f.1 = true ∧ f.2.isExplicit = true

theorem fieldsExplicit_iff {fs : List (String × Literal)} :
    fieldsExplicit fs = true ↔ ∀ f ∈ fs, FieldExplicit f := by
  induction fs with
  | nil => simp [fieldsExplicit]
  | cons f fs ih =>
    rw [fieldsExplicit, Bool.and_eq_true, Bool.and_eq_true, ih, List.forall_mem_cons]
    rfl

mutual

/-- The names that an explicit literal writes are identifiers. -/
theorem names_of_isExplicit : ∀ v : Literal, v.isExplicit = true →
    ∀ n ∈ v.names, Name.isIdentifier n = true
  | .list items, h => namesOfItems_of_explicit items h
  | .message fields, h => namesOfFields_of_explicit fields h
  | .bool _, _ | .int _, _ | .uint _, _ | .string _, _ | .bytes _, _ => nofun

theorem namesOfItems_of_explicit : ∀ vs : List Literal, itemsExplicit vs = true →
    ∀ n ∈ namesOfItems vs, Name.isIdentifier n = true
  | [], _ => nofun
  | v :: vs, h => by
    rw [itemsExplicit, Bool.and_eq_true] at h
    exact List.forall_mem_append.2 ⟨names_of_isExplicit v h.1, namesOfItems_of_explicit vs h.2⟩

theorem namesOfFields_of_explicit : ∀ fs : List (String × Literal), fieldsExplicit fs = true →
    ∀ n ∈ namesOfFields fs, Name.isIdentifier n = true
  | [], _ => nofun
  | (name, v) :: fs, h => by
    rw [fieldsExplicit, Bool.and_eq_true, Bool.and_eq_true] at h
    exact List.forall_mem_append.2 ⟨List.forall_mem_cons.2 ⟨h.1.1, names_of_isExplicit v h.1.2⟩,
      namesOfFields_of_explicit fs h.2⟩

end

/-! ## Reading literals -/

/-- The characters of a field of an aggregate. -/
def fieldChars (f : String × Literal) : List Char :=
  f.1.toList ++ ':' :: ' ' :: f.2.render.toList

theorem toList_render_list (items : List Literal) : (Literal.list items).render.toList =
    '[' :: ([',', ' '].intercalate (items.map fun v => v.render.toList) ++ [']']) := by
  have hrender : (Literal.list items).render =
      "[" ++ ", ".intercalate (itemTexts renderFloat items) ++ "]" := rfl
  rw [hrender, itemTexts_eq, String.toList_append, String.toList_append, String.toList_intercalate,
    List.map_map]
  rfl

theorem toList_render_message (fields : List (String × Literal)) :
    (Literal.message fields).render.toList =
      '\x7b' :: ([',', ' '].intercalate (fields.map fieldChars) ++ ['\x7d']) := by
  have hfield : String.toList ∘ (fun f : String × Literal => f.1 ++ ": " ++ f.2.render) =
      fieldChars := funext fun f => by
    rw [Function.comp_apply, String.toList_append, String.toList_append, List.append_assoc]
    rfl
  have hrender : (Literal.message fields).render =
      "\x7b" ++ ", ".intercalate (fieldTexts renderFloat fields) ++ "\x7d" := rfl
  rw [hrender, fieldTexts_eq, String.toList_append, String.toList_append, String.toList_intercalate,
    List.map_map, hfield]
  rfl

/-- What a literal is can be told from its first character. -/
inductive Form where
  | truth
  | number
  | quoted
  | list
  | aggregate
deriving DecidableEq

def Form.ofChar? (c : Char) : Option Form :=
  if c.isDigit || c == '-' then some number
  else if c == 't' || c == 'f' then some truth
  else if c == '"' then some quoted
  else if c == '[' then some list
  else if c == '\x7b' then some aggregate
  else none

/-- Identifiers and floats have none. -/
def form? : Literal → Option Form
  | .bool _ => some .truth
  | .int _ | .uint _ => some .number
  | .string _ | .bytes _ => some .quoted
  | .list _ => some .list
  | .message _ => some .aggregate
  | .float _ | .ident _ => none

theorem exists_head {v : Literal} (h : v.isExplicit = true) :
    ∃ c cs f, v.render.toList = c :: cs ∧ Form.ofChar? c = some f ∧ v.form? = some f := by
  have hdigit : ∀ n : Nat, ∃ c cs f, (toString n).toList = c :: cs ∧ Form.ofChar? c = some f ∧
      some Form.number = some f := by
    intro n
    obtain ⟨c, cs, hn, hc⟩ := Text.exists_digit n
    exact ⟨c, cs, .number, hn, by rw [Form.ofChar?, hc]; rfl, rfl⟩
  cases v with
  | bool b => cases b <;> exact ⟨_, _, .truth, rfl, by decide, rfl⟩
  | int i =>
    cases i with
    | ofNat n => exact hdigit n
    | negSucc n => exact ⟨'-', _, .number, String.toList_append, by decide, rfl⟩
  | uint n => exact hdigit n
  | float x => cases h
  | string s => exact ⟨'"', _, .quoted, Text.quote_eq s, by decide, rfl⟩
  | bytes bs => exact ⟨'"', _, .quoted, Text.quoteBytes_eq bs, by decide, rfl⟩
  | ident name => cases h
  | list items => exact ⟨'[', _, .list, toList_render_list items, by decide, rfl⟩
  | message fields => exact ⟨'\x7b', _, .aggregate, toList_render_message fields, by decide, rfl⟩

/-- Literals that begin the same text are of one form. -/
theorem form_eq {v w : Literal} (hv : v.isExplicit = true) (hw : w.isExplicit = true)
    {r s : List Char} (h : v.render.toList ++ r = w.render.toList ++ s) : v.form? = w.form? := by
  obtain ⟨c, cs, f, hc, hf, hform⟩ := exists_head hv
  obtain ⟨d, ds, g, hd, hg, hform'⟩ := exists_head hw
  rw [hc, hd] at h
  rw [hform, hform', ← hf, ← hg, (List.cons.inj h).1]

/-- Nothing that is written for a literal begins with a closing character. -/
theorem head?_ne_of_isExplicit {v : Literal} (h : v.isExplicit = true) {close : Char}
    (hclose : Form.ofChar? close = none) (r : List Char) :
    (v.render.toList ++ r).head? ≠ some close := by
  obtain ⟨c, cs, f, hc, hf, -⟩ := exists_head h
  rw [hc]
  rintro ⟨⟩
  rw [hclose] at hf
  cases hf

/-- What is written for an explicit literal is read back. -/
abbrev Legible (v : Literal) : Prop :=
  Text.ReadsBack Text.endsNumber (fun v : Literal => v.render.toList) canonical
    (fun v => v.isExplicit = true) v

/-- The integers among the literals. -/
theorem legible_integer {v : Literal} {i : Int} (hv : v.isExplicit = true)
    (hform : v.form? = some .number) (hrender : v.render = toString i)
    (hcanonical : v.canonical = .int i) : v.Legible := by
  intro w hw r s hr hs h
  have hwform := (form_eq hv hw h).symm.trans hform
  dsimp only at h
  rw [hrender] at h
  cases w with
  | int j =>
    obtain ⟨hij, hrest⟩ := Text.readsBack_int i j trivial r s hr hs h
    exact ⟨hcanonical.trans (congrArg Literal.int hij), hrest⟩
  | uint n =>
    obtain ⟨hin, hrest⟩ := Text.readsBack_int i n trivial r s hr hs h
    exact ⟨hcanonical.trans (congrArg Literal.int hin), hrest⟩
  | _ => cases hwform

theorem legible_bool (b : Bool) : (Literal.bool b).Legible := by
  intro w hw r s _ _ h
  have hform := form_eq rfl hw h
  cases w with
  | bool c =>
    cases b <;> cases c
    · exact ⟨rfl, List.append_cancel_left h⟩
    · exact absurd (List.cons.inj h).1 (by decide)
    · exact absurd (List.cons.inj h).1 (by decide)
    · exact ⟨rfl, List.append_cancel_left h⟩
  | _ => cases hform

/-- The glyphs between the quotes. -/
def glyphs : Literal → List Text.Glyph
  | .string s => s.toList.map .char
  | .bytes bs => bs.map .ofByte
  | _ => []

theorem toList_render_quoted {v : Literal} (h : v.form? = some .quoted) :
    v.render.toList = '"' :: (v.glyphs.flatMap Text.Glyph.escaped ++ ['"']) := by
  cases v with
  | string s => exact Text.quote_eq s
  | bytes bs => exact Text.quoteBytes_eq bs
  | _ => cases h

/-- A byte string whose glyphs are characters is printable. -/
theorem canonical_bytes {bs : List UInt8} {cs : List Char}
    (h : bs.map Text.Glyph.ofByte = cs.map Text.Glyph.char) :
    (Literal.bytes bs).canonical = .string (String.ofList cs) := by
  have hprintable : bs.all isPrintable = true := by
    refine List.all_eq_true.2 fun b hb => ?_
    have hglyph : Text.Glyph.ofByte b ∈ cs.map Text.Glyph.char := h ▸ List.mem_map_of_mem hb
    obtain ⟨c, -, hc⟩ := List.mem_map.1 hglyph
    unfold Text.Glyph.ofByte at hc
    split at hc
    · next hb => exact hb
    · cases hc
  have hcs := (glyphs_printable hprintable).symm.trans h
  rw [canonical, if_pos hprintable, (List.map_inj_right fun _ _ => Text.Glyph.char.inj).1 hcs]

/-- Quoted literals with the same glyphs are written alike. -/
theorem canonical_eq_of_glyphs {v w : Literal} (hv : v.form? = some .quoted)
    (hw : w.form? = some .quoted) (h : v.glyphs = w.glyphs) : v.canonical = w.canonical := by
  have hstring : ∀ s : String, (Literal.string s).canonical = .string (String.ofList s.toList) :=
    fun s => by rw [String.ofList_toList]; rfl
  cases v with
  | string s =>
    cases w with
    | string t =>
      have hst := (List.map_inj_right fun _ _ => Text.Glyph.char.inj).1 h
      exact congrArg Literal.string (String.toList_inj.1 hst)
    | bytes bs => exact (hstring s).trans (canonical_bytes h.symm).symm
    | _ => cases hw
  | bytes bs =>
    cases w with
    | string t => exact (canonical_bytes h).trans (hstring t).symm
    | bytes bs' => rw [(List.map_inj_right fun _ _ hb => Text.Glyph.ofByte_injective hb).1 h]
    | _ => cases hw
  | _ => cases hv

theorem legible_quoted {v : Literal} (hv : v.isExplicit = true) (hform : v.form? = some .quoted) :
    v.Legible := by
  intro w hw r s _ _ h
  have hwform := (form_eq hv hw h).symm.trans hform
  dsimp only at h
  rw [toList_render_quoted hform, toList_render_quoted hwform, List.cons_append, List.cons_append,
    List.append_assoc, List.append_assoc] at h
  obtain ⟨hglyphs, hrest⟩ := Text.glyphs_injective (List.cons.inj h).2
  exact ⟨canonical_eq_of_glyphs hform hwform hglyphs, hrest⟩

theorem legible_list {items : List Literal} (hitems : ∀ v ∈ items, v.isExplicit = true)
    (h : ∀ v ∈ items, v.Legible) : (Literal.list items).Legible := by
  intro w hw r s _ _ heq
  have hform := form_eq (v := .list items) (itemsExplicit_iff.2 hitems) hw heq
  cases w with
  | list items' =>
    dsimp only at heq
    rw [toList_render_list, toList_render_list, List.cons_append, List.cons_append,
      List.append_assoc, List.append_assoc] at heq
    obtain ⟨hkeys, hrest⟩ := Text.readsBack_delimited (by decide) (by decide) (by decide)
      (fun v hv r => head?_ne_of_isExplicit hv (by decide) r) hitems h (itemsExplicit_iff.1 hw)
      (List.cons.inj heq).2
    refine ⟨?_, hrest⟩
    rw [canonical, canonicalItems_eq, hkeys, ← canonicalItems_eq, ← canonical]
  | _ => cases hform

/-- A field of an aggregate is read back: its name ends at the colon. -/
theorem legible_field {f : String × Literal} (hf : FieldExplicit f) (h : f.2.Legible) :
    Text.ReadsBack Text.endsNumber fieldChars (fun f => (f.1, f.2.canonical)) FieldExplicit f := by
  intro g hg r s hr hs heq
  have hcolon : ∀ {name : String}, Name.isIdentifier name = true → ':' ∉ name.toList :=
    fun hname => Name.not_mem_of_isIdentifier hname (by decide)
  rw [fieldChars, fieldChars, List.append_assoc, List.append_assoc, List.cons_append,
    List.cons_append] at heq
  obtain ⟨hname, hvalue⟩ := Text.cut_at (hcolon hf.1) (hcolon hg.1) heq
  obtain ⟨hcanonical, hrest⟩ := h g.2 hg.2 r s hr hs (List.cons.inj hvalue).2
  exact ⟨Prod.ext (String.toList_inj.1 hname) hcanonical, hrest⟩

theorem legible_message {fields : List (String × Literal)}
    (hfields : ∀ f ∈ fields, FieldExplicit f) (h : ∀ f ∈ fields, f.2.Legible) :
    (Literal.message fields).Legible := by
  intro w hw r s _ _ heq
  have hform := form_eq (v := .message fields) (fieldsExplicit_iff.2 hfields) hw heq
  have hopen : ∀ f : String × Literal, FieldExplicit f → ∀ r,
      (fieldChars f ++ r).head? ≠ some '\x7d' := by
    rintro ⟨name, v⟩ ⟨hname, -⟩ r hhead
    have hbrace := Name.not_mem_of_isIdentifier (c := '\x7d') hname (by decide)
    rw [fieldChars, List.append_assoc] at hhead
    cases hcs : name.toList with
    | nil => rw [hcs] at hhead; cases hhead
    | cons c cs =>
      rw [hcs] at hhead hbrace
      cases hhead
      exact hbrace List.mem_cons_self
  cases w with
  | message fields' =>
    dsimp only at heq
    rw [toList_render_message, toList_render_message, List.cons_append, List.cons_append,
      List.append_assoc, List.append_assoc] at heq
    obtain ⟨hkeys, hrest⟩ := Text.readsBack_delimited (by decide) (by decide) (by decide) hopen
      hfields (fun f hf => legible_field (hfields f hf) (h f hf)) (fieldsExplicit_iff.1 hw)
      (List.cons.inj heq).2
    refine ⟨?_, hrest⟩
    rw [canonical, canonicalFields_eq, hkeys, ← canonicalFields_eq, ← canonical]
  | _ => cases hform

mutual

/-- **An explicit literal is read back** from its text up to what is written alike. -/
theorem legible : ∀ v : Literal, v.isExplicit = true → v.Legible
  | .bool b, _ => legible_bool b
  | .int _, h => legible_integer h rfl rfl rfl
  | .uint _, h => legible_integer h rfl rfl rfl
  | .string _, h => legible_quoted h rfl
  | .bytes _, h => legible_quoted h rfl
  | .list items, h => legible_list (itemsExplicit_iff.1 h) (legibleItems items h)
  | .message fields, h => legible_message (fieldsExplicit_iff.1 h) (legibleFields fields h)

theorem legibleItems : ∀ vs : List Literal, itemsExplicit vs = true → ∀ v ∈ vs, v.Legible
  | [], _ => nofun
  | v :: vs, h => by
    rw [itemsExplicit, Bool.and_eq_true] at h
    exact List.forall_mem_cons.2 ⟨legible v h.1, legibleItems vs h.2⟩

theorem legibleFields : ∀ fs : List (String × Literal), fieldsExplicit fs = true →
    ∀ f ∈ fs, f.2.Legible
  | [], _ => nofun
  | (name, v) :: fs, h => by
    rw [fieldsExplicit, Bool.and_eq_true, Bool.and_eq_true] at h
    exact List.forall_mem_cons.2 ⟨legible v h.1.2, legibleFields fs h.2⟩

end

end Literal

/-! ## Assignments -/

namespace OptionEntry

/-- One assignment for all that are written alike. -/
def canonical (e : OptionEntry) : OptionEntry := { e with value := e.value.canonical }

/-- An explicit literal assigned to an option name. -/
def IsExplicit (e : OptionEntry) : Prop :=
  Name.isOptionName e.name = true ∧ e.value.isExplicit = true

/-- **An assignment is read back**: the name of an option has no blank in it. -/
theorem legible {e : OptionEntry} (he : e.IsExplicit) :
    Text.ReadsBack Text.endsNumber (fun e : OptionEntry => e.text.toList) canonical IsExplicit e := by
  have htext : ∀ (e : OptionEntry) (r : List Char), e.text.toList ++ r =
      e.name.toList ++ ' ' :: '=' :: ' ' :: (e.value.render.toList ++ r) := fun e r => by
    simp [text, ProtoText.assignment]
  intro f hf r s hr hs h
  dsimp only at h
  rw [htext, htext] at h
  obtain ⟨hname, hvalue⟩ := Text.cut_at (Name.not_mem_of_isOptionName he.1 (by decide))
    (Name.not_mem_of_isOptionName hf.1 (by decide)) h
  obtain ⟨hcanonical, hrest⟩ :=
    e.value.legible he.2 f.value hf.2 r s hr hs (List.cons.inj (List.cons.inj hvalue).2).2
  exact ⟨by rw [canonical, canonical, String.toList_inj.1 hname, hcanonical], hrest⟩

end OptionEntry
end WireSchema

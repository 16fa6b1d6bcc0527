import WireSchema.Proofs.Reading

/-!
# A reader of literals

Literals are written in the syntax of proto text, so a reader of that syntax has to get them back.
It knows nothing of the two ways in which text is quoted: an escape stands for a character or for a
byte, and what is read is bytes. Neither does it know whether an integer was one without a sign.

* `Text.readPiece_escaped`: a glyph is read as its bytes, whatever follows it.
* `Text.Parser.items_append`: what reads each of several items reads a list of them.
* `Literal.readable`: the text of a literal gives back what it denotes, by induction over lists and
  aggregates.
* `Literal.read?_render`: literals, quoted byte strings and quoted texts are read back whole.
-/

namespace WireSchema

namespace Text

/-! ## Parsers -/

/-- What is read from the front of a text, and the text behind it. -/
abbrev Parser (α : Type) := List Char → Option (α × List Char)

/-- The characters that may stand between two tokens. -/
def spaces : List Char := [' ', '\t', '\n', '\x0b', '\x0c', '\r']

def isSpace (c : Char) : Bool := spaces.contains c

def skip (cs : List Char) : List Char := cs.dropWhile isSpace

theorem skip_cons {c : Char} (h : isSpace c = false) (cs : List Char) : skip (c :: cs) = c :: cs :=
  List.dropWhile_cons_of_neg (by rw [h]; decide)

/-- What stands between values or behind the last of them, so that none begins with it. -/
def separators : List Char := spaces ++ [',', ']', '\x7d']

def isSeparator (c : Char) : Bool := separators.contains c

theorem not_isSpace {c : Char} (h : isSeparator c = false) : isSpace c = false := by
  rw [isSeparator, ← Bool.not_eq_true, List.contains_iff_mem, separators, List.mem_append,
    not_or] at h
  rw [isSpace, ← Bool.not_eq_true, List.contains_iff_mem]
  exact h.1

/-- A class of characters without separators. -/
theorem not_isSeparator_of {p : Char → Bool} (hp : ∀ c ∈ separators, p c = false) {c : Char}
    (h : p c = true) : isSeparator c = false := by
  rw [isSeparator, ← Bool.not_eq_true, List.contains_iff_mem]
  intro hc
  rw [hp c hc] at h
  cases h

/-- Nothing goes on here that belonged to a word or a number in front. -/
def EndsWord (cs : List Char) : Prop := ∀ c ∈ cs.head?, Name.isPart c = false

theorem endsWord_nil : EndsWord [] := nofun

theorem endsWord_cons {c : Char} (h : Name.isPart c = false) (cs : List Char) :
    EndsWord (c :: cs) := by
  rintro d ⟨⟩
  exact h

theorem span_append {p : Char → Bool} {cs rest : List Char} (hcs : ∀ c ∈ cs, p c = true)
    (hrest : ∀ c ∈ rest.head?, p c = false) : (cs ++ rest).span p = (cs, rest) := by
  obtain ⟨htake, hdrop⟩ := takeWhile_dropWhile_append hcs hrest
  rw [List.span_eq_takeWhile_dropWhile, htake, hdrop]

namespace Parser

variable {α β : Type}

def map (f : α → β) (read : Parser α) : Parser β := fun cs =>
  (read cs).map fun (a, rest) => (f a, rest)

/-- What a parser reads from a text when it reads all of it. -/
def whole? (read : Parser α) (text : String) : Option α :=
  match read text.toList with
  | some (a, []) => some a
  | _ => none

theorem whole?_eq {read : Parser α} {text : String} {a : α}
    (h : read text.toList = some (a, [])) : read.whole? text = some a := by
  rw [whole?, h]

/-- What is written begins with a token of its own, and is read as `a` whatever goes on behind. -/
structure Returns (read : Parser α) (written : List Char) (a : α) : Prop where
  opens : ∃ c cs, written = c :: cs ∧ isSeparator c = false
  reads : ∀ rest, EndsWord rest → read (written ++ rest) = some (a, rest)

theorem Returns.skip_append {read : Parser α} {written : List Char} {a : α}
    (h : Returns read written a) (rest : List Char) :
    skip (written ++ rest) = written ++ rest := by
  obtain ⟨c, cs, rfl, hc⟩ := h.opens
  exact skip_cons (not_isSpace hc) (cs ++ rest)

/-! ## Lists -/

section Items

variable (read : Parser β) (close : Char)

/-- Further items up to a closing character, each with a comma in front. -/
def furtherItems : Nat → Parser (List β)
  | 0, _ => none
  | limit + 1, cs =>
    match skip cs with
    | [] => none
    | c :: cs =>
      if c = close then some ([], cs)
      else if c = ',' then
        (read (skip cs)).bind fun (b, cs) => (furtherItems limit).map (b :: ·) cs
      else none

/-- Items up to a closing character, with commas in between. There are no more of them than
characters. -/
def items : Parser (List β) := fun cs =>
  match skip cs with
  | [] => none
  | c :: rest =>
    if c = close then some ([], rest)
    else (read (c :: rest)).bind fun (b, cs) =>
      (furtherItems read close cs.length).map (b :: ·) cs

/-- What may close a list. -/
structure Closes (close : Char) : Prop where
  isSeparator : isSeparator close = true
  isSpace : isSpace close = false
  isPart : Name.isPart close = false
  ne_comma : close ≠ ','

instance : Decidable (Closes close) :=
  decidable_of_iff (Text.isSeparator close = true ∧ Text.isSpace close = false ∧
      Name.isPart close = false ∧ close ≠ ',')
    ⟨fun ⟨hseparator, hspace, hpart, hcomma⟩ => ⟨hseparator, hspace, hpart, hcomma⟩,
      fun ⟨hseparator, hspace, hpart, hcomma⟩ => ⟨hseparator, hspace, hpart, hcomma⟩⟩

/-- What is written behind the first item of a list, with the text behind the list. -/
def behind (write : α → List Char) (as : List α) (rest : List Char) : List Char :=
  (as.map write).flatMap ([',', ' '] ++ ·) ++ close :: rest

variable (write : α → List Char)

/-- No item is longer than the list. -/
theorem length_le_intercalate (sep : List Char) {a : α} {as : List α} (h : a ∈ as) :
    (write a).length ≤ (sep.intercalate (as.map write)).length := by
  cases as with
  | nil => cases h
  | cons first as =>
    rw [List.map_cons, intercalate_cons, List.length_append]
    rcases List.mem_cons.1 h with rfl | h
    · exact Nat.le_add_right _ _
    · have hpiece : (sep ++ write a).Sublist ((as.map write).flatMap (sep ++ ·)) :=
        List.sublist_flatten_of_mem (List.mem_map_of_mem (List.mem_map_of_mem h))
      have hlength := hpiece.length_le
      rw [List.length_append] at hlength
      omega

theorem behind_cons (a : α) (as : List α) (rest : List Char) :
    behind close write (a :: as) rest = ',' :: ' ' :: (write a ++ behind close write as rest) := by
  simp [behind]

theorem length_lt_behind (as : List α) (rest : List Char) :
    as.length < (behind close write as rest).length := by
  induction as with
  | nil => exact Nat.succ_pos _
  | cons a as ih =>
    rw [behind_cons, List.length_cons, List.length_cons, List.length_cons, List.length_append]
    omega

variable {close} (hclose : Closes close)

include hclose

theorem endsWord_behind (as : List α) (rest : List Char) :
    EndsWord (behind close write as rest) := by
  cases as with
  | nil => exact endsWord_cons hclose.isPart rest
  | cons a as =>
    rw [behind_cons]
    exact endsWord_cons (by decide) _

variable {read write} {key : α → β}

theorem furtherItems_behind {as : List α} (has : ∀ a ∈ as, Returns read (write a) (key a))
    (rest : List Char) : ∀ {limit : Nat}, as.length < limit →
      furtherItems read close limit (behind close write as rest) = some (as.map key, rest) := by
  induction as with
  | nil =>
    rintro (_ | limit) hlimit
    · cases hlimit
    · have hskip : skip (behind close write [] rest) = close :: rest :=
        skip_cons hclose.isSpace rest
      rw [furtherItems, hskip]
      exact if_pos rfl
  | cons a as ih =>
    obtain ⟨ha, has⟩ := List.forall_mem_cons.1 has
    rintro (_ | limit) hlimit
    · cases hlimit
    · have hread := ha.reads _ (endsWord_behind write hclose as rest)
      have hskip : ∀ cs, skip (',' :: cs) = ',' :: cs := skip_cons (by decide)
      have hblank : skip (' ' :: (write a ++ behind close write as rest)) =
          write a ++ behind close write as rest := ha.skip_append _
      rw [behind_cons, furtherItems, hskip]
      dsimp only
      rw [if_neg hclose.ne_comma.symm, if_pos rfl, hblank, hread, Option.bind_some, Parser.map,
        ih has (Nat.lt_of_succ_lt_succ hlimit)]
      rfl

/-- **Lists are read back** up to their closing character, if their items are. -/
theorem items_append {as : List α} (has : ∀ a ∈ as, Returns read (write a) (key a))
    (rest : List Char) :
    items read close ([',', ' '].intercalate (as.map write) ++ close :: rest) =
      some (as.map key, rest) := by
  cases as with
  | nil =>
    rw [List.map_nil, List.intercalate_nil, List.nil_append, items, skip_cons hclose.isSpace]
    exact if_pos rfl
  | cons a as =>
    obtain ⟨ha, has⟩ := List.forall_mem_cons.1 has
    have htext : [',', ' '].intercalate ((a :: as).map write) ++ close :: rest =
        write a ++ behind close write as rest := by
      rw [List.map_cons, intercalate_cons, List.append_assoc]
      rfl
    have hread := ha.reads _ (endsWord_behind write hclose as rest)
    have hfurther := furtherItems_behind hclose has rest (length_lt_behind close write as rest)
    obtain ⟨c, cs, hwrite, hc⟩ := ha.opens
    have hne : c ≠ close := fun he => by
      rw [he, hclose.isSeparator] at hc
      cases hc
    rw [hwrite, List.cons_append] at hread
    rw [htext, items, ha.skip_append, hwrite, List.cons_append]
    dsimp only
    rw [if_neg hne, hread, Option.bind_some, Parser.map, hfurther]
    rfl

end Items

end Parser

/-! ## Quoted text -/

/-- One character or one escape between quotes, as its bytes. A character is encoded in UTF-8. -/
def readPiece : Parser (List UInt8)
  | '\\' :: '\\' :: cs => some ([0x5c], cs)
  | '\\' :: '"' :: cs => some ([0x22], cs)
  | '\\' :: 'b' :: cs => some ([0x08], cs)
  | '\\' :: 'f' :: cs => some ([0x0c], cs)
  | '\\' :: 'n' :: cs => some ([0x0a], cs)
  | '\\' :: 'r' :: cs => some ([0x0d], cs)
  | '\\' :: 't' :: cs => some ([0x09], cs)
  | '\\' :: 'x' :: cs =>
    let digits := (cs.take 2).takeWhile fun c => (hexDigit? c).isSome
    if digits.isEmpty then none
    else (hexNumber? digits).map fun n => ([UInt8.ofNat n], cs.drop digits.length)
  | '\\' :: 'u' :: c₁ :: c₂ :: c₃ :: c₄ :: cs =>
    (hexNumber? [c₁, c₂, c₃, c₄]).bind fun n =>
      if n.isValidChar then some (String.utf8EncodeChar (Char.ofNat n), cs) else none
  | '\\' :: _ | '"' :: _ | '\n' :: _ | [] => none
  | c :: cs => some (String.utf8EncodeChar c, cs)

/-- What stands up to the next quote. There are no more pieces than characters. -/
def readPieces : Nat → Parser (List UInt8)
  | 0, _ => none
  | limit + 1, cs =>
    match readPiece cs with
    | some (piece, cs) => (readPieces limit).map (piece ++ ·) cs
    | none => if cs.head? = some '"' then some ([], cs.tail) else none

def readQuoted : Parser (List UInt8)
  | '"' :: cs => readPieces cs.length cs
  | _ => none

/-- The bytes that a glyph stands for. -/
def Glyph.bytes : Glyph → List UInt8
  | char c => String.utf8EncodeChar c
  | byte b => [b]

theorem Glyph.bytes_ofByte (b : UInt8) : (ofByte b).bytes = [b] := by
  have hall : ∀ n < 256, (ofByte (UInt8.ofNat n)).bytes = [UInt8.ofNat n] := by decide +kernel
  have hb := hall b.toNat b.toNat_lt
  rwa [UInt8.ofNat_toNat] at hb

theorem exists_hexPair {n : Nat} (h : n < 256) : ∃ high low, hexPair n = [high, low] ∧
    (hexDigit? high).isSome ∧ (hexDigit? low).isSome := by
  have hall : ∀ n < 256, (hexDigit? (Nat.digitChar (n / 16))).isSome ∧
    (hexDigit? (Nat.digitChar (n % 16))).isSome := by decide +kernel
  exact ⟨_, _, rfl, hall n h⟩

/-- **A glyph is read as its bytes**, whatever follows it. -/
theorem readPiece_escaped (g : Glyph) (cs : List Char) :
    readPiece (g.escaped ++ cs) = some (g.bytes, cs) := by
  cases g with
  | byte b =>
    obtain ⟨high, low, hpair, hhigh, hlow⟩ := exists_hexPair b.toNat_lt
    have hnumber := hexNumber?_hexPair b.toNat_lt
    rw [hpair] at hnumber
    rw [Glyph.escaped, hpair]
    simp [readPiece, hhigh, hlow, hnumber, Glyph.bytes]
  | char c =>
    refine escapeChar_cases (P := fun c written =>
      readPiece (written ++ cs) = some (String.utf8EncodeChar c, cs)) ?_ (fun n hn => ?_)
      (fun c hquote hslash hnewline => ?_) c
    · simp only [escapes, List.forall_mem_cons]
      exact ⟨rfl, rfl, rfl, rfl, rfl, rfl, rfl, nofun⟩
    · have hread : readPiece (['\\', 'u', '0', '0'] ++ hexPair n ++ cs) =
          (hexNumber? (hexPair n)).bind fun n =>
            if n.isValidChar then some (String.utf8EncodeChar (Char.ofNat n), cs) else none := rfl
      have hvalid : n.isValidChar := .inl (by omega)
      rw [hread, hexNumber?_hexPair (by omega), Option.bind_some, if_pos hvalid]
    · rw [List.singleton_append]
      unfold readPiece
      split <;> simp_all

/-- The glyphs of a text stand for its encoding in UTF-8. -/
theorem bytes_of_text (s : String) :
    (s.toList.map Glyph.char).flatMap Glyph.bytes = s.toUTF8.data.toList := by
  have hencoded : s.toUTF8 = (s.toList.flatMap String.utf8EncodeChar).toByteArray :=
    String.utf8Encode_toList.symm
  rw [hencoded, List.toList_data_toByteArray, List.flatMap_map]
  rfl

theorem bytes_of_bytes (bs : List UInt8) : (bs.map Glyph.ofByte).flatMap Glyph.bytes = bs := by
  induction bs with
  | nil => rfl
  | cons b bs ih => rw [List.map_cons, List.flatMap_cons, Glyph.bytes_ofByte, ih]; rfl

theorem readPieces_append (rest : List Char) : ∀ {gs : List Glyph} {limit : Nat},
    gs.length < limit →
      readPieces limit (gs.flatMap Glyph.escaped ++ '"' :: rest) =
        some (gs.flatMap Glyph.bytes, rest) := by
  intro gs
  induction gs with
  | nil =>
    rintro (_ | limit) hlimit
    · cases hlimit
    · rfl
  | cons g gs ih =>
    rintro (_ | limit) hlimit
    · cases hlimit
    · rw [List.flatMap_cons, List.append_assoc, readPieces, readPiece_escaped]
      dsimp only
      rw [Parser.map, ih (Nat.lt_of_succ_lt_succ hlimit)]
      rfl

theorem length_le_escaped (gs : List Glyph) : gs.length ≤ (gs.flatMap Glyph.escaped).length := by
  induction gs with
  | nil => exact Nat.le_refl 0
  | cons g gs ih =>
    have hne : g.escaped ≠ [] := fun hnil => by
      have hread := readPiece_escaped g []
      rw [hnil] at hread
      cases hread
    have hpos := List.length_pos_iff.2 hne
    rw [List.flatMap_cons, List.length_append, List.length_cons]
    omega

theorem readQuoted_append (gs : List Glyph) (rest : List Char) :
    readQuoted ('"' :: (gs.flatMap Glyph.escaped ++ ['"']) ++ rest) =
      some (gs.flatMap Glyph.bytes, rest) := by
  have hlength := length_le_escaped gs
  have htext : '"' :: (gs.flatMap Glyph.escaped ++ ['"']) ++ rest =
      '"' :: (gs.flatMap Glyph.escaped ++ '"' :: rest) := by simp
  rw [htext, readQuoted]
  refine readPieces_append rest ?_
  rw [List.length_append, List.length_cons]
  omega

/-- The bytes that a quoted text stands for. -/
def unquote? (text : String) : Option (List UInt8) := readQuoted.whole? text

theorem unquote?_eq {text : String} {gs : List Glyph}
    (h : text.toList = '"' :: (gs.flatMap Glyph.escaped ++ ['"'])) :
    unquote? text = some (gs.flatMap Glyph.bytes) := by
  have hread := readQuoted_append gs []
  rw [List.append_nil, ← h] at hread
  exact Parser.whole?_eq hread

-- A single digit is an escape as well, and the third digit behind `x` stands for itself.
example : unquote? "\"\\x1g\\xabc\\u00e9\"" = some [0x01, 0x67, 0xab, 0x63, 0xc3, 0xa9] := by decide

/-! ## Numbers and words -/

def readNat : Parser Nat := fun cs =>
  match cs.span Char.isDigit with
  | ([], _) => none
  | (digits, rest) => some (Nat.ofDigitChars 10 digits 0, rest)

/-- A decimal integer, with a sign in front if it is negative. -/
def readInt : Parser Int
  | '-' :: cs => readNat.map (fun n : Nat => -(n : Int)) cs
  | cs => readNat.map Int.ofNat cs

theorem EndsWord.not_isDigit {rest : List Char} (h : EndsWord rest) :
    ∀ c ∈ rest.head?, c.isDigit = false := fun c hc => by
  have hpart := h c hc
  simp only [Name.isPart, Char.isAlphanum, Bool.or_eq_false_iff] at hpart
  exact hpart.1.2

theorem readNat_append (n : Nat) {rest : List Char} (hrest : EndsWord rest) :
    readNat ((toString n).toList ++ rest) = some (n, rest) := by
  have hspan := span_append (fun _ hc => isDigit_of_mem_toString (n := n) hc) hrest.not_isDigit
  have hvalue : Nat.ofDigitChars 10 (toString n).toList 0 = n :=
    (congrArg (Nat.ofDigitChars 10 · 0) Nat.toList_repr).trans
      (Nat.ofDigitChars_toDigits (by decide) (by decide))
  obtain ⟨c, cs, hn, -⟩ := exists_digit n
  rw [readNat, hspan]
  rw [hn] at hvalue ⊢
  exact congrArg (fun m => some (m, rest)) hvalue

theorem readInt_append (i : Int) {rest : List Char} (hrest : EndsWord rest) :
    readInt ((toString i).toList ++ rest) = some (i, rest) := by
  cases i with
  | ofNat n =>
    have hread := readNat_append n hrest
    obtain ⟨c, cs, hn, hc⟩ := exists_digit n
    have htext : (toString (Int.ofNat n)).toList = c :: cs := hn
    have hne : c ≠ '-' := by
      rintro rfl
      cases hc
    rw [hn] at hread
    rw [htext, List.cons_append] at *
    rw [readInt, Parser.map, hread]
    · rfl
    · rintro _ ⟨⟩
      exact hne rfl
  | negSucc n =>
    have htext : (toString (Int.negSucc n)).toList = '-' :: (toString (n + 1)).toList :=
      String.toList_append
    rw [htext, List.cons_append, readInt, Parser.map, readNat_append (n + 1) hrest]
    rfl

def readBool : Parser Bool := fun cs =>
  match cs.span Name.isPart with
  | (word, rest) =>
    if word = "true".toList then some (true, rest)
    else if word = "false".toList then some (false, rest)
    else none

theorem readBool_append (b : Bool) {rest : List Char} (hrest : EndsWord rest) :
    readBool ((if b then "true" else "false").toList ++ rest) = some (b, rest) := by
  have hword : ∀ c ∈ (if b then "true" else "false").toList, Name.isPart c = true := by
    cases b <;> decide
  rw [readBool, span_append hword hrest]
  cases b <;> rfl

variable {α : Type}

/-- A name with a value behind a colon. -/
def readField (read : Parser α) : Parser (String × α) := fun cs =>
  match cs.span Name.isPart with
  | (name, rest) =>
    match skip rest with
    | ':' :: rest =>
      if Name.identifierChars name then read.map (String.ofList name, ·) (skip rest) else none
    | _ => none

/-- **A field is read back** if its value is. -/
theorem returns_readField {read : Parser α} {name : String} {written : List Char} {a : α}
    (hname : Name.isIdentifier name = true) (h : read.Returns written a) :
    (readField read).Returns (name.toList ++ ':' :: ' ' :: written) (name, a) := by
  have hparts := Name.isPart_of_isIdentifier hname
  refine ⟨?_, fun rest hrest => ?_⟩
  · cases hcs : name.toList with
    | nil => rw [Name.isIdentifier, hcs] at hname; cases hname
    | cons c cs =>
      have hc : Name.isPart c = true := hparts c (hcs ▸ List.mem_cons_self)
      exact ⟨c, _, rfl, not_isSeparator_of (by decide) hc⟩
  · have htext : name.toList ++ ':' :: ' ' :: written ++ rest =
        name.toList ++ ':' :: ' ' :: (written ++ rest) := by simp
    have hskip : skip (' ' :: (written ++ rest)) = written ++ rest := h.skip_append rest
    rw [htext, readField, span_append hparts (endsWord_cons (by decide) _)]
    dsimp only
    rw [skip_cons (by decide)]
    refine (if_pos hname).trans ?_
    rw [hskip, Parser.map, h.reads rest hrest, String.ofList_toList]
    rfl

end Text

/-! ## Literals -/

namespace Literal

open Text

mutual

/-- What the text of a literal says: integers have no signedness, and a text is the bytes of its
encoding in UTF-8. -/
def denoted : Literal → Literal
  | .uint n => .int n
  | .string s => .bytes s.toUTF8.data.toList
  | .list items => .list (denotedItems items)
  | .message fields => .message (denotedFields fields)
  | v => v

def denotedItems : List Literal → List Literal
  | [] => []
  | v :: vs => denoted v :: denotedItems vs

def denotedFields : List (String × Literal) → List (String × Literal)
  | [] => []
  | (name, v) :: fields => (name, denoted v) :: denotedFields fields

end

theorem denotedItems_eq (vs : List Literal) : denotedItems vs = vs.map denoted := by
  induction vs with
  | nil => rfl
  | cons v vs ih => rw [denotedItems, ih, List.map_cons]

theorem denotedFields_eq (fs : List (String × Literal)) :
    denotedFields fs = fs.map fun f => (f.1, f.2.denoted) := by
  induction fs with
  | nil => rfl
  | cons f fs ih => rw [denotedFields, ih, List.map_cons]

/-- A value of some form, with the values in it read by `inner`. -/
def readAs (inner : Parser Literal) : Form → Parser Literal
  | .truth, cs => readBool.map .bool cs
  | .number, cs => readInt.map .int cs
  | .quoted, cs => readQuoted.map .bytes cs
  | .list, cs => (Parser.items inner ']').map .list cs.tail
  | .aggregate, cs => (Parser.items (readField inner) '\x7d').map .message cs.tail

/-- A value, which shows by its first character what it is. Values nest no deeper than `depth`. -/
def readValue : Nat → Parser Literal
  | 0, _ => none
  | depth + 1, cs => (cs.head?.bind Form.ofChar?).bind fun form => readAs (readValue depth) form cs

/-- The literal that a text consists of. Its values nest no deeper than it has characters. -/
def read? (text : String) : Option Literal := (readValue text.toList.length).whole? text

/-- What is written for a literal is read as what it denotes, if values may nest as deep as it is
long. -/
def Readable (v : Literal) : Prop :=
  ∀ depth, v.render.toList.length ≤ depth → (readValue depth).Returns v.render.toList v.denoted

/-- The first character of a literal tells what it is to be read as. -/
theorem readable_of_form {v : Literal} {form : Form} (hv : v.isExplicit = true)
    (hform : v.form? = some form)
    (h : ∀ depth, v.render.toList.length ≤ depth + 1 → ∀ rest, EndsWord rest →
      readAs (readValue depth) form (v.render.toList ++ rest) = some (v.denoted, rest)) :
    v.Readable := by
  obtain ⟨c, cs, f, hrender, hc, hf⟩ := exists_head hv
  obtain rfl : f = form := Option.some.inj (hf.symm.trans hform)
  have hseparator : isSeparator c = false :=
    not_isSeparator_of (p := fun c => (Form.ofChar? c).isSome) (by decide) (by rw [hc]; rfl)
  rintro (_ | depth) hdepth
  · rw [hrender] at hdepth
    cases hdepth
  · refine ⟨⟨c, cs, hrender, hseparator⟩, fun rest hrest => ?_⟩
    have hhead : (v.render.toList ++ rest).head?.bind Form.ofChar? = some f := by
      rw [hrender]
      exact hc
    rw [readValue, hhead, Option.bind_some, h depth hdepth rest hrest]

theorem readable_integer {v : Literal} {i : Int} (hv : v.isExplicit = true)
    (hform : v.form? = some .number) (hrender : v.render = toString i)
    (hdenoted : v.denoted = .int i) : v.Readable := by
  refine readable_of_form hv hform fun depth _ rest hrest => ?_
  rw [hrender, hdenoted, readAs, Parser.map, readInt_append i hrest]
  rfl

theorem readable_bool (b : Bool) : (Literal.bool b).Readable := by
  refine readable_of_form (by rfl) rfl fun depth _ rest hrest => ?_
  exact congrArg (Option.map _) (readBool_append b hrest)

/-- The bytes of a quoted literal are those of its glyphs. -/
theorem readable_quoted {v : Literal} (hv : v.isExplicit = true) (hform : v.form? = some .quoted)
    (hdenoted : v.denoted = .bytes (v.glyphs.flatMap Glyph.bytes)) : v.Readable := by
  refine readable_of_form hv hform fun depth _ rest _ => ?_
  rw [toList_render_quoted hform, hdenoted, readAs, Parser.map, readQuoted_append]
  rfl

theorem readable_list {items : List Literal} (hv : (Literal.list items).isExplicit = true)
    (h : ∀ v ∈ items, v.Readable) : (Literal.list items).Readable := by
  refine readable_of_form hv rfl fun depth hdepth rest _ => ?_
  have hitems : ∀ v ∈ items, (readValue depth).Returns v.render.toList v.denoted := by
    intro v hmem
    have hlength := Parser.length_le_intercalate (fun v => v.render.toList) [',', ' '] hmem
    refine h v hmem depth ?_
    rw [toList_render_list, List.length_cons, List.length_append] at hdepth
    omega
  have hclose : Parser.Closes ']' := by decide
  have hread := Parser.items_append hclose hitems rest
  rw [toList_render_list, readAs, Parser.map, List.cons_append, List.append_assoc, List.tail_cons,
    List.singleton_append, hread, denoted, denotedItems_eq]
  rfl

theorem readable_message {fields : List (String × Literal)}
    (hv : (Literal.message fields).isExplicit = true) (h : ∀ f ∈ fields, f.2.Readable) :
    (Literal.message fields).Readable := by
  refine readable_of_form hv rfl fun depth hdepth rest _ => ?_
  have hfields : ∀ f ∈ fields,
      (readField (readValue depth)).Returns (fieldChars f) (f.1, f.2.denoted) := by
    intro f hmem
    have hlength := Parser.length_le_intercalate fieldChars [',', ' '] hmem
    refine returns_readField (fieldsExplicit_iff.1 hv f hmem).1 (h f hmem depth ?_)
    rw [toList_render_message, List.length_cons, List.length_append] at hdepth
    rw [fieldChars, List.length_append, List.length_cons, List.length_cons] at hlength
    omega
  have hclose : Parser.Closes '\x7d' := by decide
  have hread := Parser.items_append hclose hfields rest
  rw [toList_render_message, readAs, Parser.map, List.cons_append, List.append_assoc,
    List.tail_cons, List.singleton_append, hread, denoted, denotedFields_eq]
  rfl

mutual

/-- **A literal is read back** as what it denotes, whatever goes on behind its text. -/
theorem readable : ∀ v : Literal, v.isExplicit = true → v.Readable
  | .bool b, _ => readable_bool b
  | .int _, h => readable_integer h rfl rfl rfl
  | .uint _, h => readable_integer h rfl rfl rfl
  | .string s, h => readable_quoted h rfl (congrArg Literal.bytes (bytes_of_text s).symm)
  | .bytes bs, h => readable_quoted h rfl (congrArg Literal.bytes (bytes_of_bytes bs).symm)
  | .list items, h => readable_list h (readableItems items h)
  | .message fields, h => readable_message h (readableFields fields h)

theorem readableItems : ∀ vs : List Literal, itemsExplicit vs = true → ∀ v ∈ vs, v.Readable
  | [], _ => nofun
  | v :: vs, h => by
    rw [itemsExplicit, Bool.and_eq_true] at h
    exact List.forall_mem_cons.2 ⟨readable v h.1, readableItems vs h.2⟩

theorem readableFields : ∀ fs : List (String × Literal), fieldsExplicit fs = true →
    ∀ f ∈ fs, f.2.Readable
  | [], _ => nofun
  | (name, v) :: fs, h => by
    rw [fieldsExplicit, Bool.and_eq_true, Bool.and_eq_true] at h
    exact List.forall_mem_cons.2 ⟨readable v h.1.2, readableFields fs h.2⟩

end

/-- **Literals are read back.** A literal without identifiers and floats is read from its text up to
the signedness of integers and what tells a text from the bytes of its encoding. Unquoting gives
back every byte string, and the encoding of every text. -/
theorem read?_render :
    (∀ v : Literal, v.isExplicit = true → read? v.render = some v.denoted) ∧
      (∀ bs : List UInt8, unquote? (quoteBytes bs) = some bs) ∧
      ∀ s : String, unquote? (quote s) = some s.toUTF8.data.toList := by
  refine ⟨fun v hv => ?_, fun bs => ?_, fun s => ?_⟩
  · have hread := (v.readable hv _ (Nat.le_refl _)).reads [] endsWord_nil
    rw [List.append_nil] at hread
    exact Parser.whole?_eq hread
  · rw [unquote?_eq (quoteBytes_eq bs), bytes_of_bytes]
  · rw [unquote?_eq (quote_eq s), bytes_of_text]

/-- A bracket and a quote inside of a text, a byte in front of a digit, and an integer without a
sign. -/
theorem read?_render_nested :
    let v : Literal := .message [("id", .uint 7),
      ("parts", .list [.string "]\"\n", .bytes [0xff, 0x61], .list [.int (-1), .bool true]])]
    v.isExplicit = true ∧ read? v.render = some (.message [("id", .int 7),
      ("parts", .list [.bytes [0x5d, 0x22, 0x0a], .bytes [0xff, 0x61],
        .list [.int (-1), .bool true]])]) := by
  intro v
  have hv : v.isExplicit = true := by decide
  exact ⟨hv, read?_render.1 v hv⟩

end Literal
end WireSchema

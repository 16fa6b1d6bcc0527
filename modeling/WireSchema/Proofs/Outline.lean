import WireSchema.Proofs.Layout
import WireSchema.Proofs.Reading

/-!
# Outlines

The outline of a file is what its text says and no more: the declarations with their names and
nesting, the lines of their fields, what they reserve, and in every scope the list of the options
assigned in it, where a rule counts as the assignments that state it. Values stand in their canonical
form (`Literal.canonical`), since literals that are written alike cannot be told apart.
-/

namespace WireSchema

structure FieldOutline where
  /-- The word in front of the type, with a blank behind it, or nothing. -/
  label : String
  type : String
  name : String
  number : Nat
  assigned : List OptionEntry

structure OneofOutline where
  name : String
  assigned : List OptionEntry
  fields : List FieldOutline

structure EnumValueOutline where
  name : String
  number : Int
  assigned : List OptionEntry

structure EnumOutline where
  name : String
  assigned : List OptionEntry
  values : List EnumValueOutline
  reservedRanges : List ReservedNumbers
  reservedNames : List String

/-- The outline of a message without the messages nested in it. -/
structure FlatMessageOutline where
  name : String
  assigned : List OptionEntry
  reservedRanges : List ReservedRange
  reservedNames : List String
  fields : List FieldOutline
  oneofs : List OneofOutline
  enums : List EnumOutline

structure MessageOutline extends FlatMessageOutline where
  messages : List MessageOutline

structure MethodOutline where
  name : String
  input : String
  output : String
  clientStreaming : Bool
  serverStreaming : Bool
  assigned : List OptionEntry

structure ServiceOutline where
  name : String
  assigned : List OptionEntry
  methods : List MethodOutline

structure ExtensionOutline where
  target : ExtensionTarget
  fields : List FieldOutline

structure FileOutline where
  name : String
  package : String
  imports : StringSet
  assigned : List OptionEntry
  enums : List EnumOutline
  messages : List MessageOutline
  services : List ServiceOutline
  extensions : List ExtensionOutline

/-! ## Outlines of descriptors -/

/-- Assignments up to what is written alike. -/
def OptionEntry.canonicalAll (entries : List OptionEntry) : List OptionEntry :=
  entries.map canonical

def FieldDescriptor.outline (d : FieldDescriptor) : FieldOutline where
  label := ProtoText.label d
  type := d.protoType
  name := d.name
  number := d.number
  assigned := OptionEntry.canonicalAll d.assigned

def OneofDescriptor.outline (d : OneofDescriptor) : OneofOutline where
  name := d.name
  assigned := OptionEntry.canonicalAll d.assigned
  fields := d.fields.map FieldDescriptor.outline

def EnumValueDescriptor.outline (d : EnumValueDescriptor) : EnumValueOutline where
  name := d.name
  number := d.number
  assigned := OptionEntry.canonicalAll d.options

def EnumDescriptor.outline (d : EnumDescriptor) : EnumOutline where
  name := d.name
  assigned := OptionEntry.canonicalAll d.options
  values := d.values.map EnumValueDescriptor.outline
  reservedRanges := d.reservedRanges
  reservedNames := d.reservedNames

def FlatMessageDescriptor.outline (d : FlatMessageDescriptor) : FlatMessageOutline where
  name := d.name
  assigned := OptionEntry.canonicalAll d.assigned
  reservedRanges := d.reservedRanges
  reservedNames := d.reservedNames
  fields := d.fields.map FieldDescriptor.outline
  oneofs := d.oneofs.map OneofDescriptor.outline
  enums := d.enums.map EnumDescriptor.outline

namespace MessageDescriptor

mutual

def outline : MessageDescriptor → MessageOutline
  | ⟨d, nested⟩ => ⟨d.outline, outlines nested⟩

def outlines : List MessageDescriptor → List MessageOutline
  | [] => []
  | d :: ds => outline d :: outlines ds

end

end MessageDescriptor

def MethodDescriptor.outline (d : MethodDescriptor) : MethodOutline where
  name := d.name
  input := d.input.protoName
  output := d.output.protoName
  clientStreaming := d.clientStreaming
  serverStreaming := d.serverStreaming
  assigned := OptionEntry.canonicalAll d.options

def ServiceDescriptor.outline (d : ServiceDescriptor) : ServiceOutline where
  name := d.name
  assigned := OptionEntry.canonicalAll d.options
  methods := d.methods.map MethodDescriptor.outline

def ExtensionDescriptor.outline (d : ExtensionDescriptor) : ExtensionOutline where
  target := d.target
  fields := d.fields.map FieldDescriptor.outline

def FileDescriptor.outline (d : FileDescriptor) : FileOutline where
  name := d.name
  package := d.package
  imports := d.imports
  assigned := OptionEntry.canonicalAll d.options
  enums := d.enums.map EnumDescriptor.outline
  messages := MessageDescriptor.outlines d.messages
  services := d.services.map ServiceDescriptor.outline
  extensions := d.extensions.map ExtensionDescriptor.outline

/-! ## Reading statements -/

/-- A literal that is read back from its text. -/
abbrev Literal.Explicit (v : Literal) : Prop := v.isExplicit = true

/-- What agrees in one view, element by element, agrees in another. -/
theorem map_eq_of_map_eq {α β γ : Type} {f : α → β} {g : α → γ} {as bs : List α}
    (h : ∀ a ∈ as, ∀ b ∈ bs, f a = f b → g a = g b) (hf : as.map f = bs.map f) :
    as.map g = bs.map g := by
  induction as generalizing bs with
  | nil =>
    cases bs with
    | nil => rfl
    | cons b bs => cases hf
  | cons a as ih =>
    cases bs with
    | nil => cases hf
    | cons b bs =>
      obtain ⟨hhead, htail⟩ := List.cons.inj hf
      obtain ⟨ha, has⟩ := List.forall_mem_cons.1 h
      rw [List.map_cons, List.map_cons, ha b List.mem_cons_self hhead,
        ih (fun a' ha' b' hb' => has a' ha' b' (List.mem_cons_of_mem _ hb')) htail]

namespace ProtoText

open Text (Layout)

variable {es fs : List OptionEntry}

theorem canonical_of_text {e f : OptionEntry} (he : e.IsExplicit) (hf : f.IsExplicit)
    (h : e.text = f.text) : e.canonical = f.canonical :=
  (OptionEntry.legible he f hf [] [] nofun nofun
    (congrArg (fun s : String => s.toList ++ []) h)).1

theorem canonicalAll_of_texts (hes : OptionEntry.AllWritable Literal.Explicit es)
    (hfs : OptionEntry.AllWritable Literal.Explicit fs)
    (h : es.map OptionEntry.text = fs.map OptionEntry.text) :
    OptionEntry.canonicalAll es = OptionEntry.canonicalAll fs :=
  map_eq_of_map_eq (fun e he f hf => canonical_of_text (hes e he) (hfs f hf)) h

theorem canonicalAll_of_optionLayouts (hes : OptionEntry.AllWritable Literal.Explicit es)
    (hfs : OptionEntry.AllWritable Literal.Explicit fs)
    (h : optionLayouts es = optionLayouts fs) :
    OptionEntry.canonicalAll es = OptionEntry.canonicalAll fs := by
  refine canonicalAll_of_texts hes hfs (map_eq_of_map_eq (fun e _ f _ hline => ?_) h)
  exact (String.append_right_inj _).1 ((String.append_left_inj _).1 (Layout.line.inj hline))

/-! ## Reading assignments in brackets -/

theorem commaLines_cons (l : String) (ls : List String) : Text.commaLines (l :: ls) =
    (if ls.isEmpty then l else l ++ ",") :: Text.commaLines ls := by
  cases ls <;> rfl

theorem commaLines_injective {ls ms : List String}
    (h : Text.commaLines ls = Text.commaLines ms) : ls = ms := by
  induction ls generalizing ms with
  | nil =>
    cases ms with
    | nil => rfl
    | cons m ms => rw [commaLines_cons] at h; cases h
  | cons l ls ih =>
    cases ms with
    | nil => rw [commaLines_cons] at h; cases h
    | cons m ms =>
      rw [commaLines_cons, commaLines_cons] at h
      obtain ⟨hhead, htail⟩ := List.cons.inj h
      obtain rfl := ih htail
      split at hhead
      · rw [hhead]
      · rw [(String.append_left_inj _).1 hhead]

/-- The assignments in brackets behind a head are read back, where the head has no bracket. -/
theorem annotated_injective {head head' : String} (hhead : '[' ∉ head.toList)
    (hhead' : '[' ∉ head'.toList) (hes : OptionEntry.AllWritable Literal.Explicit es)
    (hfs : OptionEntry.AllWritable Literal.Explicit fs)
    (h : annotated head es = annotated head' fs) :
    head = head' ∧ OptionEntry.canonicalAll es = OptionEntry.canonicalAll fs := by
  have hbracket : ∀ {head : String} {e : OptionEntry}, (head ++ " [" ++ e.text ++ "];").toList =
      (head ++ " ").toList ++ '[' :: (e.text ++ "];").toList := fun {head e} => by simp
  have hplain : ∀ {head head' : String} {e : OptionEntry}, '[' ∉ head.toList →
      head ++ ";" ≠ head' ++ " [" ++ e.text ++ "];" := by
    intro head head' e hhead h
    have hmem : '[' ∈ (head ++ ";").toList := by
      rw [h, hbracket]
      exact List.mem_append_right _ List.mem_cons_self
    simp [hhead] at hmem
  match es, fs, h with
  | [], [], h => exact ⟨(String.append_left_inj _).1 (Layout.line.inj h), rfl⟩
  | [], [f], h => exact absurd (Layout.line.inj h) (hplain hhead)
  | [e], [], h => exact absurd (Layout.line.inj h).symm (hplain hhead')
  | [e], [f], h =>
    have hline := congrArg String.toList (Layout.line.inj h)
    rw [hbracket, hbracket] at hline
    obtain ⟨hfront, hrest⟩ := Text.cut_at (by simpa using hhead) (by simpa using hhead') hline
    refine ⟨(String.append_left_inj _).1 (String.toList_inj.1 hfront), ?_⟩
    refine canonicalAll_of_texts hes hfs ?_
    rw [List.map_singleton, List.map_singleton,
      (String.append_left_inj _).1 (String.toList_inj.1 hrest)]
  | e :: e' :: es, f :: f' :: fs, h =>
    obtain ⟨-, hhead, hbody⟩ := Layout.block.inj h
    have hlines := (List.map_inj_right fun _ _ => Layout.line.inj).1 hbody
    exact ⟨hhead, canonicalAll_of_texts hes hfs (commaLines_injective hlines)⟩

/-! ## Reading fields -/

section Fields

variable {Q : Literal → Prop} {d e : FieldDescriptor}

theorem label_cases (d : FieldDescriptor) :
    label d = "" ∨ ∃ word ∈ ["repeated", "optional"], label d = word ++ " " := by
  unfold label
  split
  · exact .inr ⟨"repeated", by decide, rfl⟩
  · split
    · exact .inr ⟨"optional", by decide, rfl⟩
    · exact .inl rfl

/-- The first word of a type: all of it, or the beginning of a map. -/
theorem exists_first_word (h : d.Writable Q) : ∃ word, ' ' ∉ word.toList ∧
    (d.protoType = word ∨ '<' ∈ word.toList ∧ ∃ more, d.protoType = word ++ " " ++ more) := by
  have hblank : ∀ {s : String}, Name.isDotted s = true → ' ' ∉ s.toList := fun hs hmem =>
    absurd ((Name.isPart_of_dottedChars _).1 hs _ hmem) (by decide)
  rcases h.type with hname | ⟨key, value, htype, hkey, -, -⟩
  · exact ⟨d.protoType, hblank hname, .inl rfl⟩
  · refine ⟨"map<" ++ key ++ ",", ?_, .inr ⟨?_, value ++ ">", ?_⟩⟩
    · simpa using hblank hkey
    · simp
    · rw [htype, ← String.toList_inj]
      simp

/-- A blank ends the first word in one way. -/
theorem words_injective {v w s t : String} (hv : ' ' ∉ v.toList) (hw : ' ' ∉ w.toList)
    (h : v ++ " " ++ s = w ++ " " ++ t) : v = w ∧ s = t := by
  have hsplit : ∀ v s : String, (v ++ " " ++ s).toList = v.toList ++ ' ' :: s.toList :=
    fun v s => by simp
  have hlist := congrArg String.toList h
  rw [hsplit, hsplit] at hlist
  obtain ⟨hword, hrest⟩ := Text.cut_at hv hw hlist
  exact ⟨String.toList_inj.1 hword, String.toList_inj.1 hrest⟩

/-- A blank begins the last word in one way. -/
theorem last_words_injective {v w s t : String} (hs : ' ' ∉ s.toList) (ht : ' ' ∉ t.toList)
    (h : v ++ " " ++ s = w ++ " " ++ t) : v = w ∧ s = t := by
  have hsplit : ∀ v s : String, (v ++ " " ++ s).toList = v.toList ++ ' ' :: s.toList :=
    fun v s => by simp
  have hlist := congrArg String.toList h
  rw [hsplit, hsplit] at hlist
  obtain ⟨hfront, hword⟩ := Text.cut_at_last hs ht hlist
  exact ⟨String.toList_inj.1 hfront, String.toList_inj.1 hword⟩

theorem blank_not_mem_nat (n : Nat) : ' ' ∉ (toString n).toList := fun hmem =>
  absurd (Text.isDigit_of_mem_toString hmem) (by decide)

theorem blank_not_mem_name {name : String} (h : Name.isIdentifier name = true) :
    ' ' ∉ name.toList := Name.not_mem_of_isIdentifier h (by decide)

/-- A type without a label does not begin with a label. -/
theorem protoType_ne (hd : d.Writable Q) {word : String} (hword : word ∈ ["repeated", "optional"])
    (t : String) : d.protoType ≠ word ++ " " ++ t := by
  have hall : ∀ w ∈ ["repeated", "optional"], ' ' ∉ w.toList ∧ '<' ∉ w.toList := by decide
  obtain ⟨hblank, hangle⟩ := hall word hword
  obtain ⟨first, hfirst, rfl | ⟨hmap, more, hmore⟩⟩ := exists_first_word hd
  · intro h
    rw [h] at hfirst
    simp at hfirst
  · intro h
    rw [hmore] at h
    rw [(words_injective hfirst hblank h).1] at hmap
    exact hangle hmap

/-- The label and the type of a field are told apart. -/
theorem token_injective (hd : d.Writable Q) (he : e.Writable Q)
    (h : label d ++ d.protoType = label e ++ e.protoType) :
    label d = label e ∧ d.protoType = e.protoType := by
  have hblank : ∀ w ∈ ["repeated", "optional"], ' ' ∉ w.toList := by decide
  obtain hd' | ⟨v, hv, hd'⟩ := label_cases d
  · obtain he' | ⟨w, hw, he'⟩ := label_cases e
    · rw [hd', he', String.empty_append, String.empty_append] at h
      exact ⟨hd'.trans he'.symm, h⟩
    · rw [hd', he', String.empty_append] at h
      exact absurd h (protoType_ne hd hw _)
  · obtain he' | ⟨w, hw, he'⟩ := label_cases e
    · rw [hd', he', String.empty_append] at h
      exact absurd h.symm (protoType_ne he hv _)
    · rw [hd', he'] at h
      obtain ⟨rfl, htype⟩ := words_injective (hblank v hv) (hblank w hw) h
      exact ⟨hd'.trans he'.symm, htype⟩

/-- **The head of a field gives its label, type, name and number**, read from the last word. -/
theorem fieldHead_injective (hd : d.Writable Q) (he : e.Writable Q)
    (h : fieldHead d = fieldHead e) : label d = label e ∧ d.protoType = e.protoType ∧
      d.name = e.name ∧ d.number = e.number := by
  have hsplit : ∀ d : FieldDescriptor, fieldHead d =
      label d ++ d.protoType ++ " " ++ d.name ++ " =" ++ " " ++ toString d.number := fun d => by
    rw [fieldHead, ← String.toList_inj]
    simp
  rw [hsplit, hsplit] at h
  obtain ⟨hfront, hnumber⟩ :=
    last_words_injective (blank_not_mem_nat _) (blank_not_mem_nat _) h
  obtain ⟨htoken, hname⟩ := last_words_injective (blank_not_mem_name hd.name)
    (blank_not_mem_name he.name) ((String.append_left_inj _).1 hfront)
  obtain ⟨hlabel, htype⟩ := token_injective hd he htoken
  exact ⟨hlabel, htype, hname, Text.nat_of_digits (congrArg String.toList hnumber)⟩

/-- **A field is read back** from its layout. -/
theorem outline_of_fieldLayout (hd : d.Writable Literal.Explicit)
    (he : e.Writable Literal.Explicit) (h : fieldLayout d = fieldLayout e) :
    d.outline = e.outline := by
  have hbracket : ∀ {d : FieldDescriptor}, d.Writable Literal.Explicit →
      '[' ∉ (fieldHead d).toList := fun hd hmem =>
    absurd (isPlain_fieldHead hd _ hmem) (by decide)
  obtain ⟨hhead, hassigned⟩ :=
    annotated_injective (hbracket hd) (hbracket he) hd.assigned he.assigned h
  obtain ⟨hlabel, htype, hname, hnumber⟩ := fieldHead_injective hd he hhead
  rw [FieldDescriptor.outline, FieldDescriptor.outline, hlabel, htype, hname, hnumber, hassigned]

theorem outlines_of_fieldLayouts {ds es : List FieldDescriptor}
    (hd : ∀ d ∈ ds, d.Writable Literal.Explicit) (he : ∀ e ∈ es, e.Writable Literal.Explicit)
    (h : ds.map fieldLayout = es.map fieldLayout) :
    ds.map FieldDescriptor.outline = es.map FieldDescriptor.outline :=
  map_eq_of_map_eq (fun d hmem e hmem' => outline_of_fieldLayout (hd d hmem) (he e hmem')) h

/-- A field that begins with a word of its own has it as its type, and no label. -/
theorem fieldHead_word (hd : d.Writable Q) {word more rest : String}
    (hword : ' ' ∉ word.toList ∧ '<' ∉ word.toList ∧ word ∉ ["repeated", "optional"])
    (h : fieldHead d ++ more = word ++ " " ++ rest) :
    label d = "" ∧ d.protoType = word ∧
      rest = d.name ++ " " ++ ("= " ++ toString d.number ++ more) := by
  obtain ⟨hblank, hangle, hlabel⟩ := hword
  have hsplit : fieldHead d ++ more =
      label d ++ (d.protoType ++ " " ++ (d.name ++ " " ++ ("= " ++ toString d.number ++ more))) := by
    rw [fieldHead, ← String.toList_inj]
    simp
  rw [hsplit] at h
  obtain hnone | ⟨w, hw, hsome⟩ := label_cases d
  · rw [hnone, String.empty_append] at h
    obtain ⟨first, hfirst, rfl | ⟨hmap, part, hpart⟩⟩ := exists_first_word hd
    · obtain ⟨htype, hrest⟩ := words_injective hfirst hblank h
      exact ⟨hnone, htype, hrest.symm⟩
    · rw [hpart, String.append_assoc, String.append_assoc] at h
      rw [(words_injective hfirst hblank h).1] at hmap
      exact absurd hmap hangle
  · rw [hsome] at h
    have hall : ∀ w ∈ ["repeated", "optional"], ' ' ∉ w.toList := by decide
    exact absurd ((words_injective (hall w hw) hblank h).1 ▸ hw) hlabel

end Fields

/-! ## Reading what is reserved -/

/-- The ends of a range as they are written. -/
def rangeChars (r : ReservedNumbers) : List Char :=
  (rangeText (toString r.first) (toString r.last)).toList

/-- What stands behind the first number of a range: nothing more of it, or its last number. -/
theorem exists_behind_first (r : ReservedNumbers) (s : List Char) : ∃ rest,
    rangeChars r ++ s = (toString r.first).toList ++ rest ∧
      (rest = s ∧ r.first = r.last ∨
        rest = [' ', 't', 'o', ' '] ++ ((toString r.last).toList ++ s)) := by
  unfold rangeChars rangeText
  split
  · next heq =>
    have hlast := Text.readsBack_int r.first r.last trivial [] [] nofun nofun
      (congrArg (fun t : String => t.toList ++ []) heq)
    exact ⟨s, rfl, .inl ⟨rfl, hlast.1⟩⟩
  · refine ⟨_, ?_, .inr rfl⟩
    rw [String.toList_append, String.toList_append, List.append_assoc, List.append_assoc]
    rfl

/-- A range ends at the first character that is no digit and no blank. -/
def endsRange (c : Char) : Bool := Text.endsNumber c && c != ' '

theorem readsBack_range (r : ReservedNumbers) :
    Text.ReadsBack endsRange rangeChars id (fun _ => True) r := by
  intro q _ s t hs ht h
  have hnumber : ∀ {s : List Char}, (∀ c ∈ s.head?, endsRange c = true) →
      ∀ c ∈ s.head?, Text.endsNumber c = true := fun hs c hc => (Bool.and_eq_true_iff.1 (hs c hc)).1
  have hblank : ∀ {s : List Char}, (∀ c ∈ s.head?, endsRange c = true) →
      ∀ rest, s ≠ [' ', 't', 'o', ' '] ++ rest := by
    rintro s hs rest rfl
    exact absurd (hs ' ' rfl) (by decide)
  have hstops : ∀ {s rest : List Char} {p : Prop} {more : List Char},
      (∀ c ∈ s.head?, endsRange c = true) → (rest = s ∧ p ∨ rest = [' ', 't', 'o', ' '] ++ more) →
        ∀ c ∈ rest.head?, Text.endsNumber c = true := by
    rintro s rest p more hs (⟨rfl, -⟩ | rfl) c hc
    · exact hnumber hs c hc
    · cases hc
      decide
  obtain ⟨behind, hr, hbehind⟩ := exists_behind_first r s
  obtain ⟨behind', hq, hbehind'⟩ := exists_behind_first q t
  rw [hr, hq] at h
  obtain ⟨hfirst, rfl⟩ := Text.readsBack_int r.first q.first trivial _ _
    (hstops hs hbehind) (hstops ht hbehind') h
  obtain ⟨first, last⟩ := r
  obtain ⟨first', last'⟩ := q
  obtain rfl : first = first' := hfirst
  rcases hbehind with ⟨rfl, hlast⟩ | hlast
  · rcases hbehind' with ⟨rfl, hlast'⟩ | hlast'
    · obtain rfl : first = last := hlast
      obtain rfl : first = last' := hlast'
      exact ⟨rfl, rfl⟩
    · exact absurd hlast' (hblank hs _)
  · rcases hbehind' with ⟨rfl, -⟩ | hlast'
    · exact absurd hlast (hblank ht _)
    · obtain ⟨hlast, hrest⟩ := Text.readsBack_int last last' trivial _ _ (hnumber hs) (hnumber ht)
        (List.append_cancel_left (hlast.symm.trans hlast'))
      obtain rfl : last = last' := hlast
      exact ⟨rfl, hrest⟩

/-- A statement that reserves what is written in the list. -/
def reservedText (ts : List String) : String := "reserved " ++ ", ".intercalate ts ++ ";"

def reservedTexts (ts : List String) : List String := if ts.isEmpty then [] else [reservedText ts]

theorem reserved_eq (ranges : List ReservedNumbers) (names : List String) :
    reserved (numberTexts ranges) names =
      reservedTexts (ranges.map fun r => rangeText (toString r.first) (toString r.last)) ++
        reservedTexts (names.map Text.quote) := by
  rw [reserved, numberTexts, reservedTexts, reservedTexts, List.isEmpty_map, List.isEmpty_map,
    List.isEmpty_map, List.map_map]
  rfl

theorem intercalate_of_reservedTexts {ts us : List String}
    (h : reservedTexts ts = reservedTexts us) : ", ".intercalate ts = ", ".intercalate us := by
  unfold reservedTexts at h
  split at h
  · next hts =>
    split at h
    · next hus => rw [List.isEmpty_iff.1 hts, List.isEmpty_iff.1 hus]
    · cases h
  · split at h
    · cases h
    · exact (String.append_right_inj _).1 ((String.append_left_inj _).1 (List.cons.inj h).1)

/-- A list of what is read back, written with commas in between, gives its elements. -/
theorem map_eq_of_intercalate {α : Type} {stops : Char → Bool} {text : α → String}
    (hcomma : stops ',' = true) (hclose : stops ';' = true)
    (hopen : ∀ (a : α) (r : List Char), ((text a).toList ++ r).head? ≠ some ';')
    (hreads : ∀ a, Text.ReadsBack stops (fun a => (text a).toList) id (fun _ => True) a)
    {as bs : List α} (h : ", ".intercalate (as.map text) = ", ".intercalate (bs.map text)) :
    as = bs := by
  have hlist := congrArg String.toList h
  rw [String.toList_intercalate, String.toList_intercalate, List.map_map, List.map_map] at hlist
  have hmap := (Text.readsBack_delimited (r := []) (s := []) hcomma hclose (by decide)
    (fun a _ => hopen a) (fun _ _ => trivial) (fun a _ => hreads a) (fun _ _ => trivial)
    (congrArg (· ++ [';']) hlist)).1
  rwa [List.map_id, List.map_id] at hmap

/-- What a statement reserves begins like its first element. -/
theorem exists_head_reservedText {ts : List String} (hne : ts ≠ []) {p : Char → Prop}
    (h : ∀ t ∈ ts, ∃ c cs, t.toList = c :: cs ∧ p c) :
    ∃ c cs, (reservedText ts).toList = "reserved ".toList ++ c :: cs ∧ p c := by
  cases ts with
  | nil => exact absurd rfl hne
  | cons t ts =>
    obtain ⟨c, cs, ht, hc⟩ := h t List.mem_cons_self
    have hlist : (reservedText (t :: ts)).toList = "reserved ".toList ++
        (t.toList ++ ((ts.map String.toList).flatMap (", ".toList ++ ·) ++ ";".toList)) := by
      rw [reservedText, String.toList_append, String.toList_append, String.toList_intercalate,
        List.map_cons, Text.intercalate_cons, List.append_assoc, List.append_assoc]
    rw [ht, List.cons_append] at hlist
    exact ⟨c, _, hlist, hc⟩

def IsReservedText (t : String) : Prop :=
  ∃ c cs, t.toList = "reserved ".toList ++ c :: cs ∧ (c.isDigit = true ∨ c = '-' ∨ c = '"')

theorem exists_head_int (i : Int) :
    ∃ c cs, (toString i).toList = c :: cs ∧ (c.isDigit = true ∨ c = '-') := by
  obtain ⟨c, cs, hdigits, hc⟩ := Text.exists_digit i.natAbs
  rcases Text.toString_int i with h | h
  · exact ⟨c, cs, by rw [h, hdigits], .inl hc⟩
  · exact ⟨'-', c :: cs, by rw [h, String.toList_append, hdigits]; rfl, .inr rfl⟩

theorem exists_head_range (r : ReservedNumbers) : ∃ c cs,
    (rangeText (toString r.first) (toString r.last)).toList = c :: cs ∧
      (c.isDigit = true ∨ c = '-') := by
  obtain ⟨rest, hrange, -⟩ := exists_behind_first r []
  obtain ⟨c, cs, hfirst, hc⟩ := exists_head_int r.first
  rw [List.append_nil, hfirst] at hrange
  exact ⟨c, _, hrange, hc⟩

theorem exists_head_quote (s : String) : ∃ c cs, (Text.quote s).toList = c :: cs ∧ c = '"' :=
  ⟨'"', _, Text.quote_eq s, rfl⟩

/-- The statements of a list of texts with a common beginning. -/
theorem forall_reservedTexts {P : String → Prop} {ts : List String}
    (h : ts ≠ [] → P (reservedText ts)) : ∀ t ∈ reservedTexts ts, P t := by
  unfold reservedTexts
  split
  · exact nofun
  · next hne => exact List.forall_mem_singleton.2 (h fun he => hne (List.isEmpty_iff.2 he))

theorem isReservedText (ranges : List ReservedNumbers) (names : List String) :
    ∀ t ∈ reserved (numberTexts ranges) names, IsReservedText t := by
  rw [reserved_eq]
  refine List.forall_mem_append.2 ⟨forall_reservedTexts fun hne => ?_,
    forall_reservedTexts fun hne => ?_⟩
  · obtain ⟨c, cs, htext, hc⟩ := exists_head_reservedText hne
      (List.forall_mem_map.2 fun r _ => exists_head_range r)
    exact ⟨c, cs, htext, hc.imp_right .inl⟩
  · obtain ⟨c, cs, htext, hc⟩ := exists_head_reservedText hne
      (List.forall_mem_map.2 fun n _ => exists_head_quote n)
    exact ⟨c, cs, htext, .inr (.inr hc)⟩

/-- A statement that reserves numbers: it goes on with something else than a quote. -/
def ReservesNumbers (t : String) : Prop :=
  ∃ c cs, t.toList = "reserved ".toList ++ c :: cs ∧ c ≠ '"'

theorem reservesNumbers_ranges (ranges : List ReservedNumbers) :
    ∀ t ∈ reservedTexts (ranges.map fun r => rangeText (toString r.first) (toString r.last)),
      ReservesNumbers t := by
  refine forall_reservedTexts fun hne => ?_
  obtain ⟨c, cs, htext, hc⟩ := exists_head_reservedText hne
    (List.forall_mem_map.2 fun r _ => exists_head_range r)
  refine ⟨c, cs, htext, ?_⟩
  rintro rfl
  rcases hc with hc | hc <;> exact absurd hc (by decide)

theorem not_reservesNumbers_names (names : List String) :
    ∀ t ∈ reservedTexts (names.map Text.quote), ¬ReservesNumbers t := by
  refine forall_reservedTexts fun hne => ?_
  obtain ⟨c, cs, htext, rfl⟩ := exists_head_reservedText hne
    (List.forall_mem_map.2 fun n _ => exists_head_quote n)
  rintro ⟨d, ds, htext', hd⟩
  exact hd (List.cons.inj (List.append_cancel_left (htext'.symm.trans htext))).1

/-- **What is reserved is read back** from its statements: numbers do not begin with a quote. -/
theorem reserved_injective {ranges ranges' : List ReservedNumbers} {names names' : List String}
    (h : reserved (numberTexts ranges) names = reserved (numberTexts ranges') names') :
    ranges = ranges' ∧ names = names' := by
  have hnames : ∀ names : List String, ∀ t ∈ (reservedTexts (names.map Text.quote)).head?,
      ¬ReservesNumbers t :=
    fun names t ht => not_reservesNumbers_names names t (List.mem_of_head? ht)
  rw [reserved_eq, reserved_eq] at h
  obtain ⟨hnumbers, hquoted⟩ :=
    Text.append_cut (reservesNumbers_ranges _) (reservesNumbers_ranges _) (hnames _) (hnames _) h
  constructor
  · refine map_eq_of_intercalate (by decide) (by decide) (fun r rest => ?_)
      readsBack_range (intercalate_of_reservedTexts hnumbers)
    obtain ⟨c, cs, htext, hc⟩ := exists_head_range r
    rw [htext]
    rintro ⟨⟩
    rcases hc with hc | hc <;> exact absurd hc (by decide)
  · refine map_eq_of_intercalate rfl rfl (fun n rest => ?_)
      Text.readsBack_quote (intercalate_of_reservedTexts hquoted)
    obtain ⟨c, cs, htext, rfl⟩ := exists_head_quote n
    rw [htext]
    rintro ⟨⟩

end ProtoText
end WireSchema

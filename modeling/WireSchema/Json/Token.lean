import WireSchema.Text.Hex

/-!
# JSON tokens

Brackets, colons, commas and texts: the part of JSON that lists and objects of texts are written in.
White space between tokens is dropped. Numbers, truth values and null are no tokens here.
-/

namespace WireSchema.Json

inductive Token where
  | mark (c : Char)
  | string (chars : List Char)
deriving DecidableEq, Repr

namespace Token

/-! ## Texts -/

/-- The number of four hexadecimal digits. -/
def hexUnit? (a b c d : Char) : Option Nat := Text.hexNumber? [a, b, c, d]

def isLead (unit : Nat) : Bool := 0xd800 ≤ unit && unit ≤ 0xdbff
def isTrail (unit : Nat) : Bool := 0xdc00 ≤ unit && unit ≤ 0xdfff

/-- The character of a surrogate pair. -/
def ofPair (lead trail : Nat) : Char :=
  Char.ofNat (0x10000 + (lead - 0xd800) * 0x400 + (trail - 0xdc00))

/-- The character that stands for itself after a backslash. -/
def simpleEscape? : Char → Option Char
  | '"' => some '"'
  | '\\' => some '\\'
  | '/' => some '/'
  | 'b' => some '\x08'
  | 'f' => some '\x0c'
  | 'n' => some '\n'
  | 'r' => some '\r'
  | 't' => some '\t'
  | _ => none

/-- The first character of a text, escaped or not, and what follows it. -/
def char? : List Char → Option (Char × List Char)
  | '\\' :: 'u' :: a :: b :: c :: d :: cs =>
    match hexUnit? a b c d, cs with
    | some unit, '\\' :: 'u' :: e :: f :: g :: h :: rest =>
      if isLead unit then
        match hexUnit? e f g h with
        | some trail => if isTrail trail then some (ofPair unit trail, rest) else none
        | none => none
      else if isTrail unit then none
      else some (Char.ofNat unit, cs)
    | some unit, _ => if isLead unit || isTrail unit then none else some (Char.ofNat unit, cs)
    | none, _ => none
  | '\\' :: c :: cs => (simpleEscape? c).map fun e => (e, cs)
  | '\\' :: [] => none
  | c :: cs => if c.toNat < 32 then none else some (c, cs)
  | [] => none

theorem length_of_char? {cs rest : List Char} {c : Char} (h : char? cs = some (c, rest)) :
    rest.length < cs.length := by
  unfold char? at h
  split at h
  · split at h
    · split at h
      · split at h
        · split at h
          · simp only [Option.some.injEq, Prod.mk.injEq] at h
            obtain ⟨-, rfl⟩ := h
            simp only [List.length_cons]
            omega
          · simp at h
        · simp at h
      · split at h
        · simp at h
        · simp only [Option.some.injEq, Prod.mk.injEq] at h
          obtain ⟨-, rfl⟩ := h
          simp
    · split at h
      · simp at h
      · simp only [Option.some.injEq, Prod.mk.injEq] at h
        obtain ⟨-, rfl⟩ := h
        simp only [List.length_cons]
        omega
    · simp at h
  · obtain ⟨e, -, h⟩ := Option.map_eq_some_iff.1 h
    simp only [Prod.mk.injEq] at h
    obtain ⟨-, rfl⟩ := h
    simp only [List.length_cons]
    omega
  · simp at h
  · split at h
    · simp at h
    · simp only [Option.some.injEq, Prod.mk.injEq] at h
      obtain ⟨-, rfl⟩ := h
      simp
  · simp at h

/-- The rest of a text up to its closing quote, and what follows that. -/
def body? : List Char → Option (List Char × List Char)
  | '"' :: cs => some ([], cs)
  | cs =>
    match _h : char? cs with
    | some (c, rest) => (body? rest).map fun (text, after) => (c :: text, after)
    | none => none
termination_by cs => cs.length
decreasing_by exact length_of_char? _h

theorem length_of_body? {cs text rest : List Char} (h : body? cs = some (text, rest)) :
    rest.length < cs.length := by
  fun_induction body? cs generalizing text rest with
  | case1 cs =>
    simp only [Option.some.injEq, Prod.mk.injEq] at h
    obtain ⟨-, rfl⟩ := h
    simp
  | case2 cs _ c after hc ih =>
    obtain ⟨⟨text', rest'⟩, hb, h⟩ := Option.map_eq_some_iff.1 h
    simp only [Prod.mk.injEq] at h
    obtain ⟨-, rfl⟩ := h
    exact Nat.lt_trans (ih hb) (length_of_char? hc)
  | case3 => simp at h

/-! ## Tokens -/

def isSpace (c : Char) : Bool := c == ' ' || c == '\t' || c == '\n' || c == '\r'

def isMark (c : Char) : Bool :=
  c == '[' || c == ']' || c == '\x7b' || c == '\x7d' || c == ':' || c == ','

/-- The tokens of a text, if nothing else stands in it. -/
def scan? : List Char → Option (List Token)
  | [] => some []
  | '"' :: cs =>
    match _h : body? cs with
    | some (text, rest) => (scan? rest).map (string text :: ·)
    | none => none
  | c :: cs =>
    if isSpace c then scan? cs
    else if isMark c then (scan? cs).map (mark c :: ·)
    else none
termination_by cs => cs.length
decreasing_by
  · have := length_of_body? _h
    simp only [List.length_cons]
    omega
  · simp
  · simp

end Token
end WireSchema.Json

import Mathlib.Logic.Function.Basic
import WireSchema.Text.Quoted

/-!
# Reading quoted text

A quoted text is read back glyph by glyph: a glyph is a character, or a byte that is no printable
ASCII character and so is written with two hexadecimal digits. No glyph is written as the beginning
of another or as a quote, so a quoted text determines its glyphs and where it ends.

* `Text.escapeChar_cases`: the three ways in which a character is escaped.
* `Text.readGlyph_escaped`: a reader gets back the glyph that was written, whatever follows.
* `Text.glyphs_injective`: two quoted texts that begin the same text are equal.
* `Text.quote_injective`: different texts are quoted differently; a byte string is quoted like a text
  only if all its bytes are printable (`Text.Glyph.ofByte`).
-/

namespace WireSchema.Text

/-! ## Escapes -/

/-- The characters with an escape of their own, each with the letter of its escape. -/
def escapes : List (Char × Char) :=
  [('"', '"'), ('\\', '\\'), ('\x08', 'b'), ('\x0c', 'f'), ('\n', 'n'), ('\r', 'r'), ('\t', 't')]

/-- A character is escaped by a letter, as a control character by its number, or not at all. -/
theorem escapeChar_cases {P : Char → List Char → Prop} (letter : ∀ e ∈ escapes, P e.1 ['\\', e.2])
    (control : ∀ n < 32, P (Char.ofNat n) (['\\', 'u', '0', '0'] ++ hexPair n))
    (plain : ∀ c, c ≠ '"' → c ≠ '\\' → c ≠ '\n' → P c [c]) (c : Char) : P c (escapeChar c) := by
  by_cases hletter : c ∈ escapes.map Prod.fst
  · obtain ⟨e, he, rfl⟩ := List.mem_map.1 hletter
    have hall : ∀ e ∈ escapes, escapeChar e.1 = ['\\', e.2] := by decide
    rw [hall e he]
    exact letter e he
  · obtain ⟨hquote, hslash, hback, hfeed, hnewline, hreturn, htab⟩ : c ≠ '"' ∧ c ≠ '\\' ∧
        c ≠ '\x08' ∧ c ≠ '\x0c' ∧ c ≠ '\n' ∧ c ≠ '\r' ∧ c ≠ '\t' := by
      simpa [escapes] using hletter
    rw [escapeChar, if_neg hquote, if_neg hslash, if_neg hback, if_neg hfeed, if_neg hnewline,
      if_neg hreturn, if_neg htab]
    split
    · next hcontrol =>
      have hown := control c.toNat hcontrol
      rwa [Char.ofNat_toNat] at hown
    · exact plain c hquote hslash hnewline

/-! ## Glyphs -/

/-- What stands for itself inside of quotes. -/
inductive Glyph where
  | char (c : Char)
  /-- A byte outside of printable ASCII. -/
  | byte (b : UInt8)
deriving DecidableEq

namespace Glyph

/-- The glyph of a byte of a byte string. -/
def ofByte (b : UInt8) : Glyph :=
  if 0x20 ≤ b && b ≤ 0x7e then char (Char.ofNat b.toNat) else byte b

/-- How a glyph is written. -/
def escaped : Glyph → List Char
  | char c => escapeChar c
  | byte b => ['\\', 'x'] ++ hexPair b.toNat

theorem escaped_ofByte (b : UInt8) : (ofByte b).escaped = escapeByte b := by
  have hall : ∀ n < 256, (ofByte (UInt8.ofNat n)).escaped = escapeByte (UInt8.ofNat n) := by
    decide +kernel
  have hb := hall b.toNat b.toNat_lt
  rwa [UInt8.ofNat_toNat] at hb

/-- The byte that a glyph of a byte string stands for. -/
def toByte : Glyph → UInt8
  | char c => UInt8.ofNat c.toNat
  | byte b => b

theorem toByte_ofByte (b : UInt8) : (ofByte b).toByte = b := by
  have hall : ∀ n < 256, (ofByte (UInt8.ofNat n)).toByte = UInt8.ofNat n := by decide +kernel
  have hb := hall b.toNat b.toNat_lt
  rwa [UInt8.ofNat_toNat] at hb

theorem ofByte_injective : Function.Injective ofByte := fun a b h => by
  rw [← toByte_ofByte a, h, toByte_ofByte]

end Glyph

/-- The glyph that a text begins with, if it begins with one, and what follows. -/
def readGlyph : List Char → Option (Glyph × List Char)
  | '\\' :: '"' :: cs => some (.char '"', cs)
  | '\\' :: '\\' :: cs => some (.char '\\', cs)
  | '\\' :: 'b' :: cs => some (.char '\x08', cs)
  | '\\' :: 'f' :: cs => some (.char '\x0c', cs)
  | '\\' :: 'n' :: cs => some (.char '\n', cs)
  | '\\' :: 'r' :: cs => some (.char '\r', cs)
  | '\\' :: 't' :: cs => some (.char '\t', cs)
  | '\\' :: 'u' :: '0' :: '0' :: high :: low :: cs =>
    (hexNumber? [high, low]).map fun n => (.char (Char.ofNat n), cs)
  | '\\' :: 'x' :: high :: low :: cs =>
    (hexNumber? [high, low]).map fun n => (.byte (UInt8.ofNat n), cs)
  | '\\' :: _ => none
  | '"' :: _ => none
  | c :: cs => some (.char c, cs)
  | [] => none

theorem hexNumber?_hexPair {n : Nat} (h : n < 256) : hexNumber? (hexPair n) = some n := by
  have hall : ∀ n < 256, hexNumber? (hexPair n) = some n := by decide +kernel
  exact hall n h

/-- **A glyph is read as it was written**, whatever follows it. -/
theorem readGlyph_escaped (g : Glyph) (cs : List Char) :
    readGlyph (g.escaped ++ cs) = some (g, cs) := by
  cases g with
  | byte b =>
    have hread : readGlyph ((Glyph.byte b).escaped ++ cs) =
        (hexNumber? (hexPair b.toNat)).map fun n => (.byte (UInt8.ofNat n), cs) := rfl
    rw [hread, hexNumber?_hexPair b.toNat_lt, Option.map_some, UInt8.ofNat_toNat]
  | char c =>
    refine escapeChar_cases (P := fun c written =>
      readGlyph (written ++ cs) = some (.char c, cs)) ?_ (fun n hn => ?_)
      (fun c hquote hslash _ => ?_) c
    · simp only [escapes, List.forall_mem_cons]
      exact ⟨rfl, rfl, rfl, rfl, rfl, rfl, rfl, nofun⟩
    · have hread : readGlyph (['\\', 'u', '0', '0'] ++ hexPair n ++ cs) =
          (hexNumber? (hexPair n)).map fun n => (.char (Char.ofNat n), cs) := rfl
      rw [hread, hexNumber?_hexPair (by omega), Option.map_some]
    · rw [List.singleton_append]
      unfold readGlyph
      split <;> simp_all

/-- **Two runs of glyphs up to a quote** at the beginning of the same text are equal. -/
theorem glyphs_injective {gs hs : List Glyph} {r s : List Char}
    (h : gs.flatMap Glyph.escaped ++ '"' :: r = hs.flatMap Glyph.escaped ++ '"' :: s) :
    gs = hs ∧ r = s := by
  induction gs generalizing hs with
  | nil =>
    cases hs with
    | nil => exact ⟨rfl, (List.cons.inj h).2⟩
    | cons g hs =>
      rw [List.flatMap_cons, List.append_assoc] at h
      have hread := congrArg readGlyph h
      rw [readGlyph_escaped] at hread
      cases hread
  | cons g gs ih =>
    cases hs with
    | nil =>
      rw [List.flatMap_cons, List.append_assoc] at h
      have hread := congrArg readGlyph h
      rw [readGlyph_escaped] at hread
      cases hread
    | cons g' hs =>
      rw [List.flatMap_cons, List.append_assoc, List.flatMap_cons, List.append_assoc] at h
      have hread := congrArg readGlyph h
      rw [readGlyph_escaped, readGlyph_escaped] at hread
      obtain ⟨hg, hrest⟩ := Prod.mk.inj (Option.some.inj hread)
      obtain ⟨hgs, hr⟩ := ih hrest
      exact ⟨by rw [hg, hgs], hr⟩

theorem quote_eq (s : String) : (quote s).toList =
    '"' :: ((s.toList.map Glyph.char).flatMap Glyph.escaped ++ '"' :: []) := by
  rw [quote, String.toList_ofList, List.flatMap_map, List.cons_append]
  rfl

theorem quoteBytes_eq (bs : List UInt8) : (quoteBytes bs).toList =
    '"' :: ((bs.map Glyph.ofByte).flatMap Glyph.escaped ++ '"' :: []) := by
  rw [quoteBytes, String.toList_ofList, List.flatMap_map, List.cons_append]
  simp only [Glyph.escaped_ofByte]

/-- **A quoted text is read back** where it begins a text, and so is what stands behind it. -/
theorem quote_append_injective {s t : String} {r r' : List Char}
    (h : (quote s).toList ++ r = (quote t).toList ++ r') : s = t ∧ r = r' := by
  rw [quote_eq, quote_eq, List.cons_append, List.cons_append, List.append_assoc,
    List.append_assoc] at h
  obtain ⟨hglyphs, hrest⟩ := glyphs_injective (List.cons.inj h).2
  exact ⟨String.toList_inj.1 ((List.map_inj_right fun _ _ => Glyph.char.inj).1 hglyphs), hrest⟩

/-- **Quoting is injective.** -/
theorem quote_injective : Function.Injective quote := fun s t h => by
  have hempty : (quote s).toList ++ [] = (quote t).toList ++ [] := by rw [h]
  exact (quote_append_injective hempty).1

end WireSchema.Text

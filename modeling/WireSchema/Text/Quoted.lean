import WireSchema.Text.Hex

/-!
# Quoted text

Double-quoted forms of a text and of a byte string. A text keeps every character but the quote, the
backslash and the control characters below space, which have the escapes of JSON. A byte string
keeps printable ASCII and writes every other byte as two hexadecimal digits.
-/

namespace WireSchema.Text

/-- How one character stands inside a quoted text. -/
def escapeChar (c : Char) : List Char :=
  if c = '"' then ['\\', '"']
  else if c = '\\' then ['\\', '\\']
  else if c = '\x08' then ['\\', 'b']
  else if c = '\x0c' then ['\\', 'f']
  else if c = '\n' then ['\\', 'n']
  else if c = '\r' then ['\\', 'r']
  else if c = '\t' then ['\\', 't']
  else if c.toNat < 32 then ['\\', 'u', '0', '0'] ++ hexPair c.toNat
  else [c]

/-- How one byte stands inside a quoted byte string. -/
def escapeByte (b : UInt8) : List Char :=
  if b = 0x22 then ['\\', '"']
  else if b = 0x5c then ['\\', '\\']
  else if 0x20 ≤ b && b ≤ 0x7e then [Char.ofNat b.toNat]
  else ['\\', 'x'] ++ hexPair b.toNat

def quote (s : String) : String := String.ofList ('"' :: s.toList.flatMap escapeChar ++ ['"'])

def quoteBytes (bs : List UInt8) : String := String.ofList ('"' :: bs.flatMap escapeByte ++ ['"'])

end WireSchema.Text

import TruthTable.Text.Printable

/-!
# Quoted text

How a text is written inside a message: between single quotes, or between double quotes when it
holds a single quote and no double quote. A backslash stands before the quote in use, before a
backslash and before the letters `n`, `r`, `t` for line feed, carriage return and tab; any other
unprintable character is written as a hexadecimal escape of two, four or eight digits.
-/

namespace TruthTable.Text

/-- `n` in lower-case hexadecimal, padded with zeros to at least `width` digits. -/
def hexadecimal (width n : Nat) : List Char :=
  let digits := Nat.toDigits 16 n
  List.replicate (width - digits.length) '0' ++ digits

/-- The escape of an unprintable character: the shortest of the three forms that can hold it. -/
def escaped (c : Char) : List Char :=
  let n := c.toNat
  if n < 0x100 then '\\' :: 'x' :: hexadecimal 2 n
  else if n < 0x10000 then '\\' :: 'u' :: hexadecimal 4 n
  else '\\' :: 'U' :: hexadecimal 8 n

/-- One character between quotes, where `shown` tells the characters that need no escape. -/
def quotedWith (shown : Char → Bool) (quote c : Char) : List Char :=
  if c = quote || c = '\\' then ['\\', c]
  else if c = '\n' then ['\\', 'n']
  else if c = '\r' then ['\\', 'r']
  else if c = '\t' then ['\\', 't']
  else if shown c then [c]
  else escaped c

/-- One character of a text that is quoted by `quote`. -/
def quotedChar (quote c : Char) : List Char :=
  quotedWith isPrintable quote c

/-- The quote for a text: the double quote only where it saves an escape. -/
def quoteFor (cs : List Char) : Char :=
  if cs.contains '\'' && !cs.contains '"' then '"' else '\''

/-- The text between quotes, with escapes. -/
def quoted (s : String) : String :=
  let cs := s.toList
  let quote := quoteFor cs
  String.ofList (quote :: cs.flatMap (quotedChar quote) ++ [quote])

/-- Bytes between quotes, after the letter `b`. Only the printable characters of ASCII need no
escape. -/
def quotedBytes (bytes : List UInt8) : String :=
  let cs := bytes.map fun b => Char.ofNat b.toNat
  let quote := quoteFor cs
  String.ofList
    ('b' :: quote :: cs.flatMap (quotedWith (fun c => ' ' ≤ c && c ≤ '~') quote) ++ [quote])

end TruthTable.Text

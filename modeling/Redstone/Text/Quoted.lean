import Redstone.Text.Printable

/-!
# Text between marks

A quoted text stands between double quotes.  Printable characters stand for
themselves, and everything else is written as an escape: by a letter where there
is one, else by its code point.  Between braces a text stands as it is.
-/

namespace Redstone.Text

/-- The lower-case hexadecimal digits of a number. -/
def hex (n : Nat) : String :=
  String.ofList (Nat.toDigits 16 n)

/-- The hexadecimal digits of a number, filled up with zeros to a width. -/
def hexPadded (width n : Nat) : String :=
  let digits := Nat.toDigits 16 n
  String.ofList (List.replicate (width - digits.length) '0' ++ digits)

/-- How a character is written between quotes. -/
def escape (c : Char) : String :=
  if c == '"' then "\\\""
  else if c == '\\' then "\\\\"
  else if isPrintable c then c.toString
  else if c.toNat == 0x07 then "\\a"
  else if c.toNat == 0x08 then "\\b"
  else if c.toNat == 0x0C then "\\f"
  else if c.toNat == 0x0A then "\\n"
  else if c.toNat == 0x0D then "\\r"
  else if c.toNat == 0x09 then "\\t"
  else if c.toNat == 0x0B then "\\v"
  else if c.toNat < 0x20 || c.toNat == 0x7F then "\\x" ++ hexPadded 2 c.toNat
  else if c.toNat < 0x10000 then "\\u" ++ hexPadded 4 c.toNat
  else "\\U" ++ hexPadded 8 c.toNat

/-- The text between double quotes. -/
def quote (s : String) : String :=
  "\"" ++ String.join (s.toList.map escape) ++ "\""

/-- The text between braces.  A brace is written by its code here, and nowhere else. -/
def inBraces (s : String) : String :=
  "\x7b" ++ s ++ "\x7d"

end Redstone.Text

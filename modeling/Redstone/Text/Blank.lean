import Redstone.Text.Bytes

/-!
# White space

Lines are trimmed of all white space that Unicode knows, and fields are divided
by the white space of ASCII alone.  A character of two or three bytes is
recognised by its encoding, so that trimming is defined on every byte string,
valid text or not.
-/

namespace Redstone.Bytes

/-- White space of one byte: tab, line feed, vertical tab, form feed, carriage
return and the space itself. -/
def isBlank (a : UInt8) : Bool :=
  a == 0x20 || (0x09 ≤ a && a ≤ 0x0D)

/-- White space of two bytes: U+0085 and U+00A0. -/
def isBlank₂ (a b : UInt8) : Bool :=
  a == 0xC2 && (b == 0x85 || b == 0xA0)

/-- White space of three bytes: U+1680, U+2000 to U+200A, U+2028, U+2029, U+202F,
U+205F and U+3000. -/
def isBlank₃ (a b c : UInt8) : Bool :=
  (a == 0xE1 && b == 0x9A && c == 0x80) ||
    (a == 0xE2 && b == 0x80 &&
      ((0x80 ≤ c && c ≤ 0x8A) || c == 0xA8 || c == 0xA9 || c == 0xAF)) ||
    (a == 0xE2 && b == 0x81 && c == 0x9F) ||
    (a == 0xE3 && b == 0x80 && c == 0x80)

/-- Drops characters from the front for as long as they satisfy the predicate for
their length. -/
def dropChars (p₂ : UInt8 → UInt8 → Bool) (p₃ : UInt8 → UInt8 → UInt8 → Bool) : Bytes → Bytes
  | [] => []
  | a :: rest =>
      if isBlank a then dropChars p₂ p₃ rest
      else match rest with
        | [] => [a]
        | b :: rest₂ =>
            if p₂ a b then dropChars p₂ p₃ rest₂
            else match rest₂ with
              | [] => [a, b]
              | c :: rest₃ =>
                  if p₃ a b c then dropChars p₂ p₃ rest₃ else a :: b :: c :: rest₃

/-- The byte string without white space at its front. -/
def trimStart (b : Bytes) : Bytes :=
  dropChars isBlank₂ isBlank₃ b

/-- The byte string without white space at its end. -/
def trimEnd (b : Bytes) : Bytes :=
  (dropChars (fun x y => isBlank₂ y x) (fun x y z => isBlank₃ z y x) b.reverse).reverse

/-- The byte string without white space at its ends. -/
def trim (b : Bytes) : Bytes :=
  b.trimStart.trimEnd

/-- The fields between runs of ASCII white space. -/
def fields (b : Bytes) : List Bytes :=
  (b.split isBlank).filter fun field => !field.isEmpty

end Redstone.Bytes

/-!
# Superscript numbers

Delays and far inputs are written as raised digits behind the name of a gate.
-/

namespace Redstone.Text

/-- A raised decimal digit. -/
def superscriptDigit (c : Char) : Char :=
  match c with
  | '0' => '⁰'
  | '1' => '¹'
  | '2' => '²'
  | '3' => '³'
  | '4' => '⁴'
  | '5' => '⁵'
  | '6' => '⁶'
  | '7' => '⁷'
  | '8' => '⁸'
  | '9' => '⁹'
  | other => other

/-- A natural number in raised digits. -/
def superscript (n : Nat) : String :=
  String.ofList ((Nat.toDigits 10 n).map superscriptDigit)

end Redstone.Text

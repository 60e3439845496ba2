import Mathlib.Algebra.Group.Int.Defs
import Mathlib.Data.Int.Notation

/-!
# `Api.Text` — functions of `strconv` and `strings`

Go's conversions of text, as far as the modelled code depends on them.
-/

namespace Etos

/-- `strconv.ParseInt(s, 10, 64)`, and with bit size 0 on a 64-bit platform: a sign, then decimal digits, within
    range. -/
def parseInt (s : String) : Option Int :=
  let number (sign : Int) (digits : List Char) : Option Int :=
    if digits ≠ [] ∧ digits.all Char.isDigit then
      let n := sign * digits.foldl (fun (n : Int) c => 10 * n + (c.toNat - '0'.toNat : Nat)) 0
      if -2 ^ 63 ≤ n ∧ n < 2 ^ 63 then some n else none
    else none
  match s.toList with
  | '+' :: digits => number 1 digits
  | '-' :: digits => number (-1) digits
  | digits => number 1 digits

/-- `strings.ToLower` as far as the result can be an ASCII letter or digit: besides the ASCII letters, the
    dotted capital I and the Kelvin sign have such lower cases. -/
def lowerRune (c : Char) : Char :=
  if c = Char.ofNat 0x130 then 'i' else if c = Char.ofNat 0x212A then 'k' else c.toLower

end Etos

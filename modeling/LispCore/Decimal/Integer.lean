import LispCore.Text.Blank
import LispCore.Text.Digit

/-!
# Integers as text

Blanks at the ends do not count. Then there is an optional sign and at least one decimal digit of
any script, with single underscores allowed between digits. Both directions have one limit: a text
of more than `digitLimit` digits is not read, and an integer that needs more is not written.
-/

namespace LispCore.Decimal

/-- The most digits that an integer's text may have. -/
def digitLimit : Nat := 4300

/-- Whether a number has at most `k` decimal digits. -/
def fits : (k : Nat) → Nat → Bool
  | 0, _ => false
  | k + 1, n => n < 10 || fits k (n / 10)

/-- Whether an integer is short enough to be written. -/
def isWritable (i : Int) : Bool := fits digitLimit i.natAbs

/-! ## Reading -/

/-- The values of digits; an underscore must stand between two of them. -/
def digits? : List Char → Option (List Nat)
  | [] => none
  | [c] => (Text.digitValue? c).map fun d => [d]
  | c :: '_' :: cs => do
    let d ← Text.digitValue? c
    let ds ← digits? cs
    some (d :: ds)
  | c :: cs => do
    let d ← Text.digitValue? c
    let ds ← digits? cs
    some (d :: ds)

/-- A sign and digits. -/
structure Numeral where
  negative : Bool
  digits : List Nat

/-- The integer that a sign and digits denote. -/
def Numeral.value (n : Numeral) : Int :=
  let magnitude : Nat := n.digits.foldl (fun m d => 10 * m + d) 0
  if n.negative then -(magnitude : Int) else magnitude

/-- The sign and the digits that a text spells. -/
def numeral? (t : String) : Option Numeral :=
  match Text.strip t.toList with
  | '-' :: cs => (digits? cs).map fun ds => ⟨true, ds⟩
  | '+' :: cs => (digits? cs).map fun ds => ⟨false, ds⟩
  | cs => (digits? cs).map fun ds => ⟨false, ds⟩

/-- The integer that a text denotes, if it is short enough to be read. -/
def integer? (t : String) : Option Int := do
  let n ← numeral? t
  if n.digits.length ≤ digitLimit then some n.value else none

end LispCore.Decimal

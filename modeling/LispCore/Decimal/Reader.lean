/-!
# Reading a decimal

The text of a floating-point number is `inf`, `nan`, or digits with at most one point and an
exponent, each with an optional sign. A number too large to hold is infinite.
-/

namespace LispCore.Decimal

/-- The value of a run of ASCII digits. -/
def natural? (cs : List Char) : Option Nat :=
  if cs.all Char.isDigit then some (cs.foldl (fun n c => 10 * n + (c.toNat - '0'.toNat)) 0)
  else none

/-- A sign, if there is one, and what follows it. -/
def signed : List Char → Bool × List Char
  | '-' :: cs => (true, cs)
  | '+' :: cs => (false, cs)
  | cs => (false, cs)

def exponent? (cs : List Char) : Option Int :=
  match signed cs with
  | (_, []) => none
  | (negative, ds) => (natural? ds).map fun n => if negative then -(n : Int) else n

/-- An unsigned number. -/
def magnitude? (cs : List Char) : Option Float := do
  let mark (c : Char) : Bool := c == 'e' || c == 'E'
  let body := cs.takeWhile (!mark ·)
  let e ← if body.length = cs.length then some 0 else exponent? (cs.drop (body.length + 1))
  let whole := body.takeWhile (· != '.')
  let fraction := body.drop (whole.length + 1)
  if whole.isEmpty && fraction.isEmpty then none
  else
    let m ← natural? (whole ++ fraction)
    let shift := e - fraction.length
    some (Float.ofScientific m (shift < 0) shift.natAbs)

/-- The number that a text denotes. -/
def float? (t : String) : Option Float :=
  let (negative, cs) := signed t.toList
  let magnitude :=
    if cs = "inf".toList then some (1.0 / 0.0)
    else if cs = "nan".toList then some (0.0 / 0.0)
    else magnitude? cs
  magnitude.map fun x => if negative then -x else x

end LispCore.Decimal

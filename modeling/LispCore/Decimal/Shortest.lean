/-!
# The shortest decimal of a binary floating-point number

A finite number is `m · 2 ^ q`. The reals that round to it form an interval around it, whose ends
belong to it exactly when `m` is even. `shortest` takes the grids of one, two, up to seventeen
significant digits in turn, looks at the two points of the grid next to the number, and answers
with the first that lies in the interval; of two, the nearer one. All of it is exact arithmetic
on natural numbers.
-/

namespace LispCore.Decimal

/-- The number `digits · 10 ^ exponent`. -/
structure Scientific where
  digits : Nat
  exponent : Int
  deriving DecidableEq, Inhabited

/-- The positive number `mantissa · 2 ^ exponent` and how it was packed: `narrow` says that the
next number below is only half as far as the next one above. -/
structure Binary where
  mantissa : Nat
  exponent : Int
  narrow : Bool
  deriving DecidableEq, Inhabited

/-- What the 64 bits of a number say. -/
inductive Class
  | nan
  | infinite (negative : Bool)
  | zero (negative : Bool)
  | finite (negative : Bool) (value : Binary)

/-- Sign, eleven bits of exponent, fifty-two bits of fraction. -/
def classify (bits : Nat) : Class :=
  let negative := bits / Nat.pow 2 63 == 1
  let exponent : Nat := bits / Nat.pow 2 52 % Nat.pow 2 11
  let fraction : Nat := bits % Nat.pow 2 52
  if exponent = 2047 then
    if fraction = 0 then .infinite negative else .nan
  else if exponent = 0 then
    if fraction = 0 then .zero negative else .finite negative ⟨fraction, -1074, false⟩
  else
    .finite negative ⟨Nat.pow 2 52 + fraction, exponent - 1075, fraction == 0 && exponent != 1⟩

/-- The number of decimal digits of a natural number. -/
def width (n : Nat) : Nat := (Nat.toDigits 10 n).length

/-- The least `k` with `num / den < 10 ^ k`. -/
def magnitude (num den : Nat) : Int :=
  let t : Int := (width num : Int) - width den
  if num * Nat.pow 10 (-t).toNat < den * Nat.pow 10 t.toNat then t else t + 1

/-- The point next to the number on the grid of multiples of `10 ^ j`, if one rounds to it. -/
def nearest? (b : Binary) (j : Int) : Option Nat :=
  let scale := Nat.pow 2 (b.exponent - 2).toNat * Nat.pow 10 (-j).toNat
  let unit := Nat.pow 2 (2 - b.exponent).toNat * Nat.pow 10 j.toNat
  let value := 4 * b.mantissa * scale
  let low := (4 * b.mantissa - if b.narrow then 1 else 2) * scale
  let high := (4 * b.mantissa + 2) * scale
  let inside (c : Nat) : Bool :=
    if b.mantissa % 2 = 0 then low ≤ c * unit && c * unit ≤ high
    else low < c * unit && c * unit < high
  let below := value / unit
  let above := below + 1
  match inside below, inside above with
  | true, false => some below
  | false, true => some above
  | false, false => none
  | true, true =>
    let down := value - below * unit
    let up := above * unit - value
    if down < up || (down = up && below % 2 = 0) then some below else some above

/-- The first hit on the grids of `n`, `n + 1`, … significant digits of a number below
`10 ^ k`. -/
def search (b : Binary) (k : Int) : (grids n : Nat) → Option Scientific
  | 0, _ => none
  | g + 1, n =>
    match nearest? b (k - n) with
    | some c => some ⟨c, k - n⟩
    | none => search b k g (n + 1)

/-- The shortest decimal that rounds to the number. Seventeen digits always suffice. -/
def shortest (b : Binary) : Scientific :=
  let k := magnitude (b.mantissa * Nat.pow 2 b.exponent.toNat) (Nat.pow 2 (-b.exponent).toNat)
  (search b k 17 1).getD ⟨0, 0⟩

end LispCore.Decimal

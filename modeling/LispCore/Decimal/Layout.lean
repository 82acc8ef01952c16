import LispCore.Decimal.Shortest

/-!
# Writing a decimal

A `Layout` says which exponents are written positionally and how the others look; `floatLayout`
is the one the printer uses: `100.0`, `0.0001`, `1e+16`, `1.5e-05`.
-/

namespace LispCore.Decimal

structure Layout where
  /-- The least exponent of the leading digit that is written positionally. -/
  least : Int
  /-- The least exponent above those that are written positionally. -/
  past : Int
  /-- The least number of digits of a written exponent. -/
  exponentWidth : Nat
  infinity : String
  nan : String

/-- Positional from `10 ^ -4` up to `10 ^ 16`, otherwise a signed exponent of two digits or
more. -/
def floatLayout : Layout := ⟨-4, 16, 2, "inf", "nan"⟩

def zeroes (n : Nat) : String := String.ofList (List.replicate n '0')

/-- The digits without the zeros at their end. -/
def significant (n : Nat) : List Char :=
  ((Nat.toDigits 10 n).reverse.dropWhile (· == '0')).reverse

/-- Digits with a point before all but the first `whole`, zeros filling what is missing. A whole
number keeps `.0`. -/
def positional (ds : List Char) (exponent : Int) : String :=
  if exponent < 0 then
    "0." ++ zeroes (-exponent - 1).toNat ++ String.ofList ds
  else
    let whole := exponent.toNat + 1
    let left := String.ofList (ds.take whole) ++ zeroes (whole - ds.length)
    let right := String.ofList (ds.drop whole)
    left ++ "." ++ if right.isEmpty then "0" else right

/-- One digit, the others after a point, and the exponent with its sign. -/
def scientific (exponentWidth : Nat) (ds : List Char) (exponent : Int) : String :=
  let e := toString exponent.natAbs
  String.ofList (ds.take 1) ++
    (if ds.length ≤ 1 then "" else "." ++ String.ofList (ds.drop 1)) ++
    (if exponent < 0 then "e-" else "e+") ++ zeroes (exponentWidth - e.length) ++ e

def Layout.digits (l : Layout) (d : Scientific) : String :=
  let ds := significant d.digits
  let leading := d.exponent + width d.digits - 1
  if l.least ≤ leading && leading < l.past then positional ds leading
  else scientific l.exponentWidth ds leading

def sign (negative : Bool) : String := if negative then "-" else ""

def Layout.write (l : Layout) : Class → String
  | .nan => l.nan
  | .infinite negative => sign negative ++ l.infinity
  | .zero negative => sign negative ++ "0.0"
  | .finite negative b => sign negative ++ l.digits (shortest b)

/-- The text of a floating-point number: the shortest decimal that reads back as it. -/
def floatText (x : Float) : String :=
  floatLayout.write (classify x.toBits.toNat)

end LispCore.Decimal

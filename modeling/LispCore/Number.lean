import LispCore.Decimal.Shortest
import LispCore.Failure

/-!
# Numbers

An integer of any size or a floating-point number. Arithmetic on two integers is exact; as soon
as one operand is floating, both are, and an integer beyond all floating-point numbers is refused.
The order of an integer and a floating-point number is that of their exact values.
-/

namespace LispCore

inductive Number
  | int (i : Int)
  | float (x : Float)

def Value.number? : Value → Option Number
  | .int i => some (.int i)
  | .float x => some (.float x)
  | _ => none

namespace Number

def toValue : Number → Value
  | .int i => .int i
  | .float x => .float x

/-- The floating-point number nearest to a number. -/
def toFloat : Number → Except Failure Float
  | .int i =>
    let x := Float.ofInt i
    if x.isFinite then .ok x else .error (.fault .integerTooLarge)
  | .float x => .ok x

/-- An operation in one of two ways, with integers or with floating-point numbers. -/
def lift (exact : Int → Int → Int) (rounded : Float → Float → Float) :
    Number → Number → Except Failure Number
  | .int a, .int b => .ok (.int (exact a b))
  | a, b => do
    let x ← a.toFloat
    let y ← b.toFloat
    .ok (.float (rounded x y))

def add : Number → Number → Except Failure Number := lift (· + ·) (· + ·)

def sub : Number → Number → Except Failure Number := lift (· - ·) (· - ·)

def mul : Number → Number → Except Failure Number := lift (· * ·) (· * ·)

/-- How a floating-point number lies to an integer, unless it is no number. -/
def order (x : Float) (a : Int) : Option Ordering :=
  match Decimal.classify x.toBits.toNat with
  | .nan => none
  | .infinite negative => some (if negative then .lt else .gt)
  | .zero _ => some (if 0 < a then .lt else if 0 = a then .eq else .gt)
  | .finite negative b =>
    let size : Int := (b.mantissa * Nat.pow 2 b.exponent.toNat : Nat)
    let v := if negative then -size else size
    let w := a * (Nat.pow 2 (-b.exponent).toNat : Nat)
    some (if v < w then .lt else if v = w then .eq else .gt)

def less : Number → Number → Bool
  | .int a, .int b => a < b
  | .int a, .float y => order y a == some .gt
  | .float x, .int b => order x b == some .lt
  | .float x, .float y => x < y

end Number

end LispCore

/-!
# Ranges of code points

Character classes are lists of ranges in ascending order.
-/

namespace LispCore.Text

/-- The code points from `first` to `last`, both included. -/
structure Range where
  first : Nat
  last : Nat

/-- Whether an ascending list of ranges holds a code point. -/
def covers : List Range → Nat → Bool
  | [], _ => false
  | r :: rs, n => r.first ≤ n && (n ≤ r.last || covers rs n)

end LispCore.Text

import LispCore.Store.Basic

/-!
# Structural equality

Two values are equal when they are one object or have the same kind and equal contents, element
by element. Tails are walked in a loop, so only nesting in heads and vectors counts against the
limit, and a comparison that nests deeper exhausts the stack. Two chains that run in circles without
a difference and never meet are compared for ever. A pair or a vector equals itself whatever it
holds; numbers are not objects here, so one that is no number differs from itself.
-/

namespace LispCore

/-- Equality of values that hold no others. -/
def Value.atomEqual : Value → Value → Bool
  | .nil, .nil => true
  | .bool a, .bool b => a == b
  | .int a, .int b => a == b
  | .float a, .float b => a == b
  | .str a, .str b => a == b
  | .sym a, .sym b => a == b
  | .prim a, .prim b => a.id == b.id
  | .closure a, .closure b => a == b
  | .foreign a, .foreign b => a == b
  | _, _ => false

namespace Store

/-- Compares two lists of elements with a given comparison, up to the first difference. -/
def allEqual (eq : Value → Value → Answer Bool) : List Value → List Value → Answer Bool
  | [], [] => .ok true
  | a :: as, b :: bs =>
    match eq a b with
    | .ok true => allEqual eq as bs
    | other => other
  | _, _ => .ok false

/-- Walks two chains of tails, comparing heads, until they meet, differ or one of them ends;
`finish` compares what is left. Two chains that have not met after as many steps as there are
pairs of pairs run in circles. -/
def walkEqual (s : Store) (eq finish : Value → Value → Answer Bool) :
    (steps : Nat) → Value → Value → Answer Bool
  | 0, _, _ => .error .endless
  | n + 1, .pair p, .pair q =>
    if p = q then .ok true
    else
      match eq (s.pair p).head (s.pair q).head with
      | .ok true => s.walkEqual eq finish n (s.pair p).tail (s.pair q).tail
      | other => other
  | _ + 1, a, b => finish a b

/-- Equality up to a nesting of `limit`. -/
def equalWithin (s : Store) : (limit : Nat) → Value → Value → Answer Bool
  | 0 => fun _ _ => .error (.failure .overflow)
  | n + 1 => fun a b =>
    match a, b with
    | .pair _, .pair _ =>
      s.walkEqual (s.equalWithin n) (s.equalWithin n) (s.pairs.size * s.pairs.size + 1) a b
    | .vec p, .vec q =>
      if p = q then .ok true
      else if (s.vec p).size = (s.vec q).size then
        allEqual (s.equalWithin n) (s.vec p).toList (s.vec q).toList
      else .ok false
    | a, b => .ok (a.atomEqual b)

end Store

end LispCore

import LispCore.Store.Basic

/-!
# Lists in the store

A list is the empty list or a pair whose tail is a list. The four walkers below follow the tails
of a value. A chain of different pairs is no longer than the store, so one that has not ended after
that many steps runs in a circle. No walker looks out for circles: on one it goes on for ever, and
has neither an answer nor a failure to give. `addList` builds a chain from its elements.
-/

namespace LispCore.Store

/-- The number of steps after which a chain of tails that has not ended runs in a circle. -/
def chainBound (s : Store) : Nat := s.pairs.size + 1

def isListWithin (s : Store) : (steps : Nat) → Value → Answer Bool
  | n + 1, .pair r => s.isListWithin n (s.pair r).tail
  | 0, .pair _ => .error .endless
  | _, .nil => .ok true
  | _, _ => .ok false

/-- Whether a value is the empty list or a chain of pairs that ends in it. -/
def isList (s : Store) (v : Value) : Answer Bool := s.isListWithin s.chainBound v

def elementsWithin (s : Store) (stop : Failure) : (steps : Nat) → Value → Answer (List Value)
  | n + 1, .pair r => (s.elementsWithin stop n (s.pair r).tail).map ((s.pair r).head :: ·)
  | 0, .pair _ => .error .endless
  | _, .nil => .ok []
  | _, _ => .error (.failure stop)

/-- The elements of a proper list. `what` names the thing in the failure. -/
def toList (s : Store) (what : String) (v : Value) : Answer (List Value) :=
  s.elementsWithin (.malformed (.notProper what) (some v)) s.chainBound v

def iterateWithin (s : Store) (whole : Value) : (steps : Nat) → Value → List Value × Answer Unit
  | n + 1, .pair r =>
    let (vs, stop) := s.iterateWithin whole n (s.pair r).tail
    ((s.pair r).head :: vs, stop)
  | 0, .pair _ => ([], .error .endless)
  | _, .nil => ([], .ok ())
  | _, _ => ([], .error (.failure (.malformed .notIterable (some whole))))

/-- What stepping through a list yields, and how that ends: in a failure if the list is improper. In
a circle it does not end, and what is given here is only the beginning. -/
def iterate (s : Store) (v : Value) : List Value × Answer Unit :=
  s.iterateWithin v s.chainBound v

def lengthWithin (s : Store) (whole : Value) : (steps count : Nat) → Value → Answer Nat
  | n + 1, k, .pair r => s.lengthWithin whole n (k + 1) (s.pair r).tail
  | 0, _, .pair _ => .error .endless
  | _, k, .nil => .ok k
  | _, _, _ => .error (.failure (.malformed .notIterable (some whole)))

/-- The number of elements of a list. -/
def length (s : Store) (v : Value) : Answer Nat :=
  s.lengthWithin v s.chainBound 0 v

/-- New pairs with the given heads, the last of them ending in `last`. -/
def addList (s : Store) (last : Value) : List Value → Value × Store
  | [] => (last, s)
  | v :: vs =>
    let (tail, s) := s.addList last vs
    let (r, s) := s.addPair ⟨v, tail⟩
    (.pair r, s)

end LispCore.Store

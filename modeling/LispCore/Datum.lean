import LispCore.Value

/-!
# Data

A `Datum` is the tree that a value unfolds to at one moment: what printing shows, what an effect
records and what is copied.
-/

namespace LispCore

inductive Datum
  | nil
  | bool (b : Bool)
  | int (i : Int)
  | float (x : Float)
  | str (t : String)
  | sym (name : Symbol)
  | pair (head tail : Datum)
  | vec (items : List Datum)
  | prim (p : Primitive)
  | closure (ref : ClosureRef) (params : List Symbol) (body : List Datum)
  | foreign (h : Foreign)
  deriving Inhabited

namespace Datum

/-- The chain of pairs with the given heads that ends in `last`. -/
def ofList (last : Datum) : List Datum → Datum
  | [] => last
  | d :: ds => .pair d (ofList last ds)

/-- The heads along a chain of pairs, and where it ends. -/
def spine : Datum → List Datum × Datum
  | .pair h t => let (hs, last) := t.spine; (h :: hs, last)
  | d => ([], d)

end Datum

end LispCore

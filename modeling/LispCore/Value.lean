import LispCore.Fault

/-!
# Values

Code and data are one type. Pairs, vectors and closures live in the store and a value refers to
them by number, so that sharing and mutation are visible; every other value is complete in
itself. Only `#F` counts as false in a condition.
-/

namespace LispCore

/-- The number of a pair, in the order of creation. -/
abbrev PairRef := Nat

/-- The number of a vector, in the order of creation. -/
abbrev VecRef := Nat

/-- The number of a closure, in the order of creation. -/
abbrev ClosureRef := Nat

/-- The number of a frame, in the order of creation. -/
abbrev FrameRef := Nat

/-- A name. Two symbols of one spelling are the same symbol. -/
structure Symbol where
  name : String
  deriving DecidableEq, Inhabited

/-- A native operation under a name. Two primitives are the same object when their numbers
agree, whatever they are called. -/
structure Primitive where
  id : Nat
  name : String
  op : Operation
  deriving DecidableEq, Inhabited

/-- An object of the host that is no value of the language. A table can change, a constant
cannot. The texts of either are the host's to write. -/
inductive Foreign
  | none
  | bool (b : Bool)
  | constant (text repr : Writing)
  | table (text repr : Writing)
  deriving DecidableEq, Inhabited

namespace Foreign

/-- The host's plain text for a foreign object. -/
def text : Foreign → Writing
  | .none => .text "None"
  | .bool true => .text "True"
  | .bool false => .text "False"
  | .constant t _ => t
  | .table t _ => t

/-- The host's text for a foreign object where it shows what the object is. -/
def repr : Foreign → Writing
  | .constant _ t => t
  | .table _ t => t
  | h => h.text

end Foreign

inductive Value
  | nil
  | bool (b : Bool)
  | int (i : Int)
  | float (x : Float)
  | str (t : String)
  | sym (name : Symbol)
  | pair (ref : PairRef)
  | vec (ref : VecRef)
  | prim (p : Primitive)
  | closure (ref : ClosureRef)
  | foreign (h : Foreign)
  deriving Inhabited

namespace Value

/-- The symbol of a given spelling. -/
def symbol (name : String) : Value := .sym ⟨name⟩

def isNil : Value → Bool
  | .nil => true
  | _ => false

/-- Every value but `#F` counts as true. -/
def isTrue : Value → Bool
  | .bool false => false
  | _ => true

def symbol? : Value → Option Symbol
  | .sym n => some n
  | _ => none

/-- The host's word for the kind of a value that can change. -/
def changeable? : Value → Option String
  | .pair _ => some "Pair"
  | .vec _ => some "list"
  | .foreign (.table ..) => some "dict"
  | _ => none

/-- Whether two values are one object. Values complete in themselves are one object when they
are equal. -/
def same : Value → Value → Bool
  | .nil, .nil => true
  | .bool a, .bool b => a == b
  | .int a, .int b => a == b
  | .float a, .float b => a.toBits == b.toBits
  | .str a, .str b => a == b
  | .sym a, .sym b => a == b
  | .pair a, .pair b => a == b
  | .vec a, .vec b => a == b
  | .prim a, .prim b => a.id == b.id
  | .closure a, .closure b => a == b
  | .foreign a, .foreign b => a == b
  | _, _ => false

end Value

end LispCore

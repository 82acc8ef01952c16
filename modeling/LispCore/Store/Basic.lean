import LispCore.Datum
import LispCore.Failure

/-!
# The store

All mutable objects of a run, each kind numbered from zero in the order of creation, together
with what the run has recorded. Nothing is ever taken away: an object is changed in place or a
new one is added at the end. A read of a number that no object has gives an empty object, and a
write to one does nothing, so every operation is total.
-/

namespace LispCore

/-- A pair's content. -/
structure Cell where
  head : Value
  tail : Value
  deriving Inhabited

/-- A function's parameters, body forms and the frame it was made in. -/
structure Closure where
  params : List Symbol
  body : List Value
  env : FrameRef
  deriving Inhabited

/-- Bindings in the order in which their names were first bound, and the frame around. -/
structure Frame where
  vars : List (Symbol × Value)
  outer : Option FrameRef
  deriving Inhabited

structure Store where
  pairs : Array Cell := #[]
  vecs : Array (Array Value) := #[]
  closures : Array Closure := #[]
  frames : Array Frame := #[]
  /-- How many primitives have been made. -/
  primitives : Nat := 0
  /-- What the program noted, as it was at that moment. -/
  effects : Array Datum := #[]
  log : Array LogRecord := #[]
  /-- The expressions handed to a traced interpreter, as text. -/
  trace : Array String := #[]
  deriving Inhabited

namespace Store

def pair (s : Store) (r : PairRef) : Cell := s.pairs.getD r default

def vec (s : Store) (r : VecRef) : Array Value := s.vecs.getD r default

def closure (s : Store) (r : ClosureRef) : Closure := s.closures.getD r default

def frame (s : Store) (r : FrameRef) : Frame := s.frames.getD r default

/-! ## New objects -/

def addPair (s : Store) (c : Cell) : PairRef × Store :=
  (s.pairs.size, { s with pairs := s.pairs.push c })

def addVec (s : Store) (items : Array Value) : VecRef × Store :=
  (s.vecs.size, { s with vecs := s.vecs.push items })

def addClosure (s : Store) (c : Closure) : ClosureRef × Store :=
  (s.closures.size, { s with closures := s.closures.push c })

def addFrame (s : Store) (f : Frame) : FrameRef × Store :=
  (s.frames.size, { s with frames := s.frames.push f })

/-- A primitive that is no other object. -/
def addPrimitive (s : Store) (name : String) (op : Operation) : Primitive × Store :=
  (⟨s.primitives, name, op⟩, { s with primitives := s.primitives + 1 })

/-! ## Changes -/

def setHead (s : Store) (r : PairRef) (v : Value) : Store :=
  { s with pairs := s.pairs.modify r fun c => { c with head := v } }

def setTail (s : Store) (r : PairRef) (v : Value) : Store :=
  { s with pairs := s.pairs.modify r fun c => { c with tail := v } }

/-- Adds an element at the end of a vector. -/
def push (s : Store) (r : VecRef) (v : Value) : Store :=
  { s with vecs := s.vecs.modify r fun items => items.push v }

/-! ## Records -/

def note (s : Store) (d : Datum) : Store := { s with effects := s.effects.push d }

def record (s : Store) (r : LogRecord) : Store := { s with log := s.log.push r }

def traced (s : Store) (t : String) : Store := { s with trace := s.trace.push t }

end Store

end LispCore

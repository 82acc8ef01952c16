import LispCore.Datum.Printer
import LispCore.Store.Lists
import LispCore.Text.Quoted

/-!
# Values as data

`viewWithin` unfolds a value to the tree it stands for, from left to right. That fails at an integer
that is too long to be written, at an object whose text the host fails to write, and where values
nest deeper than the host's stack allows, as those do that hold themselves. Tails do not nest: a
list may have any length, and one that runs in a circle is written for ever.

All text of a value goes through its tree. `describe` is the host's text, which quotes strings its
own way and marks symbols; it shows a vector inside itself as `[...]` as long as nothing but vectors
lies between the two. `display` is the same with a string or a symbol by itself left bare, and the
plain text of a foreign object.
-/

namespace LispCore.Store

def spineWithin (s : Store) : (steps : Nat) → Value → List Value × Option Value
  | n + 1, .pair r =>
    let (vs, last) := s.spineWithin n (s.pair r).tail
    ((s.pair r).head :: vs, last)
  | 0, .pair _ => ([], none)
  | _, v => ([], some v)

/-- The heads along a chain of pairs, and where it ends unless it runs in a circle. -/
def spine (s : Store) (v : Value) : List Value × Option Value := s.spineWithin s.chainBound v

/-- Unfolds a value that nests at most `depth` deep. -/
def viewWithin (s : Store) : (depth : Nat) → Value → Answer Datum
  | _, .nil => .ok .nil
  | _, .bool b => .ok (.bool b)
  | _, .int i =>
    if Decimal.isWritable i then .ok (.int i) else .error (.failure (.fault .integerTooLong))
  | _, .float x => .ok (.float x)
  | _, .str t => .ok (.str t)
  | _, .sym n => .ok (.sym n)
  | _, .prim p => .ok (.prim p)
  | _, .foreign h => h.text.answer.map fun _ => .foreign h
  | 0, _ => .error (.failure .overflow)
  | n + 1, .pair r => do
    let (heads, last) := s.spine (.pair r)
    let ds ← heads.mapM (s.viewWithin n)
    match last with
    | some v => .ok (.ofList (← s.viewWithin n v) ds)
    | none => .error .endless
  | n + 1, .vec r => do
    let ds ← (s.vec r).toList.mapM (s.viewWithin n)
    .ok (.vec ds)
  | n + 1, .closure r => do
    let ds ← (s.closure r).body.mapM (s.viewWithin n)
    .ok (.closure r (s.closure r).params ds)

/-- The text of a value in a given style. -/
def textIn (s : Store) (depth : Nat) (st : Datum.Style) (v : Value) : Answer String :=
  (s.viewWithin depth v).map (Datum.text st)

/-- The text of a value as source writes it. -/
def text (s : Store) (depth : Nat) (v : Value) : Answer String := s.textIn depth .plain v

def describeWithin (s : Store) :
    (depth : Nat) → (path : List VecRef) → Value → Answer String
  | _, _, .str t => .ok (Text.quote t)
  | _, _, .sym n => .ok ("Symbol(" ++ Text.quote n.name ++ ")")
  | _, _, .foreign h => h.repr.answer
  | 0, _, .vec _ => .error (.failure .overflow)
  | n + 1, path, .vec r =>
    if path.contains r then .ok "[...]"
    else do
      let ts ← (s.vec r).toList.mapM (s.describeWithin n (r :: path))
      .ok ("[" ++ ", ".intercalate ts ++ "]")
  | n, _, v => s.text n v

/-- The host's description of a value. -/
def describe (s : Store) (depth : Nat) (v : Value) : Answer String :=
  s.describeWithin depth [] v

/-- The host's description, with a string, a symbol or a foreign object by itself left bare. -/
def display (s : Store) (depth : Nat) : Value → Answer String
  | .str t => .ok t
  | .sym n => .ok n.name
  | .foreign h => h.text.answer
  | v => s.describe depth v

/-! ## Copies -/

mutual

/-- A new value with the given tree. Closures and primitives are shared, not copied. -/
def build (s : Store) : Datum → Value × Store
  | .nil => (.nil, s)
  | .bool b => (.bool b, s)
  | .int i => (.int i, s)
  | .float x => (.float x, s)
  | .str t => (.str t, s)
  | .sym n => (.sym n, s)
  | .pair h t =>
    let (head, s) := s.build h
    let (tail, s) := s.build t
    let (r, s) := s.addPair ⟨head, tail⟩
    (.pair r, s)
  | .vec ds =>
    let (items, s) := s.buildAll ds
    let (r, s) := s.addVec items.toArray
    (.vec r, s)
  | .prim p => (.prim p, s)
  | .closure r _ _ => (.closure r, s)
  | .foreign h => (.foreign h, s)

def buildAll (s : Store) : List Datum → List Value × Store
  | [] => ([], s)
  | d :: ds =>
    let (v, s) := s.build d
    let (vs, s) := s.buildAll ds
    (v :: vs, s)

end

/-- A copy of a value that shares no pair and no vector with it. -/
def copy (s : Store) (depth : Nat) (v : Value) : Answer (Value × Store) :=
  (s.viewWithin depth v).map s.build

end LispCore.Store

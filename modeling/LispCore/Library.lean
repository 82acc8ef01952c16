import LispCore.Eval.Routine
import LispCore.Number
import LispCore.Store.Equality
import LispCore.Store.Lists
import LispCore.Store.View

/-!
# The standard library

What the standard operations do. An operation checks the number of its arguments first and their
kinds next; a list that it walks must be proper before anything is applied to its elements.
-/

namespace LispCore

namespace Store

/-- Whether a value is empty or zero in the host's eyes. -/
def isVacuous (s : Store) : Value → Bool
  | .nil => true
  | .bool b => !b
  | .int i => i == 0
  | .float x => x == 0
  | .str t => t.isEmpty
  | .vec r => (s.vec r).isEmpty
  | .foreign .none => true
  | .foreign (.bool b) => !b
  | _ => false

/-- `#F` for a value that is empty or zero, `#T` for any other. -/
def truth (s : Store) (v : Value) : Value := .bool (!s.isVacuous v)

end Store

namespace Library

def bad {α : Type} (op : Operation) : Routine α := .raise (.fault (.badArgument op))

/-- For operations of one argument. -/
def unary (op : Operation) (args : List Value) (k : Value → Routine Value) : Routine Value :=
  match args with
  | [a] => k a
  | _ => .raise (.fault (.argumentCount op 1 args.length))

/-- For operations of two arguments. -/
def binary (op : Operation) (args : List Value) (k : Value → Value → Routine Value) :
    Routine Value :=
  match args with
  | [a, b] => k a b
  | _ => .raise (.fault (.argumentCount op 2 args.length))

/-- For operations on numbers. -/
def numeric (op : Operation) (args : List Value) (k : List Number → Routine Value) :
    Routine Value :=
  match args.mapM Value.number? with
  | some ns => k ns
  | none => bad op

/-- Combines numbers from left to right. -/
def combine (f : Number → Number → Except Failure Number) (n : Number) (ns : List Number) :
    Routine Value :=
  .ofExcept ((ns.foldlM f n).map Number.toValue)

def newPair (head tail : Value) : Routine Value :=
  .change fun s => match s.addPair ⟨head, tail⟩ with | (r, s) => (.pair r, s)

def newVec (items : List Value) : Routine Value :=
  .change fun s => match s.addVec items.toArray with | (r, s) => (.vec r, s)

/-- A new proper list. -/
def newList (items : List Value) : Routine Value := .change (·.addList .nil items)

/-- Changes the store and gives a value that is there already. -/
def changing (v : Value) (f : Store → Store) : Routine Value := .change fun s => (v, f s)

/-- Applies a function to each element in turn and makes a list of the values; `done` holds those
so far, the last one first. -/
def mapEach (fn : Value) (done : List Value) : List Value → Routine Value
  | [] => newList done.reverse
  | v :: vs =>
    .apply fn [v] fun
      | .ok w => mapEach fn (w :: done) vs
      | .error x => .raise x

/-- Applies a function to nothing; of a failure, its kind and its message are the value. -/
def attempt (fn : Value) : Routine Value :=
  .apply fn [] fun
    | .ok v => .done v
    | .error x =>
      if x.isEvaluation then do
        let text ← Routine.ofAnswer x.text
        newList [.symbol x.kind, .str text]
      else .raise x

/-- What an operation does in a program whose global frame is `globals`. Equality and text look into
values nested up to `limit` deep. -/
def operate (limit : Nat) (globals : FrameRef) (op : Operation) (args : List Value) :
    Routine Value :=
  match op with
  | .add => numeric op args (combine Number.add (.int 0))
  | .sub =>
    numeric op args fun
      | [] => bad op
      | n :: ns => combine Number.sub n ns
  | .mul => numeric op args (combine Number.mul (.int 1))
  | .less =>
    binary op args fun a b =>
      match a.number?, b.number? with
      | some x, some y => pure (.bool (x.less y))
      | _, _ => bad op
  | .equal =>
    binary op args fun a b => do
      let r ← Routine.query (·.equalWithin limit a b)
      pure (.bool r)
  | .list => newList args
  | .cons => binary op args newPair
  | .head =>
    unary op args fun
      | .pair r => .ask fun s => (s.pair r).head
      | _ => bad op
  | .tail =>
    unary op args fun
      | .pair r => .ask fun s => (s.pair r).tail
      | _ => bad op
  | .setHead =>
    binary op args fun
      | .pair r, v => changing (.pair r) (·.setHead r v)
      | _, _ => bad op
  | .setTail =>
    binary op args fun
      | .pair r, v => changing (.pair r) (·.setTail r v)
      | _, _ => bad op
  | .vector => newVec args
  | .push =>
    binary op args fun
      | .vec r, v => changing (.vec r) (·.push r v)
      | _, _ => bad op
  | .nth =>
    binary op args fun
      | .vec r, .int i => do
        let item ← Routine.ask fun s => if 0 ≤ i then (s.vec r)[i.toNat]? else none
        match item with
        | some v => pure v
        | none => .raise (.fault .indexOutOfRange)
      | _, _ => bad op
  | .count =>
    unary op args fun
      | .nil => pure (.int 0)
      | .pair r => do
        let n ← Routine.query (·.length (.pair r))
        pure (.int n)
      | .vec r => .ask fun s => .int (s.vec r).size
      | _ => bad op
  | .note =>
    unary op args fun v => do
      let d ← Routine.query (·.viewWithin limit v)
      changing v (·.note d)
  | .fail =>
    match args with
    | [] => .raise (.fault (.failed "boom"))
    | v :: _ => do
      let text ← Routine.query (·.textIn limit .raw v)
      .raise (.fault (.failed text))
  | .reject => unary op args fun v => .raise (.malformed .rejected (some v))
  | .overflow => .raise .overflow
  | .unit => pure .nil
  | .nothing => pure (.foreign .none)
  | .truth => unary op args fun v => .ask (·.truth v)
  | .print =>
    unary op args fun v => do
      let text ← Routine.query (·.text limit v)
      pure (.str text)
  | .eval => unary op args fun e => .evaluate e globals
  | .apply =>
    binary op args fun fn list => do
      let vs ← Routine.query (·.toList "apply arguments" list)
      Routine.call fn vs
  | .map =>
    binary op args fun fn list => do
      let vs ← Routine.query (·.toList "map list" list)
      mapEach fn [] vs
  | .attempt => unary op args attempt

/-- The standard library: a primitive does what its operation does, whatever it is called. -/
def standard (limit : Nat) (globals : FrameRef) : Library := fun p => operate limit globals p.op

end Library

end LispCore

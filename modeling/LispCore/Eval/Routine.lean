import LispCore.Store.Basic

/-!
# Routines

What a primitive does is a tree: it may read and change the store, have an expression evaluated
or a function applied and go on with the value or the failure that comes back, and ends with a
value or a failure of its own, unless it asks what has no end. A routine knows nothing of the
evaluator that will run it.
-/

namespace LispCore

inductive Routine (α : Type)
  | done (a : α)
  | raise (x : Failure)
  | never
  | read (k : Store → Routine α)
  | update (f : Store → Value × Store) (k : Value → Routine α)
  | eval (expr : Value) (env : FrameRef) (k : Except Failure Value → Routine α)
  | apply (fn : Value) (args : List Value) (k : Except Failure Value → Routine α)

namespace Routine

protected def bind {α β : Type} : Routine α → (α → Routine β) → Routine β
  | .done a, f => f a
  | .raise x, _ => .raise x
  | .never, _ => .never
  | .read k, f => .read fun s => (k s).bind f
  | .update g k, f => .update g fun v => (k v).bind f
  | .eval e env k, f => .eval e env fun r => (k r).bind f
  | .apply fn args k, f => .apply fn args fun r => (k r).bind f

instance : Monad Routine where
  pure := .done
  bind := Routine.bind

/-- What the store says now. -/
def ask {α : Type} (f : Store → α) : Routine α := .read fun s => .done (f s)

/-- A value or a failure. -/
def ofExcept {α : Type} : Except Failure α → Routine α
  | .ok a => .done a
  | .error x => .raise x

/-- An answer, or what comes of the obstacle to it. -/
def ofAnswer {α : Type} : Answer α → Routine α
  | .ok a => .done a
  | .error (.failure x) => .raise x
  | .error .endless => .never

/-- What the store makes of a question that may have no answer. -/
def query {α : Type} (f : Store → Answer α) : Routine α := .read fun s => ofAnswer (f s)

/-- Changes the store and gives the value that the change gives. -/
def change (f : Store → Value × Store) : Routine Value := .update f .done

/-- Has an expression evaluated; a failure there is a failure here. -/
def evaluate (expr : Value) (env : FrameRef) : Routine Value := .eval expr env ofExcept

/-- Has a function applied; a failure there is a failure here. -/
def call (fn : Value) (args : List Value) : Routine Value := .apply fn args ofExcept

end Routine

/-- What every primitive does with its arguments. -/
abbrev Library := Primitive → List Value → Routine Value

end LispCore

import LispCore.Eval.Machine
import LispCore.Library
import LispCore.Registry

/-!
# The interpreter

A host's way to the evaluator. The global frame holds the registered primitives. `eval` works in a
session frame that lasts; `run` gives every program a fresh frame below the globals, so programs do
not see each other's definitions. A traced interpreter records each expression it is handed.
-/

namespace LispCore

namespace Machine

/-- The stack limit a program starts with. -/
def defaultLimit : Nat := 1000

/-- More turns than any loop takes in practice. -/
def defaultTurns : Nat := 1000000000000000

/-- The machine with the standard library. -/
def standard (globals : FrameRef) : Machine where
  library := Library.standard defaultLimit globals
  limit := defaultLimit
  turns := defaultTurns
  depth := defaultLimit

end Machine

/-- Evaluates expressions in order; the last value is the result. -/
def runAll (evaluate : Value → FrameRef → Eval Value) (f : FrameRef) :
    (last : Value) → List Value → Eval Value
  | last, [], s => .done last s
  | _, e :: es, s =>
    match evaluate e f s with
    | .done v s => runAll evaluate f v es s
    | .raised x s => .raised x s
    | .unfinished => .unfinished

/-- Runs a program in a fresh frame below `env`. An empty program gives nil. -/
def runBelow (evaluate : Value → FrameRef → Eval Value) (env : FrameRef) (exprs : List Value) :
    Eval Value := do
  let f ← Eval.update (·.addEmptyFrame (some env))
  runAll evaluate f .nil exprs

structure Interpreter where
  machine : Machine
  globals : FrameRef
  session : FrameRef
  traced : Bool

namespace Interpreter

/-- A new interpreter, with the primitives of a table if one is given. -/
def create (table : Option Registry.Table) (traced : Bool) : Eval Interpreter := do
  let globals ← Eval.update (·.addEmptyFrame none)
  let machine := Machine.standard globals
  match table with
  | some t => Store.register machine.depth globals t
  | none => pure ()
  let session ← Eval.update (·.addEmptyFrame (some globals))
  pure ⟨machine, globals, session, traced⟩

/-- Hands an expression to the evaluator. -/
def submit (i : Interpreter) (e : Value) (f : FrameRef) : Eval Value := fun s =>
  if i.traced then
    match s.text i.machine.depth e with
    | .ok t => i.machine.evaluate e f (s.traced t)
    | .error o => .blocked o s
  else i.machine.evaluate e f s

/-- Evaluates one expression in the session frame. -/
def eval (i : Interpreter) (e : Value) : Eval Value := i.submit e i.session

/-- Runs a program and logs how it began and how it failed. -/
def run (i : Interpreter) (exprs : List Value) : Eval Value := fun s =>
  match runBelow i.submit i.globals exprs (s.record (.running exprs.length)) with
  | .raised x s => .raised x (if x.isEvaluation then s.record (.failed x) else s)
  | other => other

/-- Binds primitives in the global frame. -/
def register (i : Interpreter) (table : Registry.Table) : Eval Unit :=
  Store.register i.machine.depth i.globals table

/-- Binds a value in the global frame. -/
def define (i : Interpreter) (key : Registry.Key) (v : Value) : Eval Unit := do
  let n ← Eval.ofAnswer key.toSymbol
  Store.define i.machine.depth i.globals (.sym n) v

end Interpreter

end LispCore

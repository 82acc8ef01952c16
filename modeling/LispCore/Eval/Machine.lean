import LispCore.Eval.Form
import LispCore.Eval.Outcome
import LispCore.Eval.Routine
import LispCore.Store.Frames

/-!
# The evaluator

`Evaluator.step` takes an expression one step: to its value, or, in tail position only, to a call
that is still to be run. `Evaluator.finish` runs such calls one after the other, so a chain of tail
calls nests no deeper than its first.

An evaluator is built level by level. The one of level `d + 1` evaluates parts of an expression,
bodies of functions it has to wait for, and what primitives ask of it, with the evaluator of level
`d`; below level zero lies a floor, which for a running program is an exhausted stack. So `d` bounds
the nesting of evaluations, and only loops need a bound of their own: no loop takes more than
`turns` turns.
-/

namespace LispCore

structure Machine where
  library : Library
  /-- How deep evaluations may nest. -/
  limit : Nat
  /-- How many turns one loop may take. -/
  turns : Nat
  /-- How deep a value may nest to be shown in a message. -/
  depth : Nat

/-- Whether the value of an expression is the value of the whole, or is used further. -/
inductive Position
  | tail | inner
  deriving DecidableEq

/-- A value, or a function's body to be run in the frame made for it. -/
inductive Step
  | value (v : Value)
  | call (fn : ClosureRef) (env : FrameRef)

structure Evaluator where
  step : Value → FrameRef → Position → Eval Step
  primitive : Primitive → List Value → Eval Value

namespace Evaluator

/-- The stack has no room left. -/
def exhausted : Evaluator where
  step _ _ _ := Eval.raise .overflow
  primitive _ _ := Eval.raise .overflow

/-- The value of an expression that is used further. No call is left over there. -/
def value (ev : Evaluator) (e : Value) (f : FrameRef) : Eval Value := fun s =>
  match ev.step e f .inner s with
  | .done (.value v) s => .done v s
  | .done (.call ..) _ => .unfinished
  | .raised x s => .raised x s
  | .unfinished => .unfinished

/-- The values of expressions, from left to right. -/
def values (ev : Evaluator) (f : FrameRef) : List Value → Eval (List Value)
  | [] => pure []
  | e :: es => do
    let v ← ev.value e f
    let vs ← ev.values f es
    pure (v :: vs)

/-- Evaluates forms in order; the last one has the position of the whole. -/
def body (ev : Evaluator) (f : FrameRef) (pos : Position) : List Value → Eval Step
  | [] => pure (.value .nil)
  | [e] => ev.step e f pos
  | e :: es => do
    let _ ← ev.value e f
    ev.body f pos es

/-- Runs the call that is left over, and the one left over from that, until there is a value. -/
def finish (ev : Evaluator) : (turns : Nat) → Step → Eval Value
  | _, .value v, s => .done v s
  | 0, .call .., _ => .unfinished
  | n + 1, .call fn f, s =>
    match ev.body f .tail (s.closure fn).body s with
    | .done st s => ev.finish n st s
    | .raised x s => .raised x s
    | .unfinished => .unfinished

/-- Evaluates the forms of a body for their effects. -/
def each (ev : Evaluator) (f : FrameRef) : List Value → Eval Unit
  | [] => pure ()
  | e :: es => do
    let _ ← ev.value e f
    ev.each f es

/-- Repeats the body as long as the test does not give `#F`. -/
def loop (ev : Evaluator) (f : FrameRef) (test : Value) (body : List Value) :
    (turns : Nat) → Eval Value
  | 0, _ => .unfinished
  | n + 1, s =>
    match ev.value test f s with
    | .done c s =>
      if c.isTrue then
        match ev.each f body s with
        | .done _ s => ev.loop f test body n s
        | .raised x s => .raised x s
        | .unfinished => .unfinished
      else .done .nil s
    | .raised x s => .raised x s
    | .unfinished => .unfinished

theorem finish_value (ev : Evaluator) (n : Nat) (v : Value) :
    ev.finish n (.value v) = pure v := by
  cases n <;> rfl

theorem finish_call (ev : Evaluator) (n : Nat) (fn : ClosureRef) (f : FrameRef) (s : Store) :
    ev.finish (n + 1) (.call fn f) s =
      (ev.body f .tail (s.closure fn).body >>= ev.finish n) s := by
  simp only [finish, bind, Eval.bind]
  rcases ev.body f .tail (s.closure fn).body s with _ | _ | _ <;> rfl

theorem loop_succ (ev : Evaluator) (f : FrameRef) (test : Value) (body : List Value) (n : Nat) :
    ev.loop f test body (n + 1) = (do
      let c ← ev.value test f
      if c.isTrue then do
        ev.each f body
        ev.loop f test body n
      else pure .nil) := by
  funext s
  simp only [loop, bind, Eval.bind]
  rcases ev.value test f s with ⟨c, t⟩ | ⟨x, t⟩ | _ <;> simp only []
  split
  · rw [Eval.bind]
    rcases ev.each f body t with _ | _ | _ <;> rfl
  · rfl

/-- An expression's value, with all calls run. -/
def complete (ev : Evaluator) (turns : Nat) (e : Value) (f : FrameRef) : Eval Value := do
  let st ← ev.step e f .tail
  ev.finish turns st

end Evaluator

/-- The frame of a call: the parameters bound to the arguments, inside the function's own frame. -/
def enter (fn : ClosureRef) (args : List Value) : Eval FrameRef := fun s =>
  let c := s.closure fn
  if args.length = c.params.length then
    let (f, s) := s.addFrame ⟨c.params.zip args, some c.env⟩
    .done f s
  else .raised (.arity c.params.length args.length) s

def notCallable {α : Type} (depth : Nat) (v : Value) : Eval α := fun s =>
  .blocked (.showing (s.text depth v) (.notCallable v)) s

namespace Machine

/-- Applies a function or a primitive and waits for its value. -/
def call (m : Machine) (ev : Evaluator) (primitive : Primitive → List Value → Eval Value)
    (fn : Value) (args : List Value) : Eval Value :=
  match fn with
  | .closure c => do
    let f ← enter c args
    ev.finish m.turns (.call c f)
  | .prim p => primitive p args
  | v => notCallable m.depth v

/-- Evaluates an expression with a given evaluator. An exhausted stack ends here. -/
def evaluateWith (m : Machine) (ev : Evaluator) (e : Value) (f : FrameRef) : Eval Value :=
  Eval.guarded m.limit (ev.complete m.turns e f)

/-- Applies a function or a primitive with a given evaluator. An exhausted stack ends here. -/
def applyWith (m : Machine) (ev : Evaluator) (fn : Value) (args : List Value) : Eval Value :=
  Eval.guarded m.limit (m.call ev ev.primitive fn args)

/-- Runs a routine, with an evaluator for what it asks. -/
def perform (m : Machine) (ev : Evaluator) : Routine Value → Eval Value
  | .done v, s => .done v s
  | .raise x, s => .raised x s
  | .never, _ => .unfinished
  | .read k, s => m.perform ev (k s) s
  | .update f k, s =>
    match f s with
    | (v, s) => m.perform ev (k v) s
  | .eval e f k, s => Eval.caught (m.evaluateWith ev e f) (fun r => m.perform ev (k r)) s
  | .apply fn args k, s => Eval.caught (m.applyWith ev fn args) (fun r => m.perform ev (k r)) s

/-- Runs a primitive. Its failure is logged and becomes the cause of a failure under its name, whose
message has the cause's in it. If that cannot be written, what stands in the way is what comes of
the primitive. An exhausted stack is not the primitive's failure and goes on as it is. -/
def runPrimitive (m : Machine) (ev : Evaluator) (p : Primitive) (args : List Value) :
    Eval Value := fun s =>
  match m.perform ev (m.library p args) s with
  | .raised .overflow s => .raised .overflow s
  | .raised x s =>
    .blocked (.showing x.text fun _ => .primitive p.name x) (s.record (.primitiveRaised p.name x))
  | other => other

/-- Applies a function or a primitive. In tail position a function's body is left over. -/
def applyStep (m : Machine) (ev : Evaluator) (fn : Value) (args : List Value) (pos : Position) :
    Eval Step :=
  match pos, fn with
  | .tail, .closure c => do
    let f ← enter c args
    pure (.call c f)
  | _, fn => do
    let v ← m.call ev (m.runPrimitive ev) fn args
    pure (.value v)

/-- Evaluates a special form. -/
def formStep (m : Machine) (ev : Evaluator) (f : FrameRef) (pos : Position) : Form → Eval Step
  | .define n e => do
    let v ← ev.value e f
    Store.define m.depth f (.sym n) v
    pure (.value v)
  | .assign n e => do
    let v ← ev.value e f
    Store.assign m.depth f (.sym n) v
    pure (.value v)
  | .cond c t e => do
    let v ← ev.value c f
    if v.isTrue then ev.step t f pos
    else
      match e with
      | some e => ev.step e f pos
      | none => pure (.value .nil)
  | .loop c body => do
    let v ← ev.loop f c body m.turns
    pure (.value v)
  | .sequence body => ev.body f pos body
  | .lambda c => do
    let r ← Eval.update (·.addClosure c)
    pure (.value (.closure r))
  | .quote v => pure (.value v)

/-- One step of an expression, its parts evaluated with `ev`. -/
def stepWith (m : Machine) (ev : Evaluator) (e : Value) (f : FrameRef) (pos : Position) :
    Eval Step := fun s =>
  match e with
  | .sym n =>
    match s.lookup? f n with
    | some v => .done (.value v) s
    | none => .blocked (s.unbound m.depth (.sym n)) s
  | .pair r =>
    match Keyword.ofHead? (s.pair r).head with
    | some k =>
      match Form.read s m.depth f k (s.pair r).tail with
      | .ok form => m.formStep ev f pos form s
      | .error o => .blocked o s
    | none =>
      match s.toList "Argument list" (s.pair r).tail with
      | .ok operands =>
        let head := (s.pair r).head
        (do
          let fn ← ev.value head f
          let args ← ev.values f operands
          m.applyStep ev fn args pos) s
      | .error o => .blocked o s
  | .foreign h =>
    .blocked (.showing h.repr.answer fun t => .malformed (.notExpression t) (some (.foreign h))) s
  | v => .done (.value v) s

/-- The evaluator one level above. -/
def above (m : Machine) (ev : Evaluator) : Evaluator where
  step := m.stepWith ev
  primitive := m.runPrimitive ev

/-- The evaluator `d` levels above a floor. -/
def evaluator (m : Machine) (floor : Evaluator) : (d : Nat) → Evaluator
  | 0 => floor
  | d + 1 => m.above (m.evaluator floor d)

/-- The evaluator that a program runs with. -/
def top (m : Machine) : Evaluator := m.evaluator .exhausted m.limit

/-- The value of an expression in a frame. -/
def evaluate (m : Machine) (e : Value) (f : FrameRef) : Eval Value := m.evaluateWith m.top e f

/-- The value of a function or a primitive on arguments. -/
def apply (m : Machine) (fn : Value) (args : List Value) : Eval Value := m.applyWith m.top fn args

/-- One step of an expression in a frame. -/
def step (m : Machine) (e : Value) (f : FrameRef) (pos : Position) : Eval Step := m.top.step e f pos

/-- What a step comes to when the calls it leaves over are run. -/
def resume (m : Machine) (st : Step) : Eval Value := m.top.finish m.turns st

end Machine

end LispCore

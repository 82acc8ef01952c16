import LispCore.Store.Lists
import LispCore.Store.View

/-!
# Special forms

A list with a keyword at its head is read as a `Form` before anything in it is evaluated, so an
ill-formed one is refused with nothing done. Reading only looks at the store. Operands that run in a
circle are read for ever.
-/

namespace LispCore

/-- The symbols of a parameter list, all different. -/
def Store.parameters (s : Store) (depth : Nat) : List Value → Answer (List Symbol)
  | [] => .ok []
  | .sym n :: vs =>
    match s.parameters depth vs with
    | .ok ns => .ok (n :: ns)
    | .error o => .error o
  | v :: _ =>
    .error (.showing (s.describe depth v) fun t => .malformed (.parameterNotSymbol t) (some v))

/-- A function of the given parameters. -/
def Store.makeClosure (s : Store) (depth : Nat) (params body : List Value) (env : FrameRef) :
    Answer Closure :=
  match s.parameters depth params with
  | .ok ns =>
    if ns.Nodup then .ok ⟨ns, body, env⟩
    else .error (.failure (.malformed .duplicateParameter none))
  | .error o => .error o

/-- The elements of a parameter list, which may be a vector or a list. -/
def Store.parameterList (s : Store) (depth : Nat) : Value → Answer (List Value)
  | .vec r => .ok (s.vec r).toList
  | .nil => .ok []
  | .pair r => s.toList "Parameter list" (.pair r)
  | v => .error (.showing (s.describe depth v) fun t => .malformed (.parameterList t) (some v))

inductive Form
  | define (name : Symbol) (value : Value)
  | assign (name : Symbol) (value : Value)
  | cond (test consequent : Value) (alternative : Option Value)
  | loop (test : Value) (body : List Value)
  | sequence (body : List Value)
  | lambda (fn : Closure)
  | quote (value : Value)

namespace Form

/-- What stands in the way of a form that binds a name which is no symbol. -/
def nameNotSymbol (s : Store) (depth : Nat) (k : Keyword) (v : Value) : Obstacle :=
  .showing (s.describe depth v) fun t => .malformed (.nameNotSymbol k t) (some v)

/-- The form that a keyword and its operands make in a frame. -/
def ofOperands (s : Store) (depth : Nat) (env : FrameRef) : Keyword → List Value → Answer Form
  | .define, [.sym n, e] => .ok (.define n e)
  | .define, [v, _] => .error (nameNotSymbol s depth .define v)
  | .assign, [.sym n, e] => .ok (.assign n e)
  | .assign, [v, _] => .error (nameNotSymbol s depth .assign v)
  | .cond, [c, t] => .ok (.cond c t none)
  | .cond, [c, t, e] => .ok (.cond c t (some e))
  | .loop, c :: body => .ok (.loop c body)
  | .sequence, body => .ok (.sequence body)
  | .lambda, ps :: body =>
    match s.parameterList depth ps with
    | .ok params => (s.makeClosure depth params body env).map .lambda
    | .error o => .error o
  | .quote, [v] => .ok (.quote v)
  | k, _ => .error (.failure (.malformed (.operandCount k) none))

/-- The form that a keyword and the rest of its list make in a frame. A message shows values that
nest at most `depth` deep. -/
def read (s : Store) (depth : Nat) (env : FrameRef) (k : Keyword) (rest : Value) : Answer Form :=
  match s.toList "Special form operands" rest with
  | .ok operands => ofOperands s depth env k operands
  | .error o => .error o

end Form

end LispCore

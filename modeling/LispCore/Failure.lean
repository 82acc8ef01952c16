import LispCore.Keyword
import LispCore.Text.Quoted

/-!
# Failures

What can go wrong, by cause. A failure keeps the values it is about and, where its message shows
a value, the text that value had when the failure arose, since the value may change later.
`Failure.kind` and `Failure.text` hold all wording. `overflow` is the exhausted stack itself,
which never leaves an evaluation: it becomes `recursionLimit` on the way.

A question has an answer, or something stands in the way of it (`Obstacle`): a failure, or a search
that goes on for ever. So a failure whose message is to show a value may not even arise, because the
value has no text (`Obstacle.showing`).
-/

namespace LispCore

/-- How an expression or an operand list is ill formed. -/
inductive Malformation
  | notProper (what : String)
  | notIterable
  | operandCount (form : Keyword)
  | nameNotSymbol (form : Keyword) (shown : String)
  | parameterList (shown : String)
  | parameterNotSymbol (shown : String)
  | duplicateParameter
  | notExpression (shown : String)
  | notDefinable (shown : String)
  | rejected
  deriving DecidableEq, Inhabited

/-- What a form asks of its operands. -/
def Keyword.operandRule : Keyword → String
  | .define => "def requires exactly 2 operands: (def name value)"
  | .assign => "set requires exactly 2 operands: (set name value)"
  | .cond => "if requires a condition, a then-branch and an optional else-branch"
  | .loop => "while requires a condition"
  | .sequence => "do takes any operands"
  | .lambda => "fn requires at least a parameter list"
  | .quote => "quote expects exactly 1 operand"

def Malformation.message : Malformation → String
  | .notProper what => what ++ " must be a proper list"
  | .notIterable => "Cannot iterate over an improper list"
  | .operandCount form => form.operandRule
  | .nameNotSymbol form shown => form.name ++ " first operand must be a Symbol, got " ++ shown
  | .parameterList shown => "fn parameter list must be a vector or list, got " ++ shown
  | .parameterNotSymbol shown => "Parameter must be a symbol, got " ++ shown
  | .duplicateParameter => "Duplicate parameter name in parameter list"
  | .notExpression shown => "Cannot evaluate " ++ shown
  | .notDefinable shown => "Cannot define " ++ shown ++ " as a symbol"
  | .rejected => "rejected"

inductive Failure
  | unbound (name : Value) (shown : String)
  | notCallable (value : Value) (shown : String)
  | arity (expected got : Nat)
  | malformed (reason : Malformation) (expr : Option Value)
  | primitive (name : String) (cause : Failure)
  | recursionLimit (limit : Nat)
  | fault (f : Fault)
  | overflow
  deriving Inhabited

namespace Failure

def kind : Failure → String
  | .unbound .. => "UnboundSymbol"
  | .notCallable .. => "NotCallable"
  | .arity .. => "ArityMismatch"
  | .malformed .. => "MalformedExpression"
  | .primitive .. => "PrimitiveError"
  | .recursionLimit _ => "RecursionLimit"
  | .fault f => f.kind
  | .overflow => "RecursionError"

/-- Whether the failure is one of the language's own, as against one of the host. -/
def isEvaluation : Failure → Bool
  | .fault _ => false
  | .overflow => false
  | _ => true

end Failure

/-- What stands in the way of an answer. -/
inductive Obstacle
  | failure (x : Failure)
  | endless
  deriving Inhabited

/-- An answer, or what stands in its way. -/
abbrev Answer (α : Type) := Except Obstacle α

/-- A text of the host as an answer. -/
def Writing.answer : Writing → Answer String
  | .text t => .ok t
  | .fault f => .error (.failure (.fault f))
  | .overflow => .error (.failure .overflow)
  | .endless => .error .endless

namespace Failure

/-- The message. -/
def text : Failure → Answer String
  | .unbound _ shown => .ok ("Unbound symbol " ++ shown)
  | .notCallable _ shown => .ok ("Cannot apply non-function " ++ shown)
  | .arity expected got =>
    .ok ("Expected " ++ toString expected ++ " argument(s), got " ++ toString got)
  | .malformed reason _ => .ok reason.message
  | .primitive name cause => cause.text.map ("Primitive " ++ name ++ " failed: " ++ ·)
  | .recursionLimit limit => .ok ("Recursion depth exceeded (limit " ++ toString limit ++ ")")
  | .fault f => f.text.answer
  | .overflow => .ok "native"

/-- Kind and quoted message, as the log shows a failure, or whatever the host shows for one of its
own. -/
def repr : Failure → Answer String
  | .fault (.other _ _ repr) => repr.answer
  | x => x.text.map fun t => x.kind ++ "(" ++ Text.quote t ++ ")"

end Failure

/-- What stands in the way when a failure is to show a text: the failure with that text, or what
stands in the way of the text. -/
def Obstacle.showing (shown : Answer String) (f : String → Failure) : Obstacle :=
  match shown with
  | .ok t => .failure (f t)
  | .error o => o

/-- What the debug log records. -/
inductive LogRecord
  | running (expressions : Nat)
  | failed (x : Failure)
  | primitiveRaised (name : String) (cause : Failure)
  | raisingLimit (limit : Int)
  deriving Inhabited

namespace LogRecord

/-- The part of the program that a record comes from. -/
def source : LogRecord → String
  | .running _ => "sail.interpreter"
  | .failed _ => "sail.interpreter"
  | .primitiveRaised .. => "sail.evaluation.apply"
  | .raisingLimit _ => "sail.config"

/-- What a record says. It is put into words when someone reads the log. -/
def text : LogRecord → Answer String
  | .running n => .ok ("Running program of " ++ toString n ++ " expression(s)")
  | .failed x => x.text.map ("Program failed: " ++ ·)
  | .primitiveRaised name cause => cause.repr.map ("Primitive " ++ name ++ " raised " ++ ·)
  | .raisingLimit limit => .ok ("Raising native recursion limit to " ++ toString limit)

end LogRecord

end LispCore

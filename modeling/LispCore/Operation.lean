/-!
# Operations of the standard library

The names under which the operations are bound, in the order in which they are registered.
-/

namespace LispCore

/-- What a primitive does. -/
inductive Operation
  | add | sub | mul | less | equal
  | list | cons | head | tail | setHead | setTail
  | vector | push | nth | count
  | note | fail | reject | overflow
  | unit | nothing | truth | print
  | eval | apply | map | attempt
  deriving DecidableEq, Inhabited

namespace Operation

def all : List Operation :=
  [.add, .sub, .mul, .less, .equal, .list, .cons, .head, .tail, .setHead, .setTail, .vector,
    .push, .nth, .count, .note, .fail, .reject, .overflow, .unit, .nothing, .truth, .print,
    .eval, .apply, .map, .attempt]

/-- The operation's own name, whatever name a primitive gives it. -/
def name : Operation → String
  | .add => "+"
  | .sub => "-"
  | .mul => "*"
  | .less => "<"
  | .equal => "="
  | .list => "list"
  | .cons => "cons"
  | .head => "head"
  | .tail => "tail"
  | .setHead => "set-head"
  | .setTail => "set-tail"
  | .vector => "vector"
  | .push => "push"
  | .nth => "nth"
  | .count => "count"
  | .note => "note"
  | .fail => "fail"
  | .reject => "fail-eval"
  | .overflow => "overflow"
  | .unit => "unit"
  | .nothing => "none"
  | .truth => "bool"
  | .print => "show"
  | .eval => "eval"
  | .apply => "apply"
  | .map => "map"
  | .attempt => "try"

def ofName? (n : String) : Option Operation :=
  all.find? (·.name == n)

end Operation

end LispCore

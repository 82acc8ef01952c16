import LispCore.Value

/-!
# Keywords

The seven names that make a list a special form when they stand at its head, whatever a frame
binds them to.
-/

namespace LispCore

inductive Keyword
  | define | assign | cond | loop | sequence | lambda | quote
  deriving DecidableEq, Inhabited

namespace Keyword

def all : List Keyword := [.define, .assign, .cond, .loop, .sequence, .lambda, .quote]

def name : Keyword → String
  | .define => "def"
  | .assign => "set"
  | .cond => "if"
  | .loop => "while"
  | .sequence => "do"
  | .lambda => "fn"
  | .quote => "quote"

/-- The keyword that a value at the head of a list is. -/
def ofHead? : Value → Option Keyword
  | .sym n => all.find? (·.name == n.name)
  | _ => none

end Keyword

end LispCore

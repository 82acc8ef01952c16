import LispCore.Decimal.Integer
import LispCore.Operation

/-!
# What the host complains about

A fault is an exception of the host: a native operation's arguments, an integer that is too long to
be written or read or too large to be floating, what is no name and no key, or whatever else a
native operation raises. Of the last the host knows the kind, and it can be asked for two texts, a
plain one and one for the debug log. Its objects have such texts as well. To write one takes code of
the host again, which may raise, exhaust the stack or go on for ever (`Writing`).
-/

namespace LispCore

mutual

inductive Fault
  | argumentCount (op : Operation) (takes got : Nat)
  | badArgument (op : Operation)
  | indexOutOfRange
  | failed (message : String)
  | integerTooLong
  | numeralTooLong (digits : Nat)
  | integerTooLarge
  | symbolName (type : String)
  | changeableKey (type : String)
  | target (name shown : String)
  | other (kind : String) (text repr : Writing)

/-- What the host comes to when it writes a text. -/
inductive Writing
  | text (t : String)
  | fault (f : Fault)
  | overflow
  | endless

end

deriving instance DecidableEq for Fault, Writing
deriving instance Inhabited for Fault, Writing

/-- The text, if it comes to one. -/
def Writing.shown : Writing → String
  | .text t => t
  | _ => ""

namespace Fault

def kind : Fault → String
  | .indexOutOfRange => "IndexError"
  | .failed _ => "ValueError"
  | .integerTooLong => "ValueError"
  | .numeralTooLong _ => "ValueError"
  | .integerTooLarge => "OverflowError"
  | .other kind .. => kind
  | _ => "TypeError"

/-- The limit on an integer's digits, as a complaint begins. -/
def digitsExceeded : String :=
  "Exceeds the limit (" ++ toString Decimal.digitLimit ++ " digits) for integer string conversion"

/-- What a complaint about digits ends with. -/
def digitsAdvice : String := "; use sys.set_int_max_str_digits() to increase the limit"

def text : Fault → Writing
  | .argumentCount op takes got =>
    .text (op.name ++ " takes " ++ toString takes ++ " argument(s), got " ++ toString got)
  | .badArgument op => .text (op.name ++ ": bad argument")
  | .indexOutOfRange => .text "nth: index out of range"
  | .failed message => .text message
  | .integerTooLong => .text (digitsExceeded ++ digitsAdvice)
  | .numeralTooLong n =>
    .text (digitsExceeded ++ ": value has " ++ toString n ++ " digits" ++ digitsAdvice)
  | .integerTooLarge => .text "int too large to convert to float"
  | .symbolName type => .text ("Symbol name must be a str, got " ++ type)
  | .changeableKey type => .text ("unhashable type: '" ++ type ++ "'")
  | .target name shown => .text ("Primitive " ++ name ++ " must be callable, got " ++ shown)
  | .other _ text _ => text

end Fault

end LispCore

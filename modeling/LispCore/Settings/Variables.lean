import LispCore.Decimal.Integer
import LispCore.Text.Quoted
import LispCore.Text.Upper

/-!
# Settings from the environment

A variable that is absent or blank counts as not set. The stack limit must be positive, and the
name of a log level is taken in upper case.
-/

namespace LispCore.Settings

/-- The environment's variables by name. -/
abbrev Variables := List (String × String)

inductive Problem
  | notInteger (var raw : String)
  | notPositive (limit : Int)
  | limitTooLarge
  | unknownLevel (name : String)

def Problem.kind : Problem → String
  | .limitTooLarge => "OverflowError"
  | _ => "ValueError"

def limitVariable : String := "SAIL_RECURSION_LIMIT"

def levelVariable : String := "SAIL_LOG_LEVEL"

def Problem.message : Problem → String
  | .notInteger var raw => var ++ " must be an integer, got " ++ Text.quote raw
  | .notPositive limit => limitVariable ++ " must be positive, got " ++ toString limit
  | .limitTooLarge => "Python int too large to convert to C int"
  | .unknownLevel name => "Unknown level: " ++ Text.quote name

/-- The integer that a variable holds, or `default` if it is not set. -/
def integer (env : Variables) (var : String) (default : Option Int) :
    Except Problem (Option Int) :=
  match env.lookup var with
  | none => .ok default
  | some raw =>
    if (Text.strip raw.toList).isEmpty then .ok default
    else
      match Decimal.integer? raw with
      | some n => .ok (some n)
      | none => .error (.notInteger var raw)

/-- The stack limit that the environment asks for. -/
def recursionLimit (env : Variables) : Except Problem (Option Int) :=
  match integer env limitVariable none with
  | .ok (some n) => if n ≤ 0 then .error (.notPositive n) else .ok (some n)
  | other => other

def defaultLevel : String := "WARNING"

/-- The name of the log level that the environment asks for. -/
def logLevel (env : Variables) : String :=
  match Text.upper (Text.strip ((env.lookup levelVariable).getD defaultLevel).toList) with
  | [] => defaultLevel
  | cs => String.ofList cs

end LispCore.Settings

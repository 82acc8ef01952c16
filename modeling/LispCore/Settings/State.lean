import LispCore.Failure
import LispCore.Settings.Variables

/-!
# What settings change

The stack limit, which is raised and never lowered, and the log's handlers and level. What is logged
of a limit is logged before it is found too large. Logging is configured once. The handler is there
before the level is looked at, so an unknown level leaves it behind.
-/

namespace LispCore.Settings

structure State where
  limit : Int := 1000
  handlers : Nat := 0
  level : Int := 30
  log : Array LogRecord := #[]

/-- A log level by name or by number. -/
inductive Level
  | name (t : String)
  | number (n : Int)

/-- The levels that have names. -/
def levels : List (String × Int) :=
  [("CRITICAL", 50), ("FATAL", 50), ("ERROR", 40), ("WARNING", 30), ("WARN", 30), ("INFO", 20),
    ("DEBUG", 10), ("NOTSET", 0)]

def Level.value : Level → Except Problem Int
  | .number n => .ok n
  | .name t =>
    match levels.lookup t with
    | some n => .ok n
    | none => .error (.unknownLevel t)

namespace State

/-- The largest stack limit: what 32 bits hold with a sign. -/
def largestLimit : Int := 2147483647

/-- Raises the stack limit to what the environment asks for. -/
def raiseLimit (p : State) (env : Variables) : Option Problem × State :=
  match recursionLimit env with
  | .ok (some n) =>
    if p.limit < n then
      let p := { p with log := p.log.push (.raisingLimit n) }
      if n ≤ largestLimit then (none, { p with limit := n }) else (some .limitTooLarge, p)
    else (none, p)
  | .ok none => (none, p)
  | .error x => (some x, p)

/-- Adds a handler and sets the level, unless there is a handler already. -/
def configureLogging (p : State) (env : Variables) (level : Option Level) :
    Option Problem × State :=
  if p.handlers = 0 then
    let p := { p with handlers := 1 }
    match (level.getD (.name (logLevel env))).value with
    | .ok n => (none, { p with level := n })
    | .error x => (some x, p)
  else (none, p)

end State

end LispCore.Settings

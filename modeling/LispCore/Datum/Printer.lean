import LispCore.Datum
import LispCore.Decimal.Layout

/-!
# Printed data

`write` gives the text of a datum as source writes it: lists in parentheses, vectors in brackets,
`#T`, `#F` and `nil`. Readable text puts strings between double quotes, and colour paints symbols
and callables.
-/

namespace LispCore.Datum

structure Style where
  readable : Bool
  color : Bool

/-- Strings in quotes, no colour. -/
def Style.plain : Style := ⟨true, false⟩

/-- Strings as they are, no colour. -/
def Style.raw : Style := ⟨false, false⟩

inductive Paint
  | symbol | closure | primitive

/-- The terminal's code for a colour. -/
def Paint.code : Paint → String
  | .symbol => "\x1b[94m"
  | .closure => "\x1b[92m"
  | .primitive => "\x1b[95m"

def Style.paint (st : Style) (p : Paint) (t : String) : String :=
  if st.color then p.code ++ t ++ "\x1b[0m" else t

/-- One character of a readable string. -/
def escapeChar : Char → List Char
  | '\\' => ['\\', '\\']
  | '"' => ['\\', '"']
  | '\n' => ['\\', 'n']
  | '\t' => ['\\', 't']
  | '\r' => ['\\', 'r']
  | c => [c]

/-- A string between double quotes. -/
def readableString (t : String) : String :=
  String.ofList ('"' :: t.toList.flatMap escapeChar ++ ['"'])

def boolText (b : Bool) : String := if b then "#T" else "#F"

def primitiveText (p : Primitive) : String := "<primitive " ++ p.name ++ ">"

/-- The text of the end of a list that is neither the empty list nor a pair. -/
def ending (inTail : Bool) (t : String) : String := if inTail then " . " ++ t else t

mutual

/-- The text of a datum. In the tail of a list a pair goes on with the list, and the empty list
ends it. -/
def write (st : Style) (inTail : Bool) : Datum → String
  | .nil => if inTail then "" else "nil"
  | .bool b => ending inTail (boolText b)
  | .int i => ending inTail (toString i)
  | .float x => ending inTail (Decimal.floatText x)
  | .str t => ending inTail (if st.readable then readableString t else t)
  | .sym n => ending inTail (st.paint .symbol n.name)
  | .pair h t =>
    if inTail then " " ++ write st false h ++ write st true t
    else "(" ++ write st false h ++ write st true t ++ ")"
  | .vec ds => ending inTail ("[" ++ " ".intercalate (writeAll st ds) ++ "]")
  | .prim p => ending inTail (st.paint .primitive (primitiveText p))
  | .closure _ ps ds =>
    let text := " ".intercalate
      (("(fn [" ++ " ".intercalate (ps.map Symbol.name) ++ "]") ::
        writeAll { st with color := false } ds)
    ending inTail (st.paint .closure (text ++ ")"))
  | .foreign h => ending inTail h.text.shown

def writeAll (st : Style) : List Datum → List String
  | [] => []
  | d :: ds => write st false d :: writeAll st ds

end

/-- The text of a datum. -/
def text (st : Style) (d : Datum) : String := write st false d

end LispCore.Datum

import LispCore.Store.Frames

/-!
# Registering primitives

A table binds names to primitives. All of it is checked, entry by entry and the name before the
target, and what it asks for is put aside; only then are the names defined, one after the other. An
operation by itself becomes a primitive under the name it is given. A table made from entries has
each key once; a text and a symbol are different keys even if they spell one name, and then the
later one is bound.
-/

namespace LispCore

namespace Registry

/-- What a table gives as a name. -/
inductive Key
  | text (t : String)
  | symbol (n : Symbol)
  | other (type : String)
  deriving DecidableEq

/-- What a table gives as a primitive. -/
inductive Target
  | operation (op : Operation)
  | value (v : Value)

abbrev Table := List (Key × Target)

def Key.toSymbol : Key → Answer Symbol
  | .text t => .ok ⟨t⟩
  | .symbol n => .ok n
  | .other type => .error (.failure (.fault (.symbolName type)))

/-- The primitive that a name is to be bound to, numbered `next` if it is a new one. -/
def Target.primitive (s : Store) (depth next : Nat) (n : Symbol) : Target → Answer Primitive
  | .operation op => .ok ⟨next, n.name, op⟩
  | .value (.prim p) => .ok p
  | .value v => .error (.showing (s.describe depth v) fun t => .fault (.target n.name t))

/-- How many new primitives a target takes. -/
def Target.fresh : Target → Nat
  | .operation _ => 1
  | .value _ => 0

/-- The bindings that a table asks for, or the first thing wrong with it. -/
def bindings (s : Store) (depth : Nat) :
    (next : Nat) → Table → Answer (List (Symbol × Primitive))
  | _, [] => .ok []
  | next, (key, target) :: rest => do
    let n ← key.toSymbol
    let p ← target.primitive s depth next n
    let bs ← bindings s depth (next + target.fresh) rest
    .ok ((n, p) :: bs)

/-- The definitions to be made for bindings: every name once, at its first place and with its last
primitive. -/
def definitions (bs : List (Symbol × Primitive)) : List (Value × Value) :=
  (Bindings.merge (· == ·) bs).map fun (n, p) => (.sym n, .prim p)

/-- The host's types that can change, so that nothing of them is a key. -/
def changeableTypes : List String := ["list", "dict"]

def Key.changeable? : Key → Option String
  | .other type => if changeableTypes.contains type then some type else none
  | _ => none

/-- The table of given entries: every key once, at its first place and with its last target. -/
def ofEntries (entries : List (Key × Target)) : Answer Table :=
  match entries.findSome? fun e => e.1.changeable? with
  | some type => .error (.failure (.fault (.changeableKey type)))
  | none => .ok (Bindings.merge (· == ·) entries)

/-- The table that binds every operation under its own name. -/
def standard : Table := Operation.all.map fun op => (.text op.name, .operation op)

/-- The table of given primitives, each under its own name. -/
def ofPrimitives (ps : List Primitive) : Table := ps.map fun p => (.text p.name, .value (.prim p))

end Registry

/-- A new primitive under a name of its own, or under the operation's if it has none. -/
def Store.addNamed (s : Store) (name : Option String) (op : Operation) : Primitive × Store :=
  match name with
  | some n => s.addPrimitive (if n.isEmpty then op.name else n) op
  | none => s.addPrimitive op.name op

/-- Binds the names of a table in a frame. -/
def Store.register (depth : Nat) (f : FrameRef) (table : Registry.Table) : Eval Unit := fun s =>
  match Registry.bindings s depth s.primitives table with
  | .ok bs =>
    let s := { s with primitives := table.foldl (fun n e => n + e.2.fresh) s.primitives }
    defineAll depth f (Registry.definitions bs) s
  | .error o => .blocked o s

end LispCore

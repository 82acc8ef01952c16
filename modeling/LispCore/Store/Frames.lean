import LispCore.Bindings
import LispCore.Eval.Outcome
import LispCore.Store.View

/-!
# Frames

A frame binds symbols to values and leads to the frame around it, which was made earlier. A name
means what the nearest frame that binds it says. `define` binds in the frame itself, `assign`
changes the nearest binding there is.
-/

namespace LispCore

namespace Frame

def empty (outer : Option FrameRef) : Frame := ⟨[], outer⟩

def get? (f : Frame) (n : Symbol) : Option Value := f.vars.lookup n

def binds (f : Frame) (n : Symbol) : Bool := f.vars.any (·.1 == n)

/-- Puts a value under a name: in its place if the name is there, at the end otherwise. -/
def set (f : Frame) (n : Symbol) (v : Value) : Frame :=
  { f with vars := Bindings.put (· == ·) n v f.vars }

end Frame

namespace Store

/-- A new frame with no bindings. -/
def addEmptyFrame (s : Store) (outer : Option FrameRef) : FrameRef × Store :=
  s.addFrame (.empty outer)

/-- Binds a name in one frame. -/
def bind (s : Store) (f : FrameRef) (n : Symbol) (v : Value) : Store :=
  { s with frames := s.frames.modify f (·.set n v) }

/-- The frame around, if it is an earlier one. -/
def outer? (s : Store) (f : FrameRef) : Option FrameRef :=
  (s.frame f).outer.filter (· < f)

theorem lt_of_outer? {s : Store} {f o : FrameRef} (h : s.outer? f = some o) : o < f := by
  simp only [outer?, Option.filter_eq_some_iff] at h
  simpa using h.2

/-- The frames from `f` outward. -/
def chain (s : Store) (f : FrameRef) : List FrameRef :=
  match _h : s.outer? f with
  | some o => f :: s.chain o
  | none => [f]
termination_by f
decreasing_by exact lt_of_outer? ‹_›

theorem chain_eq (s : Store) (f : FrameRef) :
    s.chain f = f :: ((s.outer? f).map s.chain).getD [] := by
  rw [chain]
  split <;> simp [*]

/-- The outermost frame around `f`. -/
def root (s : Store) (f : FrameRef) : FrameRef :=
  match _h : s.outer? f with
  | some o => s.root o
  | none => f
termination_by f
decreasing_by exact lt_of_outer? ‹_›

theorem root_eq (s : Store) (f : FrameRef) : s.root f = ((s.outer? f).map s.root).getD f := by
  rw [root]
  split <;> simp [*]

/-- The nearest frame from `f` outward that binds a name. -/
def find? (s : Store) (f : FrameRef) (n : Symbol) : Option FrameRef :=
  if (s.frame f).binds n then some f
  else
    match _h : s.outer? f with
    | some o => s.find? o n
    | none => none
termination_by f
decreasing_by exact lt_of_outer? ‹_›

theorem find?_eq (s : Store) (f : FrameRef) (n : Symbol) :
    s.find? f n =
      if (s.frame f).binds n then some f else (s.outer? f).bind fun o => s.find? o n := by
  rw [find?]
  split
  · rfl
  · split <;> simp [*]

/-- What a name means in a frame. -/
def lookup? (s : Store) (f : FrameRef) (n : Symbol) : Option Value :=
  (s.find? f n).bind fun g => (s.frame g).get? n

/-! ## Names given as values

A host may pass any value as a name. Only a symbol can be bound, and what can change is not even
looked for. A message shows values that nest at most `depth` deep. -/

/-- What stands in the way when a name is not found. -/
def unbound (s : Store) (depth : Nat) (name : Value) : Obstacle :=
  .showing (s.display depth name) (.unbound name)

/-- The symbol to look for, if the name is one. -/
def key (name : Value) : Answer (Option Symbol) :=
  match name.changeable? with
  | some type => .error (.failure (.fault (.changeableKey type)))
  | none => .ok name.symbol?

/-- Whether a name is bound in a frame or outward. Nothing but a symbol is. -/
def contains (s : Store) (f : FrameRef) (name : Value) : Bool :=
  (name.symbol?.bind (s.find? f)).isSome

def find (s : Store) (f : FrameRef) (name : Value) : Answer (Option FrameRef) := do
  let n ← key name
  .ok (n.bind (s.find? f))

def lookup (s : Store) (depth : Nat) (f : FrameRef) (name : Value) : Answer Value := do
  let n ← key name
  match n.bind (s.lookup? f) with
  | some v => .ok v
  | none => .error (s.unbound depth name)

/-- Changes the nearest binding of a name. -/
def assign (depth : Nat) (f : FrameRef) (name v : Value) : Eval Unit := do
  let n ← Eval.ofAnswer (key name)
  fun s =>
    match n.bind fun n => (s.find? f n).map fun g => s.bind g n v with
    | some s => .done () s
    | none => .blocked (s.unbound depth name) s

theorem assign_sym (depth : Nat) (f : FrameRef) (n : Symbol) (v : Value) (s : Store) :
    assign depth f (.sym n) v s =
      match s.find? f n with
      | some g => .done () (s.bind g n v)
      | none => .raised (.unbound (.sym n) n.name) s := by
  change (match (s.find? f n).map fun g => s.bind g n v with
    | some s => Outcome.done () s
    | none => .blocked (s.unbound depth (.sym n)) s) = _
  rcases s.find? f n with _ | g <;> rfl

/-- Binds a name in the frame itself. -/
def define (depth : Nat) (f : FrameRef) (name v : Value) : Eval Unit :=
  match name with
  | .sym n => Eval.modify (·.bind f n v)
  | name => fun s =>
    .blocked (.showing (s.describe depth name) fun t => .malformed (.notDefinable t) (some name)) s

theorem define_sym (depth : Nat) (f : FrameRef) (n : Symbol) (v : Value) (s : Store) :
    define depth f (.sym n) v s = .done () (s.bind f n v) := rfl

/-- Names and values with every name once, at its first place and with its last value. -/
def mapping (entries : List (Value × Value)) : Answer (List (Value × Value)) :=
  match entries.findSome? fun e => e.1.changeable? with
  | some type => .error (.failure (.fault (.changeableKey type)))
  | none => .ok (Bindings.merge Value.same entries)

/-- Defines names in order and stops at the first that is no symbol; what came before stays. -/
def defineAll (depth : Nat) (f : FrameRef) : List (Value × Value) → Eval Unit
  | [] => pure ()
  | (name, v) :: rest => do
    define depth f name v
    defineAll depth f rest

/-! ## Text -/

/-- The bindings of one frame. -/
def bindingsText (s : Store) (depth : Nat) (f : FrameRef) : Answer String := do
  let entries ← (s.frame f).vars.mapM fun (n, v) => do
    let t ← s.describe depth v
    .ok (n.name ++ ": " ++ t)
  .ok ("\x7b" ++ ", ".intercalate entries ++ "\x7d")

/-- One frame, and whether there is another around it. -/
def frameText (s : Store) (depth : Nat) (f : FrameRef) : Answer String := do
  let t ← s.bindingsText depth f
  .ok (t ++ if (s.frame f).outer.isSome then " -> ..." else "")

/-- A frame and all frames around it. -/
def chainText (s : Store) (depth : Nat) (f : FrameRef) : Answer String := do
  let ts ← (s.chain f).mapM (s.bindingsText depth)
  .ok ("<Environment chain: " ++ " -> ".intercalate ts ++ ">")

end Store

end LispCore

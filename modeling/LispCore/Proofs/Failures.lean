import LispCore.Proofs.Bounds
import LispCore.Proofs.Standard

/-!
# What an evaluation can fail with

A failure of a primitive has a cause, which may be a failure of a primitive again. `Failure.layers`
are the primitives on the way and `Failure.root` is what the way ends in; both make up the message
(`Failure.text_eq`). If no primitive makes up a failure around an exhausted stack
(`Library.Honest`), no exhausted stack is at the root of any failure.
-/

namespace LispCore

namespace Failure

/-- The primitives that a failure went through, the outermost first. -/
def layers : Failure → List String
  | .primitive name cause => name :: cause.layers
  | _ => []

/-- The failure that a primitive's failure ends in when causes are followed. -/
def root : Failure → Failure
  | .primitive _ cause => cause.root
  | x => x

/-- How a message begins for a primitive. -/
def layerText (name : String) : String := "Primitive " ++ name ++ " failed: "

/-- The kinds of the language's own failures. -/
def ownKinds : List String :=
  ["UnboundSymbol", "NotCallable", "ArityMismatch", "MalformedExpression", "PrimitiveError",
    "RecursionLimit"]

/-- An exhausted stack has not become anyone's cause. -/
def Layered (x : Failure) : Prop := x = .overflow ∨ x.root ≠ .overflow

theorem text_eq (x : Failure) :
    x.text = x.root.text.map ((x.layers.map layerText).foldr (· ++ ·)) := by
  induction x with
  | primitive name cause ih =>
    simp only [text, layers, root, ih]
    rcases cause.root.text with o | t <;> rfl
  | _ => exact (congrFun Except.map_id _).symm

theorem root_ne_primitive (name : String) (cause : Failure) :
    ∀ x : Failure, x.root ≠ .primitive name cause
  | .primitive _ c => root_ne_primitive name cause c
  | .unbound .. | .notCallable .. | .arity .. | .malformed .. | .recursionLimit _ | .fault _
  | .overflow => nofun

theorem kind_mem_ownKinds {x : Failure} (hx : x.isEvaluation = true) : x.kind ∈ ownKinds := by
  cases x <;> simp [kind, ownKinds, isEvaluation] at hx ⊢

theorem Layered.primitive {x : Failure} (name : String) (h : x.Layered) (hx : x ≠ .overflow) :
    (Failure.primitive name x).Layered := .inr (h.resolve_left hx)

theorem Layered.of_root {x : Failure} (h : x.root = x) : x.Layered := by
  by_cases hx : x = .overflow
  · exact .inl hx
  · rw [Layered, h]
    exact .inr hx

end Failure

theorem Refusal.root_eq {V : Value → Prop} {x : Failure} (hx : Refusal V x) : x.root = x := by
  cases hx with
  | unshown hx => rcases hx with rfl | ⟨f, rfl⟩ <;> rfl
  | _ => rfl

/-- Equal stores, with everything known, and no failure around an exhausted stack. -/
def Simulation.layered : Simulation :=
  { Simulation.identity with
    failure := fun _ x => x.Layered
    cause := fun _ x => x.Layered
    cause_mono := fun _ hx => hx
    record := fun _ hs _ => ⟨congrArg (Store.record · _) hs, trivial⟩
    refusal := fun _ hx => .of_root hx.root_eq
    recursionLimit := fun _ _ => .of_root rfl
    primitive := fun name hx hne _ => hx.primitive name hne
    cause_of_failure := fun hx => hx }

/-- No primitive raises a failure around an exhausted stack, unless one comes back to it. -/
def Library.Honest (library : Library) : Prop :=
  ∀ (s : Store) (p : Primitive) (args : List Value),
    Simulation.layered.Routines s s (library p args) (library p args)

theorem Simulation.layered_data (globals : FrameRef) : Simulation.layered.Data globals where
  addPair := by
    rintro s _ head tail rfl - -
    exact ⟨rfl, trivial, trivial⟩
  addVec := by
    rintro s _ items rfl -
    exact ⟨rfl, trivial, trivial⟩
  setHead hs _ _ _ _ := ⟨congrArg (Store.setHead · _ _) hs, trivial⟩
  setTail hs _ _ _ _ := ⟨congrArg (Store.setTail · _ _) hs, trivial⟩
  push hs _ _ _ _ := ⟨congrArg (Store.push · _ _) hs, trivial⟩
  note _ hs := ⟨congrArg (Store.note · _) hs, trivial⟩
  globals _ _ _ := trivial
  fault _ _ := .of_root rfl

theorem Library.standard_honest (limit : Nat) (globals : FrameRef) :
    (Library.standard limit globals).Honest := fun _ _ _ =>
  (Simulation.layered_data globals).operate limit rfl trivial fun _ _ => trivial

theorem Library.Honest.machines {m : Machine} (h : m.library.Honest) :
    Simulation.layered.Machines m m where
  turns := Nat.le_refl _
  limit := rfl
  depth := rfl
  library := by
    rintro s _ p args rfl - -
    exact h s p args

/-- What leaves an evaluation or an application is no exhausted stack. -/
theorem Eval.guarded_ne_overflow {α : Type} {limit : Nat} {c : Eval α} {s t : Store} :
    Eval.guarded limit c s ≠ .raised .overflow t := by
  simp only [Eval.guarded]
  split
  · simp
  · rename_i o hne
    exact fun h => hne t h

end LispCore

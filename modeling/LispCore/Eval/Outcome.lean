import LispCore.Store.Basic

/-!
# Outcomes

An evaluation takes a store and ends with a value or a failure, in either case with the store it
leaves behind, so that what was done before a failure is kept. A loop that does not end within
its allotted turns is `unfinished`, which is neither, and so is a question to the store whose search
goes on for ever.
-/

namespace LispCore

inductive Outcome (α : Type)
  | done (a : α) (s : Store)
  | raised (x : Failure) (s : Store)
  | unfinished

/-- What comes of a question when something stands in the way of its answer. -/
def Outcome.blocked {α : Type} (o : Obstacle) (s : Store) : Outcome α :=
  match o with
  | .failure x => .raised x s
  | .endless => .unfinished

theorem Outcome.blocked_ne_done {α : Type} (o : Obstacle) (s t : Store) (a : α) :
    Outcome.blocked o s ≠ .done a t := by
  cases o <;> simp [blocked]

/-- A computation on the store. -/
def Eval (α : Type) := Store → Outcome α

namespace Eval

@[inline] protected def pure {α : Type} (a : α) : Eval α := fun s => .done a s

@[inline] protected def bind {α β : Type} (m : Eval α) (k : α → Eval β) : Eval β := fun s =>
  match m s with
  | .done a s => k a s
  | .raised x s => .raised x s
  | .unfinished => .unfinished

instance : Monad Eval where
  pure := Eval.pure
  bind := Eval.bind

theorem bind_apply {α β : Type} (m : Eval α) (k : α → Eval β) (s : Store) :
    (m >>= k) s = match m s with
      | .done a s => k a s
      | .raised x s => .raised x s
      | .unfinished => .unfinished := rfl

theorem bind_of_blocked {α β : Type} {m : Eval α} {o : Obstacle} {s t : Store}
    (h : m s = .blocked o t) (k : α → Eval β) : (m >>= k) s = .blocked o t := by
  rw [bind_apply, h]
  cases o <;> rfl

theorem bind_assoc' {α β γ : Type} (m : Eval α) (k : α → Eval β) (l : β → Eval γ) :
    m >>= k >>= l = m >>= fun a => k a >>= l := by
  funext s
  simp only [Bind.bind, Eval.bind]
  rcases m s with _ | _ | _ <;> rfl

theorem map_id' {α : Type} (m : Eval α) : id <$> m = m := by
  funext s
  simp only [Functor.map, Eval.bind]
  rcases m s with _ | _ | _ <;> rfl

instance : LawfulMonad Eval := .mk' Eval map_id' (fun _ _ => rfl) bind_assoc'

@[inline] def raise {α : Type} (x : Failure) : Eval α := fun s => .raised x s

@[inline] def never {α : Type} : Eval α := fun _ => .unfinished

/-- An answer, or what comes of the obstacle to it. -/
@[inline] def ofAnswer {α : Type} : Answer α → Eval α
  | .ok a => fun s => .done a s
  | .error o => fun s => .blocked o s

/-- Changes the store and gives what the change gives. -/
@[inline] def update {α : Type} (f : Store → α × Store) : Eval α := fun s =>
  match f s with
  | (a, s) => .done a s

@[inline] def modify (f : Store → Store) : Eval Unit := fun s => .done () (f s)

/-- Goes on with what a computation comes to, be it a value or a failure. -/
@[inline] def caught {α β : Type} (m : Eval α) (k : Except Failure α → Eval β) : Eval β := fun s =>
  match m s with
  | .done a s => k (.ok a) s
  | .raised x s => k (.error x) s
  | .unfinished => .unfinished

/-- An exhausted stack becomes the failure that a program can see. -/
@[inline] def guarded {α : Type} (limit : Nat) (m : Eval α) : Eval α := fun s =>
  match m s with
  | .raised .overflow s => .raised (.recursionLimit limit) s
  | other => other

end Eval

end LispCore

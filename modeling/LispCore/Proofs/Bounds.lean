import LispCore.Proofs.Simulation

/-!
# Evaluation and its bounds

An outcome lies below another if it is unfinished or the same. Evaluation is monotone in this order:
an evaluator that stands higher or on a better floor, or whose loops may take more turns, ends every
run that the other one ends, and in the same way (`Machine.evaluator_le`).

Nothing distinguishes a run that stays within its stack: it goes the same way whatever lies below
the last level (`Machine.WithinStack`).
-/

namespace LispCore

section Order

variable {α β : Type}

/-- The first outcome is unfinished, or both are the same. -/
instance : LE (Outcome α) := ⟨fun o o' => o = .unfinished ∨ o = o'⟩

instance : LE (Eval α) := ⟨fun c c' => ∀ s, c s ≤ c' s⟩

theorem Outcome.le_refl (o : Outcome α) : o ≤ o := .inr rfl

theorem Outcome.le_trans {o₁ o₂ o₃ : Outcome α} (h : o₁ ≤ o₂) (h' : o₂ ≤ o₃) : o₁ ≤ o₃ := by
  rcases h with rfl | rfl
  · exact .inl rfl
  · exact h'

theorem Outcome.le_antisymm {o o' : Outcome α} (h : o ≤ o') (h' : o' ≤ o) : o = o' := by
  rcases h with rfl | rfl
  · rcases h' with rfl | rfl <;> rfl
  · rfl

theorem Outcome.done_of_le {o o' : Outcome α} {a : α} {t : Store} (h : o ≤ o')
    (ho : o = .done a t) : o' = .done a t := by
  rcases h with rfl | rfl
  · exact nomatch ho
  · exact ho

theorem Eval.le_refl (c : Eval α) : c ≤ c := fun s => (c s).le_refl

theorem Eval.le_trans {c₁ c₂ c₃ : Eval α} (h : c₁ ≤ c₂) (h' : c₂ ≤ c₃) : c₁ ≤ c₃ :=
  fun s => Outcome.le_trans (h s) (h' s)

theorem Eval.bind_le {c c' : Eval α} {k k' : α → Eval β} (h : c ≤ c') (hk : ∀ a, k a ≤ k' a) :
    c >>= k ≤ c' >>= k' := by
  intro s
  simp only [Bind.bind, Eval.bind]
  rcases h s with hc | hc
  · rw [hc]
    exact .inl rfl
  · rw [← hc]
    rcases c s with ⟨a, t⟩ | ⟨x, t⟩ | _
    · exact hk a t
    · exact .inr rfl
    · exact .inr rfl

end Order

/-- One of the language's own failures can be put into words. -/
def Failure.Worded (x : Failure) : Prop := x.isEvaluation = true → ∃ t, x.text = .ok t

theorem Refusal.worded {V : Value → Prop} {x : Failure} (hx : Refusal V x) : x.Worded := by
  intro hown
  cases hx with
  | unshown hx => exact nomatch hx.isEvaluation_eq.symm.trans hown
  | _ => exact ⟨_, rfl⟩

namespace Simulation

/-- Equal stores, with everything known. A failure of the evaluator that is one of the language's
own can be put into words. -/
def identity : Simulation where
  stores s s' := s = s'
  le _ _ := True
  value _ _ := True
  frame _ _ := True
  scope _ _ := True
  failure _ x := x.Worded
  cause _ _ := True
  le_refl _ := trivial
  le_trans _ _ := trivial
  value_mono _ _ := trivial
  frame_mono _ _ := trivial
  scope_mono _ _ := trivial
  cause_mono _ _ := trivial
  frame_of_scope _ := trivial
  agree := by
    rintro s _ rfl
    constructor <;> simp
  define n hs _ _ := ⟨by rw [hs], trivial⟩
  assign hs _ _ _ := ⟨by rw [hs], trivial⟩
  lambda hs _ _ _ := ⟨by rw [hs], trivial, trivial⟩
  enter hs _ _ _ := ⟨by rw [hs], trivial, trivial⟩
  record name hs _ := ⟨by rw [hs], trivial⟩
  refusal _ hx := hx.worded
  recursionLimit _ _ _ := ⟨_, rfl⟩
  primitive _ _ _ htext _ := ⟨_, congrArg (Except.map _) htext⟩
  cause_of_failure _ := trivial

/-- Runs with one store are in order. -/
theorem Ends.le {S : Simulation} (hS : ∀ {s s' : Store}, S.stores s s' → s = s') {α : Type}
    {A : Store → α → Prop} {X : Store → Failure → Prop} {s : Store} {o o' : Outcome α}
    (h : S.Ends s A X o o') : o ≤ o' := by
  rcases h with _ | ⟨hs, -, -⟩ | ⟨hs, -, -⟩
  · exact .inl rfl
  · rw [hS hs]
    exact .inr rfl
  · rw [hS hs]
    exact .inr rfl

theorem identity_ends {α : Type} {A : Store → α → Prop} {X : Store → Failure → Prop} {s : Store}
    {o o' : Outcome α} (h : identity.Ends s A X o o') : o ≤ o' := h.le fun hs => hs

/-- A routine keeps to any simulation of one store in which everything is known. -/
theorem Routines.refl {S : Simulation} (hS : ∀ {s s' : Store}, S.stores s s' ↔ s = s')
    (hle : ∀ s t, S.le s t) (hvalue : ∀ s v, S.value s v) (hscope : ∀ s f, S.scope s f)
    (hcause : ∀ s x, S.cause s x) : ∀ (r : Routine Value) (s : Store), S.Routines s s r r
  | .done _, _ => .done (hvalue _ _)
  | .raise _, _ => .raise (hcause _ _)
  | .never, _ => .never _
  | .read k, s => .read (refl hS hle hvalue hscope hcause (k s) s)
  | .update g k, s =>
    .update (hS.2 rfl) (hle _ _) (refl hS hle hvalue hscope hcause (k (g s).1) (g s).2)
  | .eval _ _ k, _ => .eval (hvalue _ _) (hscope _ _) fun hs _ _ => by
    cases hS.1 hs
    exact refl hS hle hvalue hscope hcause (k _) _
  | .apply _ _ k, _ => .apply (hvalue _ _) (fun _ _ => hvalue _ _) fun hs _ _ => by
    cases hS.1 hs
    exact refl hS hle hvalue hscope hcause (k _) _

theorem identity_routines (r : Routine Value) (s : Store) : identity.Routines s s r r :=
  .refl Iff.rfl (fun _ _ => trivial) (fun _ _ => trivial) (fun _ _ => trivial)
    (fun _ _ => trivial) r s

theorem identity_machines (m : Machine) {turns : Nat} (h : m.turns ≤ turns) :
    identity.Machines m { m with turns } where
  turns := h
  limit := rfl
  depth := rfl
  library hs _ _ := by
    cases hs
    exact identity_routines _ _

end Simulation

namespace Evaluator

/-- A floor that no run comes back from. -/
def never : Evaluator where
  step _ _ _ := Eval.never
  primitive _ _ := Eval.never

/-- The second evaluator ends what the first one ends, and in the same way. -/
instance : LE Evaluator := ⟨fun ev ev' => Simulation.identity.Evaluators ev ev'⟩

theorem never_le (ev : Evaluator) : never ≤ ev where
  step _ _ _ _ := .unfinished _
  primitive _ _ _ := .unfinished _

section Parts

variable {ev ev' : Evaluator} (h : ev ≤ ev')

include h

theorem value_le (e : Value) (f : FrameRef) : ev.value e f ≤ ev'.value e f :=
  fun _ => Simulation.identity_ends (Simulation.Evaluators.value h rfl trivial trivial)

theorem values_le (f : FrameRef) (es : List Value) : ev.values f es ≤ ev'.values f es :=
  fun _ => Simulation.identity_ends
    (Simulation.Evaluators.values h rfl (fun _ _ => trivial) trivial)

theorem each_le (f : FrameRef) (body : List Value) : ev.each f body ≤ ev'.each f body :=
  fun _ => Simulation.identity_ends
    (Simulation.Evaluators.each h rfl (fun _ _ => trivial) trivial)

theorem loop_le (f : FrameRef) (test : Value) (body : List Value) {n n' : Nat} (hn : n ≤ n') :
    ev.loop f test body n ≤ ev'.loop f test body n' :=
  fun _ => Simulation.identity_ends
    (Simulation.Evaluators.loop h test body hn rfl trivial (fun _ _ => trivial) trivial)

theorem finish_le (n : Nat) (st : Step) : ev.finish n st ≤ ev'.finish n st := by
  intro s
  refine Simulation.identity_ends (Simulation.Evaluators.finish h n.le_refl rfl ?_)
  cases st <;> trivial

theorem runPrimitive_le (m : Machine) (p : Primitive) (args : List Value) :
    m.runPrimitive ev p args ≤ m.runPrimitive ev' p args :=
  fun _ => Simulation.identity_ends
    ((Simulation.identity_machines m m.turns.le_refl).runPrimitive h rfl trivial fun _ _ => trivial)

end Parts

end Evaluator

namespace Machine

theorem evaluator_add (m : Machine) (floor : Evaluator) (k : Nat) :
    ∀ d : Nat, m.evaluator floor (d + k) = m.evaluator (m.evaluator floor k) d
  | 0 => by rw [Nat.zero_add]; rfl
  | d + 1 => by
    rw [show d + 1 + k = (d + k) + 1 by omega]
    simp only [evaluator, evaluator_add m floor k d]

/-- More levels, on any floor in place of none: whatever ends, ends the same way. -/
theorem evaluator_le (m : Machine) (floor : Evaluator) {d d' : Nat} (hd : d ≤ d') :
    m.evaluator .never d ≤ m.evaluator floor d' := by
  obtain ⟨k, rfl⟩ := Nat.exists_eq_add_of_le hd
  rw [evaluator_add]
  exact (Simulation.identity_machines m m.turns.le_refl).evaluator (Evaluator.never_le _) d

/-- A run that does not come to the end of its stack: it goes the same way whatever lies below. -/
def WithinStack {α : Type} (m : Machine) (run : Evaluator → Outcome α) : Prop :=
  ∀ floor : Evaluator, run (m.evaluator floor m.limit) = run m.top

end Machine

end LispCore

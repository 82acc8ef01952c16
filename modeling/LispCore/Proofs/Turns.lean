import LispCore.Proofs.Bounds

/-!
# Runs without a bound on their turns

A loop of a program has no bound of its own. A run comes to its end if it does so for some number of
turns (`Machine.EndsIn`), and a run that goes on for ever does so for none. If, turn for turn, what
one run comes to another one comes to as well, given more turns and more levels, then they end alike
as long as neither comes to the end of its stack (`Machine.EndsIn.of_le`). What a run has come to
stays when it is given more turns, whatever floor it stands on (`Machine.evaluator_turns`).
-/

namespace LispCore

namespace Evaluator

variable {ev ev' : Evaluator} (h : ev ≤ ev')

include h

theorem step_le (e : Value) (f : FrameRef) (pos : Position) : ev.step e f pos ≤ ev'.step e f pos :=
  fun _ => Simulation.identity_ends (h.step pos rfl trivial trivial)

theorem finish_mono {n n' : Nat} (hn : n ≤ n') (st : Step) : ev.finish n st ≤ ev'.finish n' st := by
  intro s
  refine Simulation.identity_ends (Simulation.Evaluators.finish h hn rfl ?_)
  cases st <;> trivial

end Evaluator

theorem Eval.guarded_le {α : Type} {c c' : Eval α} (limit : Nat) (h : c ≤ c') :
    guarded limit c ≤ guarded limit c' := by
  intro s
  simp only [guarded]
  rcases h s with hc | hc
  · rw [hc]
    exact .inl rfl
  · rw [hc]
    exact Outcome.le_refl _

theorem Eval.guarded_bind {α β : Type} (limit : Nat) (c : Eval α) (k : α → Eval β) :
    guarded limit (c >>= k) = guarded limit c >>= fun a => guarded limit (k a) := by
  funext s
  simp only [guarded, bind_apply]
  rcases c s with ⟨a, t⟩ | ⟨x, t⟩ | _
  · rfl
  · cases x <;> rfl
  · rfl

namespace Machine

/-- The machine with another bound on the turns of a loop. -/
def withTurns (m : Machine) (n : Nat) : Machine := { m with turns := n }

theorem evaluator_withTurns_le (m : Machine) (floor : Evaluator) {n n' : Nat} (hn : n ≤ n')
    {d d' : Nat} (hd : d ≤ d') :
    (m.withTurns n).evaluator .never d ≤ (m.withTurns n').evaluator floor d' := by
  obtain ⟨k, rfl⟩ := Nat.exists_eq_add_of_le hd
  rw [evaluator_add]
  exact (Simulation.identity_machines (m.withTurns n) hn).evaluator (Evaluator.never_le _) d

end Machine

/-- Equal stores, with everything known and no failure ruled out. -/
def Simulation.equality : Simulation :=
  { Simulation.identity with
    failure := fun _ _ => True
    refusal := fun _ _ => trivial
    recursionLimit := fun _ _ => trivial
    primitive := fun _ _ _ _ => trivial
    cause_of_failure := fun _ => trivial }

theorem Simulation.equality_refl {α : Type} {A : Store → α → Prop} (hA : ∀ t a, A t a) {s : Store}
    (o : Outcome α) : equality.Ends s A equality.failure o o := by
  rcases o with ⟨a, t⟩ | ⟨x, t⟩ | _
  · exact .done ⟨rfl, trivial, hA t a⟩
  · exact .raised ⟨rfl, trivial, trivial⟩
  · exact .unfinished _

theorem Simulation.equality_known (s : Store) (st : Step) : equality.Known s st := by
  cases st with
  | value v => trivial
  | call c f => exact ⟨trivial, trivial⟩

theorem Simulation.equality_evaluators (ev : Evaluator) : equality.Evaluators ev ev where
  step _ hs _ _ := by
    cases hs
    exact equality_refl equality_known _
  primitive hs _ _ := by
    cases hs
    exact equality_refl (fun _ _ => trivial) _

namespace Machine

/-- Above any floor: whatever ends, ends the same way with more turns. -/
theorem evaluator_turns (m : Machine) (floor : Evaluator) {n n' : Nat} (hn : n ≤ n') (d : Nat) :
    Simulation.equality.Evaluators ((m.withTurns n).evaluator floor d)
      ((m.withTurns n').evaluator floor d) := by
  have hmachines : Simulation.equality.Machines (m.withTurns n) (m.withTurns n') :=
    ⟨hn, rfl, rfl, fun hs _ _ => by
      cases hs
      exact .refl Iff.rfl (fun _ _ => trivial) (fun _ _ => trivial) (fun _ _ => trivial)
        (fun _ _ => trivial) _ _⟩
  exact hmachines.evaluator (Simulation.equality_evaluators floor) d

section Ends

variable {α : Type} (m : Machine)

/-- A run comes to this end, given enough turns. -/
def EndsIn (run : Machine → Outcome α) (o : Outcome α) : Prop :=
  o ≠ .unfinished ∧ ∃ n, run (m.withTurns n) = o

/-- A run does not come to the end of its stack, however many turns it is given. -/
def StaysWithinStack (run : Machine → Evaluator → Outcome α) : Prop :=
  ∀ n, (m.withTurns n).WithinStack (run (m.withTurns n))

variable {m} {run run' : Machine → Evaluator → Outcome α}

theorem StaysWithinStack.eq_top (h : m.StaysWithinStack run) (floor : Evaluator) (n k : Nat) :
    run (m.withTurns n) ((m.withTurns n).evaluator floor (m.limit + k))
      = run (m.withTurns n) (m.withTurns n).top := by
  rw [evaluator_add]
  exact h n _

theorem StaysWithinStack.of_forall
    (h : ∀ n, ∃ o, ∀ floor, run (m.withTurns n) ((m.withTurns n).evaluator floor m.limit) = o) :
    m.StaysWithinStack run := by
  intro n floor
  obtain ⟨o, ho⟩ := h n
  exact (ho floor).trans (ho .exhausted).symm

theorem EndsIn.of_le (h : m.StaysWithinStack run) (h' : m.StaysWithinStack run')
    (hle : ∀ n, ∃ n' k, run (m.withTurns n) ((m.withTurns n).evaluator .never m.limit)
      ≤ run' (m.withTurns n') ((m.withTurns n').evaluator .never (m.limit + k)))
    {o : Outcome α} (ho : m.EndsIn (fun m => run m m.top) o) :
    m.EndsIn (fun m => run' m m.top) o := by
  obtain ⟨hne, n, hn⟩ := ho
  obtain ⟨n', k, hle⟩ := hle n
  have hrun : run (m.withTurns n) ((m.withTurns n).evaluator .never m.limit) = o :=
    (h n .never).trans hn
  rw [hrun, h'.eq_top] at hle
  exact ⟨hne, n', (hle.resolve_left hne).symm⟩

end Ends

end Machine

end LispCore

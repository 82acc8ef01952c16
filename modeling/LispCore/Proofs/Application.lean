import LispCore.Proofs.Code
import LispCore.Proofs.TailCalls

/-!
# Application has one meaning

A list of quoted values whose first one is a function says to apply it. To evaluate such a list is
to apply the function to the arguments: on the one way the call is left over in tail position and
run afterwards, on the other it is run at once and no frame of a caller is anywhere in sight
(`Machine.evaluate_quoted_application`). So a caller's frame is of no account to the function.
-/

namespace LispCore

/-- The application of a value to values. -/
def Code.application (fn : Value) (args : List Value) : Code :=
  .list (.quoted fn :: args.map .quoted)

namespace Machine

variable {m : Machine} {s : Store} {x fn : Value} {args : List Value} {f : FrameRef}

/-- Two levels are enough to come from the list to the application. -/
theorem step_application (ev : Evaluator) (hx : s.Denotes x (.application fn args))
    (pos : Position) :
    (m.above (m.above ev)).step x f pos s = m.applyStep (m.above ev) fn args pos s := by
  have hargs : List.Forall₂ ((m.above ev).Yields f s) (args.map .quoted) args :=
    List.forall₂_map_left_iff.2 (List.forall₂_same.2 fun v _ => yields_quoted v)
  exact step_list hx trivial (yields_quoted fn) hargs pos

/-- A call that is left over in tail position and then run is run as by an application. -/
theorem applyStep_finish (ev : Evaluator) (fn : Value) (args : List Value) :
    m.applyStep ev fn args .tail >>= (m.above ev).finish m.turns
      = m.call (m.above ev) (m.above ev).primitive fn args := by
  rw [m.applyStep_tail _ (Evaluator.finish_value (m.above ev) m.turns)]
  cases fn <;> rfl

theorem complete_application (ev : Evaluator) (hx : s.Denotes x (.application fn args)) :
    (m.above (m.above ev)).complete m.turns x f s
      = m.call (m.above (m.above ev)) (m.above (m.above ev)).primitive fn args s := by
  rw [← applyStep_finish]
  simp only [Evaluator.complete, Eval.bind_apply, m.step_application ev hx]

/-- With fewer levels the operator itself cannot be evaluated. -/
theorem two_le_limit (hx : s.Denotes x (.application fn args))
    (hstack : m.WithinStack fun ev => m.evaluateWith ev x f s) : ∃ d, m.limit = d + 2 := by
  obtain ⟨head, operands, -, -, hstep⟩ := hx.stepWith_application trivial
  have hnever := hstack .never
  rcases hl : m.limit with _ | _ | d
  · simp [hl, top, evaluateWith, evaluator, Evaluator.complete, Eval.bind_apply, Eval.guarded,
      Evaluator.never, Evaluator.exhausted, Eval.never, Eval.raise] at hnever
  · simp [hl, top, evaluateWith, evaluator, Evaluator.complete, Eval.bind_apply, Eval.guarded,
      above, hstep, Evaluator.value, Evaluator.never, Evaluator.exhausted, Eval.never, Eval.raise]
      at hnever
  · exact ⟨d, rfl⟩

/-- Whatever the value at its head is, a list of quoted values means its application to the others,
in every frame alike, as long as the evaluation does not come to the end of the stack. -/
theorem evaluate_quoted_application (m : Machine) {s : Store} {x fn : Value} {args : List Value}
    (hx : s.Denotes x (.application fn args)) (f : FrameRef)
    (hstack : m.WithinStack fun ev => m.evaluateWith ev x f s) :
    m.evaluate x f s = m.apply fn args s ∧ ∀ g : FrameRef, m.evaluate x g s = m.evaluate x f s := by
  obtain ⟨d, hd⟩ := two_le_limit hx hstack
  have happly (g : FrameRef) : m.evaluate x g s = m.apply fn args s := by
    simp only [evaluate, apply, evaluateWith, applyWith, Eval.guarded, top, hd, evaluator]
    rw [m.complete_application _ hx]
  exact ⟨happly f, fun g => (happly g).trans (happly f).symm⟩

/-- A function of one parameter that calls another one in tail position, applied to a symbol. -/
def quotedCall : Store where
  pairs := #[⟨.pair 1, .pair 3⟩, ⟨.symbol "quote", .pair 2⟩, ⟨.closure 0, .nil⟩, ⟨.pair 4, .nil⟩,
    ⟨.symbol "quote", .pair 5⟩, ⟨.symbol "x", .nil⟩, ⟨.closure 1, .nil⟩]
  closures := #[⟨[⟨"a"⟩], [.pair 6], 0⟩, ⟨[], [.int 7], 1⟩]
  frames := #[.empty none, ⟨[(⟨"a"⟩, .int 3)], none⟩]

theorem denotes_quotedCall :
    quotedCall.Denotes (.pair 0) (.application (.closure 0) [.symbol "x"]) :=
  .cons (.cons (.leaf _) (.cons (.leaf _) .nil))
    (.cons (.cons (.leaf _) (.cons (.leaf _) .nil)) .nil)

theorem evaluateWith_quotedCall (floor : Evaluator) :
    bare.evaluateWith (bare.evaluator floor 3) (.pair 0) 1 quotedCall
      = .done (.int 7)
          { quotedCall with
            frames := quotedCall.frames ++ #[⟨[(⟨"a"⟩, .symbol "x")], some 0⟩, .empty (some 1)] } :=
  rfl

theorem evaluate_quoted_application_quotedCall :
    quotedCall.Denotes (.pair 0) (.application (.closure 0) [.symbol "x"])
      ∧ bare.WithinStack (fun ev => bare.evaluateWith ev (.pair 0) 1 quotedCall)
      ∧ bare.evaluate (.pair 0) 1 quotedCall = bare.apply (.closure 0) [.symbol "x"] quotedCall
      ∧ bare.evaluate (.pair 0) 0 quotedCall = bare.evaluate (.pair 0) 1 quotedCall := by
  have hstack : bare.WithinStack (fun ev => bare.evaluateWith ev (.pair 0) 1 quotedCall) :=
    fun floor => (evaluateWith_quotedCall floor).trans (evaluateWith_quotedCall .exhausted).symm
  obtain ⟨heq, hframe⟩ := bare.evaluate_quoted_application denotes_quotedCall 1 hstack
  exact ⟨denotes_quotedCall, hstack, heq, hframe 0⟩

end Machine

end LispCore

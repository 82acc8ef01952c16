import LispCore.Interpreter
import LispCore.Proofs.Code
import LispCore.Proofs.TailCalls
import LispCore.Proofs.Turns

/-!
# Three ways to run a body

A list of expressions can be run as a program, each expression to its end before the next, as the
body of a function, or as a block in a frame of its own. In a program every expression is completed
in tail position; in the other two only the last one is, and the others are evaluated in inner
position. Each way is direct evaluation of the body (`Machine.bodyDirectly`), or lies next to it in
the order of outcomes, so all of them come to the same end (`Machine.body_meanings_agree`).
-/

namespace LispCore

section RunAll

variable {evaluate evaluate' : Value → FrameRef → Eval Value} {f : FrameRef}

theorem runAll_cons (last e : Value) (es : List Value) :
    runAll evaluate f last (e :: es) = evaluate e f >>= fun v => runAll evaluate f v es := by
  funext s
  simp only [runAll, Eval.bind_apply]
  rcases evaluate e f s with _ | _ | _ <;> rfl

theorem runAll_singleton (last e : Value) : runAll evaluate f last [e] = evaluate e f := by
  rw [runAll_cons]
  exact bind_pure (evaluate e f)

/-- What was there before is of no account unless there is nothing to run. -/
theorem runAll_congr_last (last last' e : Value) (es : List Value) :
    runAll evaluate f last (e :: es) = runAll evaluate f last' (e :: es) := by
  rw [runAll_cons, runAll_cons]

/-- An exhausted stack can be seen to after each expression or once for all. -/
theorem runAll_guarded (limit : Nat) :
    ∀ (last : Value) (es : List Value),
      runAll (fun e f => Eval.guarded limit (evaluate e f)) f last es
        = Eval.guarded limit (runAll evaluate f last es)
  | _, [] => rfl
  | last, e :: es => by
    rw [runAll_cons, runAll_cons, Eval.guarded_bind]
    simp only [runAll_guarded limit _ es]

variable {ev : Evaluator} {rest : Value → FrameRef → Eval Value}

theorem runAll_le_bodyDirectly (hvalue : ∀ e, evaluate e f ≤ ev.value e f)
    (hrest : ∀ e, evaluate e f ≤ rest e f) :
    ∀ es : List Value, runAll evaluate f .nil es ≤ Machine.bodyDirectly ev rest f es
  | [] => Eval.le_refl _
  | [e] => by
    rw [runAll_singleton]
    exact hrest e
  | e :: e' :: es => by
    rw [runAll_cons]
    refine Eval.bind_le (hvalue e) fun v => ?_
    rw [runAll_congr_last v .nil]
    exact runAll_le_bodyDirectly hvalue hrest (e' :: es)

theorem bodyDirectly_le_runAll (hvalue : ∀ e, ev.value e f ≤ evaluate e f)
    (hrest : ∀ e, rest e f ≤ evaluate e f) :
    ∀ es : List Value, Machine.bodyDirectly ev rest f es ≤ runAll evaluate f .nil es
  | [] => Eval.le_refl _
  | [e] => by
    rw [runAll_singleton]
    exact hrest e
  | e :: e' :: es => by
    rw [runAll_cons]
    refine Eval.bind_le (hvalue e) fun v => ?_
    rw [runAll_congr_last v .nil]
    exact bodyDirectly_le_runAll hvalue hrest (e' :: es)

end RunAll

/-- A block of expressions. -/
def Code.block (exprs : List Value) : Code := .form .sequence (exprs.map .leaf)

namespace Machine

variable {m : Machine} {s : Store} {g : FrameRef} {exprs : List Value} {c : ClosureRef} {x : Value}

/-! ## Each way as direct evaluation -/

theorem runBelow_eq (ev : Evaluator) :
    runBelow (m.evaluateWith ev) g exprs s
      = Eval.guarded m.limit (runAll (ev.complete m.turns) s.frames.size .nil exprs)
          (s.addEmptyFrame (some g)).2 :=
  congrFun (runAll_guarded m.limit .nil exprs) _

theorem enter_thunk (hc : s.closure c = ⟨[], exprs, g⟩) :
    enter c [] s = .done s.frames.size (s.addEmptyFrame (some g)).2 := by
  simp only [enter, hc]
  rfl

theorem applyWith_closure (ev : Evaluator) (hc : s.closure c = ⟨[], exprs, g⟩) (n : Nat) :
    (m.withTurns (n + 1)).applyWith ev (.closure c) [] s
      = Eval.guarded m.limit
          (bodyDirectly ev (fun e f => ev.step e f .tail >>= ev.finish n) s.frames.size exprs)
          (s.addEmptyFrame (some g)).2 := by
  have hbody : ((s.addEmptyFrame (some g)).2.closure c).body = exprs := congrArg Closure.body hc
  simp only [applyWith, call, withTurns, Eval.guarded, Eval.bind_apply, enter_thunk hc]
  rw [ev.finish_call, hbody, body_tail _ _ (Evaluator.finish_value ev n)]

theorem step_block (ev : Evaluator) (hx : s.Denotes x (.block exprs)) (f : FrameRef)
    (pos : Position) : (m.above ev).step x f pos s = ev.body f pos exprs s := by
  obtain ⟨operands, hoperands, hstep⟩ := hx.stepWith_form
  cases Store.Denotes.eq_of_leaves hoperands
  exact hstep m ev f pos rfl

theorem evaluateWith_block (ev : Evaluator) (hx : s.Denotes x (.block exprs)) (f : FrameRef) :
    m.evaluateWith (m.above ev) x f s
      = Eval.guarded m.limit
          (bodyDirectly ev (fun e f => ev.step e f .tail >>= (m.above ev).finish m.turns) f exprs)
          s := by
  simp only [evaluateWith, Eval.guarded, Evaluator.complete, Eval.bind_apply, step_block ev hx]
  rw [← body_tail _ _ (Evaluator.finish_value (m.above ev) m.turns), Eval.bind_apply]

/-! ## What one way comes to, the others come to -/

theorem runBelow_le_apply (hc : s.closure c = ⟨[], exprs, g⟩) (n d : Nat) :
    runBelow ((m.withTurns n).evaluateWith ((m.withTurns n).evaluator .never d)) g exprs s
      ≤ (m.withTurns (n + 1)).applyWith ((m.withTurns (n + 1)).evaluator .never (d + d))
          (.closure c) [] s := by
  have hle := m.evaluator_withTurns_le .never n.le_succ (Nat.le_add_left d d)
  rw [runBelow_eq, applyWith_closure _ hc]
  refine Eval.guarded_le _ (runAll_le_bodyDirectly (fun e => ?_) (fun e => ?_) exprs) _
  · refine Eval.le_trans ((m.withTurns n).complete_le_value d d e _) ?_
    exact Evaluator.value_le (m.evaluator_withTurns_le .never n.le_succ (Nat.le_refl _)) e _
  · exact Eval.bind_le (Evaluator.step_le hle e _ .tail) (Evaluator.finish_mono hle (Nat.le_refl n))

theorem apply_le_runBelow (hc : s.closure c = ⟨[], exprs, g⟩) (d : Nat) :
    ∀ n : Nat, (m.withTurns n).applyWith ((m.withTurns n).evaluator .never d) (.closure c) [] s
      ≤ runBelow ((m.withTurns n).evaluateWith ((m.withTurns n).evaluator .never d)) g exprs s
  | 0 => by
    refine .inl ?_
    simp only [applyWith, call, withTurns, Eval.guarded, Eval.bind_apply, enter_thunk hc]
    rfl
  | n + 1 => by
    have hle := m.evaluator_withTurns_le .never (Nat.le_refl (n + 1)) (Nat.le_refl d)
    rw [runBelow_eq, applyWith_closure _ hc]
    refine Eval.guarded_le _ (bodyDirectly_le_runAll (fun e => ?_) (fun e => ?_) exprs) _
    · exact (m.withTurns (n + 1)).value_le_complete (Nat.le_refl d) e _
    · exact Eval.bind_le (Eval.le_refl _) (Evaluator.finish_mono hle n.le_succ)

theorem runBelow_le_block (hx : s.Denotes x (.block exprs)) (d : Nat) :
    runBelow (m.evaluateWith (m.evaluator .never d)) g exprs s
      ≤ m.evaluateWith (m.evaluator .never (d + d + 1)) x s.frames.size
          (s.addEmptyFrame (some g)).2 := by
  have hx' : (s.addEmptyFrame (some g)).2.Denotes x (.block exprs) := hx.addFrame _
  rw [runBelow_eq, evaluator, evaluateWith_block _ hx']
  refine Eval.guarded_le _ (runAll_le_bodyDirectly (fun e => ?_) (fun e => ?_) exprs) _
  · exact m.complete_le_value d d e _
  · refine Eval.bind_le (Evaluator.step_le (m.evaluator_le _ (Nat.le_add_left d d)) e _ .tail) ?_
    exact Evaluator.finish_le (m.evaluator_le .never (show d ≤ d + d + 1 by omega)) m.turns

theorem block_le_runBelow (hx : s.Denotes x (.block exprs)) :
    ∀ d : Nat, m.evaluateWith (m.evaluator .never d) x s.frames.size (s.addEmptyFrame (some g)).2
      ≤ runBelow (m.evaluateWith (m.evaluator .never d)) g exprs s
  | 0 => .inl rfl
  | d + 1 => by
    have hx' : (s.addEmptyFrame (some g)).2.Denotes x (.block exprs) := hx.addFrame _
    have hstep (e : Value) : (m.evaluator .never d).step e s.frames.size .tail
          >>= (m.evaluator .never (d + 1)).finish m.turns
        ≤ (m.evaluator .never (d + 1)).complete m.turns e s.frames.size :=
      Eval.bind_le (Evaluator.step_le (m.evaluator_le .never d.le_succ) e _ .tail)
        fun _ => Eval.le_refl _
    rw [runBelow_eq, evaluator, evaluateWith_block _ hx']
    refine Eval.guarded_le _ (bodyDirectly_le_runAll (fun e => ?_) hstep exprs) _
    exact Eval.le_trans (m.value_le_complete d.le_succ e _) (hstep e)

/-- A list of expressions run as a program below `g`, as the body of a function without parameters
made in `g`, or as a block in a new frame below `g`: as long as none of the runs comes to the end of
the stack, whatever one of them ends in, with the store it leaves, the others end in too. -/
theorem body_meanings_agree (m : Machine) {s : Store} {g : FrameRef} {exprs : List Value}
    {c : ClosureRef} {x : Value} (hc : s.closure c = ⟨[], exprs, g⟩)
    (hx : s.Denotes x (.block exprs))
    (hprogram : m.StaysWithinStack fun m ev => runBelow (m.evaluateWith ev) g exprs s)
    (hcall : m.StaysWithinStack fun m ev => m.applyWith ev (.closure c) [] s)
    (hblock : m.StaysWithinStack fun m ev =>
      m.evaluateWith ev x (s.addEmptyFrame (some g)).1 (s.addEmptyFrame (some g)).2)
    (o : Outcome Value) :
    (m.EndsIn (fun m => runBelow m.evaluate g exprs s) o
        ↔ m.EndsIn (fun m => m.apply (.closure c) [] s) o)
      ∧ (m.EndsIn (fun m => runBelow m.evaluate g exprs s) o
        ↔ m.EndsIn (fun m =>
            m.evaluate x (s.addEmptyFrame (some g)).1 (s.addEmptyFrame (some g)).2) o) := by
  refine ⟨⟨?_, ?_⟩, ⟨?_, ?_⟩⟩
  · exact EndsIn.of_le hprogram hcall fun n => ⟨n + 1, m.limit, runBelow_le_apply hc n m.limit⟩
  · exact EndsIn.of_le hcall hprogram fun n => ⟨n, 0, apply_le_runBelow hc m.limit n⟩
  · exact EndsIn.of_le hprogram hblock fun n => ⟨n, m.limit + 1, runBelow_le_block hx m.limit⟩
  · exact EndsIn.of_le hblock hprogram fun n => ⟨n, 0, block_le_runBelow hx m.limit⟩

/-- A definition and a call, as a function's body and as a block. -/
def twoForms : Store where
  pairs := #[⟨.symbol "def", .pair 1⟩, ⟨.symbol "y", .pair 2⟩, ⟨.int 5, .nil⟩, ⟨.closure 1, .nil⟩,
    ⟨.symbol "do", .pair 5⟩, ⟨.pair 0, .pair 6⟩, ⟨.pair 3, .nil⟩]
  closures := #[⟨[], [.pair 0, .pair 3], 0⟩, ⟨[], [.int 7], 0⟩]
  frames := #[.empty none]

theorem denotes_twoForms : twoForms.Denotes (.pair 4) (.block [.pair 0, .pair 3]) :=
  .cons (.leaf _) (.cons (.leaf _) (.cons (.leaf _) .nil))

/-- The store that a run of them leaves. -/
def twoFormsRun : Store :=
  { twoForms with frames := #[.empty none, ⟨[(⟨"y"⟩, .int 5)], some 0⟩, .empty (some 0)] }

theorem program_twoForms :
    bare.StaysWithinStack fun m ev =>
      runBelow (m.evaluateWith ev) 0 [.pair 0, .pair 3] twoForms := by
  refine .of_forall ?_
  rintro (_ | _ | n)
  · exact ⟨.unfinished, fun floor => rfl⟩
  · exact ⟨.done (.int 7) twoFormsRun, fun floor => rfl⟩
  · exact ⟨.done (.int 7) twoFormsRun, fun floor => rfl⟩

theorem call_twoForms :
    bare.StaysWithinStack fun m ev => m.applyWith ev (.closure 0) [] twoForms := by
  refine .of_forall ?_
  rintro (_ | _ | _ | n)
  · exact ⟨.unfinished, fun floor => rfl⟩
  · exact ⟨.unfinished, fun floor => rfl⟩
  · exact ⟨.done (.int 7) twoFormsRun, fun floor => rfl⟩
  · exact ⟨.done (.int 7) twoFormsRun, fun floor => rfl⟩

theorem block_twoForms :
    bare.StaysWithinStack fun m ev => m.evaluateWith ev (.pair 4)
      (twoForms.addEmptyFrame (some 0)).1 (twoForms.addEmptyFrame (some 0)).2 := by
  refine .of_forall ?_
  rintro (_ | _ | n)
  · exact ⟨.unfinished, fun floor => rfl⟩
  · exact ⟨.done (.int 7) twoFormsRun, fun floor => rfl⟩
  · exact ⟨.done (.int 7) twoFormsRun, fun floor => rfl⟩

theorem body_meanings_agree_twoForms :
    twoForms.closure 0 = ⟨[], [.pair 0, .pair 3], 0⟩
      ∧ bare.EndsIn (fun m => runBelow m.evaluate 0 [.pair 0, .pair 3] twoForms)
        (.done (.int 7) twoFormsRun)
      ∧ bare.EndsIn (fun m => m.apply (.closure 0) [] twoForms) (.done (.int 7) twoFormsRun)
      ∧ bare.EndsIn (fun m => m.evaluate (.pair 4) (twoForms.addEmptyFrame (some 0)).1
          (twoForms.addEmptyFrame (some 0)).2) (.done (.int 7) twoFormsRun) := by
  have hprogram : bare.EndsIn (fun m => runBelow m.evaluate 0 [.pair 0, .pair 3] twoForms)
      (.done (.int 7) twoFormsRun) := ⟨nofun, 1, rfl⟩
  have hagree := bare.body_meanings_agree (c := 0) rfl denotes_twoForms program_twoForms
    call_twoForms block_twoForms
  exact ⟨rfl, hprogram, (hagree _).1.1 hprogram, (hagree _).2.1 hprogram⟩

end Machine

end LispCore

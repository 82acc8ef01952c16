import LispCore.Proofs.Bounds

/-!
# Tail calls

Evaluation in direct style knows no calls that are left over: `Machine.directly` gives the value of
an expression whose parts are evaluated by `ev`, whose tail expression is completed by `rest` and
whose tail call is run by `run`. A step in inner position is direct evaluation with everything done
one level below (`Machine.above_inner`), so no call is left over there. A step in tail position
whose call is run afterwards is direct evaluation with the tail expression treated in the same way
(`Machine.above_tail`). The two have the same meaning by induction on the levels, once each is
allowed as many levels as the other needs (`Machine.step_inner_eq_complete`).
-/

namespace LispCore

namespace Machine

section Direct

variable (m : Machine) (ev : Evaluator) (rest : Value → FrameRef → Eval Value)
  (run : ClosureRef → FrameRef → Eval Value) (f : FrameRef)

/-- The value of a body whose last form is completed by `rest`. -/
def bodyDirectly : List Value → Eval Value
  | [] => pure .nil
  | [e] => rest e f
  | e :: es => do
    let _ ← ev.value e f
    bodyDirectly es

/-- The value of a special form whose tail expression is completed by `rest`. -/
def formDirectly : Form → Eval Value
  | .define n e => do
    let v ← ev.value e f
    Store.define m.depth f (.sym n) v
    pure v
  | .assign n e => do
    let v ← ev.value e f
    Store.assign m.depth f (.sym n) v
    pure v
  | .cond c t e => do
    let v ← ev.value c f
    if v.isTrue then rest t f
    else
      match e with
      | some e => rest e f
      | none => pure .nil
  | .loop c body => ev.loop f c body m.turns
  | .sequence body => bodyDirectly ev rest f body
  | .lambda c => do
    let r ← Eval.update (·.addClosure c)
    pure (.closure r)
  | .quote v => pure v

/-- The value of an application whose function is run by `run`. -/
def applyDirectly (fn : Value) (args : List Value) : Eval Value :=
  match fn with
  | .closure c => do
    let g ← enter c args
    run c g
  | .prim p => m.runPrimitive ev p args
  | v => notCallable m.depth v

/-- The value of an expression whose tail expression is completed by `rest` and whose tail call is
run by `run`. -/
def directly (e : Value) : Eval Value := fun s =>
  match e with
  | .sym n =>
    match s.lookup? f n with
    | some v => .done v s
    | none => .blocked (s.unbound m.depth (.sym n)) s
  | .pair r =>
    match Keyword.ofHead? (s.pair r).head with
    | some k =>
      match Form.read s m.depth f k (s.pair r).tail with
      | .ok form => m.formDirectly ev rest f form s
      | .error o => .blocked o s
    | none =>
      match s.toList "Argument list" (s.pair r).tail with
      | .ok operands =>
        let head := (s.pair r).head
        (do
          let fn ← ev.value head f
          let args ← ev.values f operands
          m.applyDirectly ev run fn args) s
      | .error o => .blocked o s
  | .foreign h =>
    .blocked (.showing h.repr.answer fun t => .malformed (.notExpression t) (some (.foreign h))) s
  | v => .done v s

end Direct

end Machine

/-- No call is left over in inner position. -/
def Evaluator.Direct (ev : Evaluator) : Prop :=
  ∀ e f, ev.step e f .inner = ev.value e f >>= fun v => pure (.value v)

namespace Machine

variable (m : Machine) {ev ev' : Evaluator} (f : FrameRef)

theorem body_inner (hev : ev.Direct) :
    ∀ es : List Value,
      ev.body f .inner es = bodyDirectly ev ev.value f es >>= fun v => pure (.value v)
  | [] => rfl
  | [e] => hev e f
  | e :: e' :: es => by
    simp only [Evaluator.body, bodyDirectly, bind_assoc]
    rw [body_inner hev (e' :: es)]

theorem body_tail (fin : Step → Eval Value) (hfin : ∀ v, fin (.value v) = pure v) :
    ∀ es : List Value, ev.body f .tail es >>= fin =
      bodyDirectly ev (fun e g => ev.step e g .tail >>= fin) f es
  | [] => by simp only [Evaluator.body, bodyDirectly, pure_bind, hfin]
  | [e] => rfl
  | e :: e' :: es => by
    simp only [Evaluator.body, bodyDirectly, bind_assoc]
    rw [body_tail fin hfin (e' :: es)]

theorem formStep_inner (hev : ev.Direct) (form : Form) :
    m.formStep ev f .inner form
      = m.formDirectly ev ev.value f form >>= fun v => pure (.value v) := by
  cases form with
  | define n e | assign n e => simp only [formStep, formDirectly, bind_assoc, pure_bind]
  | cond c t e =>
    simp only [formStep, formDirectly, bind_assoc]
    congr 1
    funext v
    split
    · exact hev t f
    · cases e with
      | none => simp only [pure_bind]
      | some e => exact hev e f
  | loop c body => rfl
  | sequence body => exact body_inner f hev body
  | lambda c => simp only [formStep, formDirectly, bind_assoc, pure_bind]
  | quote v => rfl

theorem formStep_tail (fin : Step → Eval Value) (hfin : ∀ v, fin (.value v) = pure v)
    (form : Form) :
    m.formStep ev f .tail form >>= fin =
      m.formDirectly ev (fun e g => ev.step e g .tail >>= fin) f form := by
  cases form with
  | define n e | assign n e => simp only [formStep, formDirectly, bind_assoc, pure_bind, hfin]
  | cond c t e =>
    simp only [formStep, formDirectly, bind_assoc]
    congr 1
    funext v
    split
    · rfl
    · cases e with
      | none => simp only [pure_bind, hfin]
      | some e => rfl
  | loop c body => simp only [formStep, formDirectly, bind_assoc, pure_bind, hfin, bind_pure]
  | sequence body => exact body_tail f fin hfin body
  | lambda c => simp only [formStep, formDirectly, bind_assoc, pure_bind, hfin]
  | quote v => simp only [formStep, formDirectly, pure_bind, hfin]

theorem applyStep_inner (fn : Value) (args : List Value) :
    m.applyStep ev fn args .inner
      = m.applyDirectly ev (fun c g => ev.finish m.turns (.call c g)) fn args
          >>= fun v => pure (.value v) := by
  cases fn <;> rfl

theorem applyStep_tail (fin : Step → Eval Value) (hfin : ∀ v, fin (.value v) = pure v)
    (fn : Value) (args : List Value) :
    m.applyStep ev fn args .tail >>= fin
      = m.applyDirectly ev (fun c g => fin (.call c g)) fn args := by
  cases fn <;>
    simp only [applyStep, applyDirectly, call, bind_assoc, pure_bind, hfin, bind_pure]

/-- In inner position everything is done one level below. -/
theorem above_inner (hev : ev.Direct) (e : Value) :
    (m.above ev).step e f .inner
      = m.directly ev ev.value (fun c g => ev.finish m.turns (.call c g)) f e
          >>= fun v => pure (.value v) := by
  funext s
  cases e with
  | sym n =>
    simp only [above, stepWith, directly, Bind.bind, Eval.bind]
    rcases s.lookup? f n with _ | v <;> rfl
  | pair r =>
    rw [Eval.bind_apply]
    simp only [above, stepWith, directly]
    rcases Keyword.ofHead? (s.pair r).head with _ | k <;> simp only []
    · rcases s.toList "Argument list" (s.pair r).tail with o | operands
      · cases o <;> rfl
      · simp only [applyStep_inner, ← bind_assoc]
        rfl
    · rcases Form.read s m.depth f k (s.pair r).tail with o | form
      · cases o <;> rfl
      · simp only [m.formStep_inner f hev form]
        rfl
  | foreign h => exact (Eval.bind_of_blocked rfl _).symm
  | _ => rfl

/-- In tail position what is left over is run afterwards, or the tail expression is. -/
theorem above_tail (fin : Step → Eval Value) (hfin : ∀ v, fin (.value v) = pure v) (e : Value) :
    (m.above ev).step e f .tail >>= fin
      = m.directly ev (fun e g => ev.step e g .tail >>= fin) (fun c g => fin (.call c g)) f e := by
  funext s
  cases e with
  | sym n =>
    simp only [Eval.bind_apply, above, stepWith, directly]
    rcases s.lookup? f n with _ | v
    · rfl
    · simp only [hfin]
      rfl
  | pair r =>
    rw [Eval.bind_apply]
    simp only [above, stepWith, directly]
    rcases Keyword.ofHead? (s.pair r).head with _ | k <;> simp only []
    · rcases s.toList "Argument list" (s.pair r).tail with o | operands
      · cases o <;> rfl
      · simp only [← m.applyStep_tail fin hfin, ← bind_assoc]
        rfl
    · rcases Form.read s m.depth f k (s.pair r).tail with o | form
      · cases o <;> rfl
      · simp only [← m.formStep_tail f fin hfin form]
        rfl
  | foreign h => exact Eval.bind_of_blocked rfl _
  | _ =>
    simp only [Eval.bind_apply, above, stepWith, directly, hfin]
    rfl

section Order

variable {rest rest' : Value → FrameRef → Eval Value}
  {run run' : ClosureRef → FrameRef → Eval Value}
  (hev : ev ≤ ev') (hrest : ∀ e g, rest e g ≤ rest' e g) (hrun : ∀ c g, run c g ≤ run' c g)

include hev

include hrest in
theorem bodyDirectly_le :
    ∀ es : List Value, bodyDirectly ev rest f es ≤ bodyDirectly ev' rest' f es
  | [] => Eval.le_refl _
  | [e] => hrest e f
  | e :: e' :: es => Eval.bind_le (Evaluator.value_le hev e f) fun _ => bodyDirectly_le (e' :: es)

include hrest in
theorem formDirectly_le (form : Form) :
    m.formDirectly ev rest f form ≤ m.formDirectly ev' rest' f form := by
  cases form with
  | define n e => exact Eval.bind_le (Evaluator.value_le hev e f) fun _ => Eval.le_refl _
  | assign n e => exact Eval.bind_le (Evaluator.value_le hev e f) fun _ => Eval.le_refl _
  | cond c t e =>
    refine Eval.bind_le (Evaluator.value_le hev c f) fun v => ?_
    split
    · exact hrest t f
    · cases e with
      | none => exact Eval.le_refl _
      | some e => exact hrest e f
  | loop c body => exact Evaluator.loop_le hev f c body (Nat.le_refl m.turns)
  | sequence body => exact bodyDirectly_le f hev hrest body
  | lambda c => exact Eval.le_refl _
  | quote v => exact Eval.le_refl _

include hrun in
theorem applyDirectly_le (fn : Value) (args : List Value) :
    m.applyDirectly ev run fn args ≤ m.applyDirectly ev' run' fn args := by
  cases fn with
  | closure c => exact Eval.bind_le (Eval.le_refl _) fun g => hrun c g
  | prim p => exact Evaluator.runPrimitive_le hev m p args
  | _ => exact Eval.le_refl _

include hrest hrun in
theorem directly_le (e : Value) : m.directly ev rest run f e ≤ m.directly ev' rest' run' f e := by
  intro s
  cases e with
  | pair r =>
    simp only [directly]
    rcases Keyword.ofHead? (s.pair r).head with _ | k <;> simp only []
    · rcases s.toList "Argument list" (s.pair r).tail with o | operands <;> simp only []
      · exact Outcome.le_refl _
      · refine Eval.bind_le (Evaluator.value_le hev _ f) (fun fn => ?_) s
        refine Eval.bind_le (Evaluator.values_le hev f operands) fun args => ?_
        exact m.applyDirectly_le hev hrun fn args
    · rcases Form.read s m.depth f k (s.pair r).tail with o | form <;> simp only []
      · exact Outcome.le_refl _
      · exact m.formDirectly_le f hev hrest form s
  | _ => exact Outcome.le_refl _

end Order

/-! ## Both positions -/

theorem above_value (hev : ev.Direct) (e : Value) :
    (m.above ev).value e f
      = m.directly ev ev.value (fun c g => ev.finish m.turns (.call c g)) f e := by
  funext s
  simp only [Evaluator.value, m.above_inner f hev e, Eval.bind_apply]
  rcases m.directly ev ev.value (fun c g => ev.finish m.turns (.call c g)) f e s with _ | _ | _ <;>
    rfl

theorem above_direct (hev : ev.Direct) : (m.above ev).Direct := by
  intro e f
  rw [m.above_value f hev e]
  exact m.above_inner f hev e

/-- No evaluator on a floor that leaves no call over leaves one over. -/
theorem evaluator_direct {floor : Evaluator} (hfloor : floor.Direct) :
    ∀ d : Nat, (m.evaluator floor d).Direct
  | 0 => hfloor
  | d + 1 => m.above_direct (evaluator_direct hfloor d)

theorem never_direct : Evaluator.never.Direct := fun _ _ => rfl

theorem exhausted_direct : Evaluator.exhausted.Direct := fun _ _ => rfl

/-- What ends in inner position ends in tail position, with no more levels. -/
theorem value_le_complete {n : Nat} :
    ∀ {d : Nat}, d ≤ n → ∀ e f, (m.evaluator .never d).value e f
      ≤ (m.evaluator .never d).step e f .tail >>= (m.evaluator .never n).finish m.turns
  | 0, _, _, _ => fun _ => .inl rfl
  | d + 1, hd, e, f => by
    have hdir := m.evaluator_direct never_direct d
    have hle := m.evaluator_le .never (Nat.le_of_succ_le hd)
    have hself := m.evaluator_le .never d.le_refl
    simp only [evaluator]
    rw [m.above_value f hdir e, m.above_tail f _ (Evaluator.finish_value _ _) e]
    exact m.directly_le f hself (value_le_complete (Nat.le_of_succ_le hd))
      (fun c g => Evaluator.finish_le hle m.turns (.call c g)) e

/-- What ends in tail position ends in inner position, with twice as many levels at most. -/
theorem complete_le_value (n : Nat) :
    ∀ (d : Nat) (e : Value) (f : FrameRef),
      (m.evaluator .never d).step e f .tail >>= (m.evaluator .never n).finish m.turns
        ≤ (m.evaluator .never (n + d)).value e f
  | 0, _, _ => fun _ => .inl rfl
  | d + 1, e, f => by
    have hdir := m.evaluator_direct never_direct (n + d)
    have hle := m.evaluator_le .never (Nat.le_add_right n d)
    have hself := m.evaluator_le .never (Nat.le_add_left d n)
    rw [← Nat.add_assoc]
    simp only [evaluator]
    rw [m.above_value f hdir e, m.above_tail f _ (Evaluator.finish_value _ _) e]
    exact m.directly_le f hself (complete_le_value n d)
      (fun c g => Evaluator.finish_le hle m.turns (.call c g)) e

/-- An expression means the same in both positions: in inner position no call is left over, and as
long as neither run comes to the end of the stack, the step in inner position ends as the step in
tail position does once its calls have been run, for every bound on the turns of loops. -/
theorem step_inner_eq_complete (e : Value) (f : FrameRef) (s : Store) :
    (∀ c g t, m.step e f .inner s ≠ .done (.call c g) t) ∧
      (m.WithinStack (fun ev => ev.step e f .inner s) →
        m.WithinStack (fun ev => ev.complete m.turns e f s) →
        m.step e f .inner s = (do
          let st ← m.step e f .tail
          let v ← m.resume st
          pure (Step.value v)) s) := by
  have hdir : m.step e f .inner = m.top.value e f >>= fun v => pure (.value v) :=
    m.evaluator_direct exhausted_direct m.limit e f
  refine ⟨fun c g t => ?_, fun hin hout => ?_⟩
  · rw [hdir, Eval.bind_apply]
    rcases m.top.value e f s with _ | _ | _ <;> simp [pure, Eval.pure]
  · have hvalue (floor : Evaluator) :
        (m.evaluator floor m.limit).value e f s = m.top.value e f s := by
      simp only [Evaluator.value, hin floor]
    have hcomplete (floor : Evaluator) :
        (m.evaluator floor m.limit).complete m.turns e f s = m.top.complete m.turns e f s :=
      hout floor
    have hle : m.top.value e f s ≤ m.top.complete m.turns e f s := by
      rw [← hvalue .never, ← hcomplete .never]
      exact m.value_le_complete m.limit.le_refl e f s
    have hge : m.top.complete m.turns e f s ≤ m.top.value e f s := by
      rw [← hvalue (m.evaluator .never m.limit), ← m.evaluator_add, ← hcomplete .never]
      exact m.complete_le_value m.limit m.limit e f s
    calc m.step e f .inner s
        = (m.top.value e f >>= fun v => pure (.value v)) s := by rw [hdir]
      _ = (m.top.complete m.turns e f >>= fun v => pure (.value v)) s := by
        simp only [Eval.bind_apply, Outcome.le_antisymm hle hge]
      _ = _ := by rw [Evaluator.complete, bind_assoc]; rfl

/-- A machine without primitives. -/
def bare : Machine where
  library _ _ := .done .nil
  limit := 3
  turns := 3
  depth := 3

/-- A call of a function that calls another one in tail position, which gives seven. -/
def chained : Store where
  pairs := #[⟨.closure 0, .nil⟩, ⟨.closure 1, .nil⟩]
  closures := #[⟨[], [.pair 1], 0⟩, ⟨[], [.int 7], 0⟩]
  frames := #[.empty none]

theorem step_chained (floor : Evaluator) :
    (bare.evaluator floor 3).step (.pair 0) 0 .inner chained
      = .done (.value (.int 7))
          { chained with frames := #[.empty none, .empty (some 0), .empty (some 0)] } := rfl

theorem complete_chained (floor : Evaluator) :
    (bare.evaluator floor 3).complete 3 (.pair 0) 0 chained
      = .done (.int 7)
          { chained with frames := #[.empty none, .empty (some 0), .empty (some 0)] } := rfl

theorem step_inner_eq_complete_chained :
    bare.WithinStack (fun ev => ev.step (.pair 0) 0 .inner chained)
      ∧ bare.WithinStack (fun ev => ev.complete 3 (.pair 0) 0 chained)
      ∧ bare.step (.pair 0) 0 .inner chained = (do
          let st ← bare.step (.pair 0) 0 .tail
          let v ← bare.resume st
          pure (Step.value v)) chained := by
  have hin : bare.WithinStack (fun ev => ev.step (.pair 0) 0 .inner chained) := fun floor =>
    (step_chained floor).trans (step_chained .exhausted).symm
  have hout : bare.WithinStack (fun ev => ev.complete 3 (.pair 0) 0 chained) := fun floor =>
    (complete_chained floor).trans (complete_chained .exhausted).symm
  exact ⟨hin, hout, (bare.step_inner_eq_complete (.pair 0) 0 chained).2 hin hout⟩

end Machine

end LispCore

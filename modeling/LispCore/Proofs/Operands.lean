import LispCore.Proofs.Application
import LispCore.Proofs.Programs

/-!
# The parts of an application

An application first gathers its operands. If they end in something other than the empty list, it is
refused, and if they run in a circle, it never gets further. Otherwise it evaluates the operator and
the operands from left to right, each in inner position, and applies the first value to the others.
A block of the same expressions evaluates them in the same order and completes the last one in tail
position. So the two go the same way up to the moment when all parts have their values: if one of
them fails, both fail with it and with what was done before it, and nothing is applied; if none
does, the application goes on from the store that the block leaves
(`Machine.application_follows_block`).

Both are compared with the parts evaluated one after the other, each to its end. With enough levels
each lies below the other two in the order of outcomes.
-/

namespace LispCore

section MapM

variable {g g' : Value → Eval Value}

theorem mapM_le (h : ∀ e, g e ≤ g' e) : ∀ es : List Value, es.mapM g ≤ es.mapM g'
  | [] => Eval.le_refl _
  | e :: es => by
    simp only [List.mapM_cons]
    exact Eval.bind_le (h e) fun _ => Eval.bind_le (mapM_le h es) fun _ => Eval.le_refl _

theorem mapM_guarded (limit : Nat) :
    ∀ es : List Value, es.mapM (fun e => Eval.guarded limit (g e)) = Eval.guarded limit (es.mapM g)
  | [] => rfl
  | e :: es => by
    simp only [List.mapM_cons, Eval.guarded_bind, mapM_guarded limit es]
    rfl

/-- There is a value for each expression. -/
theorem length_mapM :
    ∀ {es vs : List Value} {s t : Store}, es.mapM g s = .done vs t → vs.length = es.length
  | [], vs, s, t, h => by
    cases h
    rfl
  | e :: es, vs, s, t, h => by
    rw [List.mapM_cons, Eval.bind_apply] at h
    rcases he : g e s with ⟨v, u⟩ | _ | _ <;> rw [he] at h <;> simp only [reduceCtorEq] at h
    rw [Eval.bind_apply] at h
    rcases hes : es.mapM g u with ⟨ws, w⟩ | _ | _ <;> rw [hes] at h <;> cases h
    rw [List.length_cons, List.length_cons, length_mapM hes]

theorem runAll_eq_mapM {evaluate : Value → FrameRef → Eval Value} (f : FrameRef) :
    ∀ (last : Value) (es : List Value), runAll evaluate f last es
      = es.mapM (evaluate · f) >>= fun vs => pure (vs.getLastD last)
  | _, [] => rfl
  | last, e :: es => by
    simp only [runAll_cons, List.mapM_cons, bind_assoc, pure_bind, runAll_eq_mapM f _ es]
    refine bind_congr fun v => bind_congr fun vs => ?_
    cases vs <;> rfl

theorem Evaluator.values_eq_mapM (ev : Evaluator) (f : FrameRef) :
    ∀ es : List Value, ev.values f es = es.mapM (ev.value · f)
  | [] => rfl
  | e :: es => by simp only [Evaluator.values, List.mapM_cons, values_eq_mapM ev f es]

end MapM

/-- A pair of the keyword for a block and a list makes the block of the list's elements. -/
theorem Store.Denotes.block {s : Store} {q r : PairRef} {vs : List Value}
    (hq : s.pair q = ⟨.symbol Keyword.sequence.name, .pair r⟩) (h : s.IsListOf (s.pair r).tail vs) :
    s.Denotes (.pair q) (.block ((s.pair r).head :: vs)) := by
  have hlist {v : Value} {vs : List Value} (h : s.IsListOf v vs) :
      s.Denotes v (.list (vs.map .leaf)) := by
    induction h with
    | nil => exact .nil
    | cons _ ih => exact .cons (.leaf _) ih
  refine .cons ?_ ?_
  · rw [hq]
    exact .leaf _
  · rw [hq]
    exact .cons (.leaf _) (hlist h)

namespace Machine

/-- Applies the first of some values to the others. -/
def applyFirst (m : Machine) (ev : Evaluator) : List Value → Eval Value
  | [] => pure .nil
  | fn :: args => m.applyWith ev fn args

variable {m : Machine} {s : Store} {r : PairRef} {f : FrameRef} {y : Value}
  {items operands : List Value}

theorem applyFirst_le {ev ev' : Evaluator} (h : ev ≤ ev') :
    ∀ vs : List Value, m.applyFirst ev vs ≤ m.applyFirst ev' vs
  | [] => Eval.le_refl _
  | _ :: _ => fun _ => Simulation.identity_ends
    ((Simulation.identity_machines m m.turns.le_refl).applyWith h rfl trivial fun _ _ => trivial)

/-! ## The block and its parts -/

theorem mapM_evaluateWith (ev : Evaluator) (f : FrameRef) (es : List Value) :
    es.mapM (m.evaluateWith ev · f) = Eval.guarded m.limit (es.mapM (ev.complete m.turns · f)) :=
  mapM_guarded m.limit es

theorem block_le_parts (hy : s.Denotes y (.block items)) (n : Nat) :
    m.evaluateWith (m.evaluator .never (n + 1)) y f s
      ≤ (items.mapM (m.evaluateWith (m.evaluator .never (n + 1)) · f)
          >>= fun vs => pure (vs.getLastD .nil)) s := by
  have hstep (e : Value) : (m.evaluator .never n).step e f .tail
        >>= (m.evaluator .never (n + 1)).finish m.turns
      ≤ (m.evaluator .never (n + 1)).complete m.turns e f :=
    Eval.bind_le (Evaluator.step_le (m.evaluator_le .never n.le_succ) e f .tail)
      fun _ => Eval.le_refl _
  have hvalue (e : Value) : (m.evaluator .never n).value e f
      ≤ (m.evaluator .never (n + 1)).complete m.turns e f :=
    Eval.le_trans (m.value_le_complete n.le_succ e f) (hstep e)
  rw [mapM_evaluateWith, evaluator, evaluateWith_block _ hy]
  refine Outcome.le_trans (Eval.guarded_le _ (bodyDirectly_le_runAll hvalue hstep items) s) ?_
  rw [runAll_eq_mapM, Eval.guarded_bind]
  exact Outcome.le_refl _

theorem parts_le_block (hy : s.Denotes y (.block items)) (n : Nat) :
    (items.mapM (m.evaluateWith (m.evaluator .never n) · f)
        >>= fun vs => pure (vs.getLastD .nil)) s
      ≤ m.evaluateWith (m.evaluator .never (n + n + 1)) y f s := by
  have hvalue (e : Value) : (m.evaluator .never n).complete m.turns e f
      ≤ (m.evaluator .never (n + n)).value e f := m.complete_le_value n n e f
  have hstep (e : Value) : (m.evaluator .never n).complete m.turns e f
      ≤ (m.evaluator .never (n + n)).step e f .tail
          >>= (m.evaluator .never (n + n + 1)).finish m.turns := by
    refine Eval.bind_le (Evaluator.step_le (m.evaluator_le _ (Nat.le_add_left n n)) e f .tail) ?_
    exact Evaluator.finish_le (m.evaluator_le .never (show n ≤ n + n + 1 by omega)) m.turns
  rw [mapM_evaluateWith, evaluator, evaluateWith_block _ hy]
  refine Outcome.le_trans ?_ (Eval.guarded_le _ (runAll_le_bodyDirectly hvalue hstep items) s)
  rw [runAll_eq_mapM, Eval.guarded_bind]
  exact Outcome.le_refl _

/-! ## The application and its parts -/

theorem complete_list (ev : Evaluator) (hr : Keyword.ofHead? (s.pair r).head = none)
    (ho : s.IsListOf (s.pair r).tail operands) :
    (m.above ev).complete m.turns (.pair r) f s = (do
      let fn ← ev.value (s.pair r).head f
      let args ← ev.values f operands
      m.call (m.above ev) (m.above ev).primitive fn args) s := by
  have hstep : (m.above ev).step (.pair r) f .tail s = (do
      let fn ← ev.value (s.pair r).head f
      let args ← ev.values f operands
      m.applyStep ev fn args .tail) s := by
    simp only [above, stepWith, hr, Store.toList_eq_ok_iff.2 ho]
  simp only [Evaluator.complete, ← applyStep_finish, Eval.bind_apply, hstep]
  rcases ev.value (s.pair r).head f s with ⟨fn, t⟩ | _ | _ <;> simp only []
  rcases ev.values f operands t with ⟨args, u⟩ | _ | _ <;> rfl

theorem evaluateWith_list (ev : Evaluator) (hr : Keyword.ofHead? (s.pair r).head = none)
    (ho : s.IsListOf (s.pair r).tail operands) :
    m.evaluateWith (m.above ev) (.pair r) f s
      = (Eval.guarded m.limit (((s.pair r).head :: operands).mapM (ev.value · f))
          >>= m.applyFirst (m.above ev)) s := by
  have hguarded : m.evaluateWith (m.above ev) (.pair r) f s = Eval.guarded m.limit (do
      let fn ← ev.value (s.pair r).head f
      let args ← ev.values f operands
      m.call (m.above ev) (m.above ev).primitive fn args) s := by
    simp only [evaluateWith, Eval.guarded, complete_list ev hr ho]
  rw [hguarded]
  simp only [List.mapM_cons, Eval.guarded_bind, bind_assoc, Evaluator.values_eq_mapM]
  rfl

theorem list_le_parts (hr : Keyword.ofHead? (s.pair r).head = none)
    (ho : s.IsListOf (s.pair r).tail operands) (n : Nat) :
    m.evaluateWith (m.evaluator .never (n + 1)) (.pair r) f s
      ≤ (((s.pair r).head :: operands).mapM (m.evaluateWith (m.evaluator .never n) · f)
          >>= m.applyFirst (m.evaluator .never (n + 1))) s := by
  rw [mapM_evaluateWith, evaluator, evaluateWith_list _ hr ho]
  refine Eval.bind_le (Eval.guarded_le _ (mapM_le (fun e => ?_) _)) (fun _ => Eval.le_refl _) s
  exact m.value_le_complete (Nat.le_refl n) e f

theorem parts_le_list (hr : Keyword.ofHead? (s.pair r).head = none)
    (ho : s.IsListOf (s.pair r).tail operands) (n : Nat) :
    (((s.pair r).head :: operands).mapM (m.evaluateWith (m.evaluator .never n) · f)
        >>= m.applyFirst (m.evaluator .never n)) s
      ≤ m.evaluateWith (m.evaluator .never (n + n + 1)) (.pair r) f s := by
  rw [mapM_evaluateWith, evaluator, evaluateWith_list _ hr ho]
  refine Eval.bind_le (Eval.guarded_le _ (mapM_le (fun e => ?_) _)) (fun vs => ?_) s
  · exact m.complete_le_value n n e f
  · exact applyFirst_le (m.evaluator_le .never (show n ≤ n + n + 1 by omega)) vs

/-- An application whose operands cannot be told is not evaluated any further. -/
theorem evaluate_blocked (hlimit : 0 < m.limit) (hr : Keyword.ofHead? (s.pair r).head = none)
    {o : Obstacle} (ho : s.toList "Argument list" (s.pair r).tail = .error o) :
    m.evaluate (.pair r) f s = Eval.guarded m.limit (fun t => .blocked o t) s := by
  obtain ⟨d, hd⟩ : ∃ d, m.limit = d + 1 := ⟨m.limit - 1, by omega⟩
  have hstep : m.top.step (.pair r) f .tail s = .blocked o s := by
    simp only [top, hd, evaluator, above, stepWith, hr, ho]
  simp only [evaluate, evaluateWith, Eval.guarded, Evaluator.complete, Eval.bind_of_blocked hstep]

/-! ## The three side by side -/

theorem WithinStack.eq_never {α : Type} {run : Evaluator → Outcome α} (h : m.WithinStack run)
    (k : Nat) : run (m.evaluator .never (m.limit + k)) = run m.top := by
  rw [evaluator_add]
  exact h _

section Stack

variable (hparts : m.WithinStack fun ev => items.mapM (m.evaluateWith ev · f) s)

include hparts

/-- A block that stays within the stack evaluates its parts and gives the last value. -/
theorem evaluate_block_eq (hy : s.Denotes y (.block items))
    (hblock : m.WithinStack fun ev => m.evaluateWith ev y f s) :
    m.evaluate y f s = (items.mapM (m.evaluate · f) >>= fun vs => pure (vs.getLastD .nil)) s := by
  have hbelow := block_le_parts (m := m) (f := f) hy m.limit
  have habove := parts_le_block (m := m) (f := f) hy m.limit
  rw [Nat.add_assoc] at habove
  simp only [hblock.eq_never, Eval.bind_apply, hparts.eq_never] at hbelow
  simp only [hblock.eq_never, Eval.bind_apply, hparts .never] at habove
  exact Outcome.le_antisymm hbelow habove

/-- An application that stays within the stack evaluates its parts and applies the first value. -/
theorem evaluate_list_eq (hr : Keyword.ofHead? (s.pair r).head = none)
    (ho : s.IsListOf (s.pair r).tail operands) (hitems : items = (s.pair r).head :: operands)
    (hlist : m.WithinStack fun ev => m.evaluateWith ev (.pair r) f s)
    (happly : ∀ vs t, items.mapM (m.evaluate · f) s = .done vs t →
      m.WithinStack fun ev => m.applyFirst ev vs t) :
    m.evaluate (.pair r) f s = (items.mapM (m.evaluate · f) >>= m.applyFirst m.top) s := by
  have hbelow := list_le_parts (m := m) (f := f) hr ho m.limit
  have habove := parts_le_list (m := m) (f := f) hr ho m.limit
  rw [← hitems] at hbelow habove
  rw [Nat.add_assoc] at habove
  simp only [hlist.eq_never, Eval.bind_apply, hparts .never] at hbelow habove
  rw [Eval.bind_apply]
  rcases hvs : items.mapM (m.evaluate · f) s with ⟨vs, t⟩ | ⟨x, t⟩ | _ <;>
    change items.mapM (m.evaluateWith m.top · f) s = _ at hvs <;> rw [hvs] at hbelow habove
  · have hw := happly vs t hvs
    simp only [hw.eq_never] at hbelow
    simp only [hw .never] at habove
    exact Outcome.le_antisymm hbelow habove
  · exact Outcome.le_antisymm hbelow habove
  · exact Outcome.le_antisymm hbelow habove

end Stack

theorem applyWith_arity {c : ClosureRef} {args : List Value} {t : Store}
    (h : args.length ≠ (t.closure c).params.length) (ev : Evaluator) :
    m.applyWith ev (.closure c) args t
      = .raised (.arity (t.closure c).params.length args.length) t := by
  simp only [applyWith, call, Eval.guarded, Eval.bind_apply, enter, if_neg h]

theorem applyWith_notCallable {fn : Value} (args : List Value) {t : Store} {shown : String}
    (hc : ∀ c, fn ≠ .closure c) (hp : ∀ p, fn ≠ .prim p)
    (h : t.text m.depth fn = .ok shown) (ev : Evaluator) :
    m.applyWith ev fn args t = .raised (.notCallable fn shown) t := by
  have hcall : m.call ev ev.primitive fn args = notCallable m.depth fn := by
    cases fn with
    | closure c => exact absurd rfl (hc c)
    | prim p => exact absurd rfl (hp p)
    | _ => rfl
  simp only [applyWith, hcall, Eval.guarded, notCallable, h, Obstacle.showing, Outcome.blocked]

/-- What an application comes to once its parts have the values `fn` and `args` in the store `t`:
the application of the first to the others. The refusals of that application come from `t`. -/
structure AppliesFrom (m : Machine) (o : Outcome Value) (fn : Value) (args : List Value)
    (t : Store) : Prop where
  apply : m.WithinStack (fun ev => m.applyWith ev fn args t) → o = m.apply fn args t
  arity : ∀ c, fn = .closure c → args.length ≠ (t.closure c).params.length →
    o = .raised (.arity (t.closure c).params.length args.length) t
  notCallable : ∀ shown, (∀ c, fn ≠ .closure c) → (∀ p, fn ≠ .prim p) →
    t.text m.depth fn = .ok shown → o = .raised (.notCallable fn shown) t

theorem AppliesFrom.of_apply {o : Outcome Value} {fn : Value} {args : List Value} {t : Store}
    (h : m.WithinStack (fun ev => m.applyWith ev fn args t) → o = m.apply fn args t) :
    m.AppliesFrom o fn args t where
  apply := h
  arity := by
    rintro c rfl hne
    have hall := applyWith_arity (m := m) hne
    exact (h fun floor => (hall _).trans (hall m.top).symm).trans (hall m.top)
  notCallable shown hc hp htext := by
    have hall := applyWith_notCallable (m := m) args hc hp htext
    exact (h fun floor => (hall _).trans (hall m.top).symm).trans (hall m.top)

/-- A list whose head is no keyword is an application. If its tail ends in anything but the empty
list, it is refused with nothing done. If its tail runs in a circle, its operands are gathered for
ever, so that under no bound does the evaluation end. Otherwise a block of the same expressions,
such as the pair of `do` and the list itself, fails exactly if one of the parts does, evaluated from
left to right, and then the application fails in the same way and leaves the same store; and if the
block succeeds, the application goes on by applying the first value to the others in the store that
the block leaves. This holds as long as none of these runs comes to the end of the stack. -/
theorem application_follows_block (m : Machine) {s : Store} {r : PairRef}
    (hr : Keyword.ofHead? (s.pair r).head = none) (f : FrameRef) :
    (∀ rs last, 0 < m.limit → s.Tails (s.pair r).tail rs last → last.isNil = false →
      m.evaluate (.pair r) f s
        = .raised (.malformed (.notProper "Argument list") (some (s.pair r).tail)) s)
    ∧ (0 < m.limit → s.Circular (s.pair r).tail → m.evaluate (.pair r) f s = .unfinished)
    ∧ ∀ {operands : List Value} {y : Value}, s.IsListOf (s.pair r).tail operands →
      s.Denotes y (.block ((s.pair r).head :: operands)) →
      m.WithinStack (fun ev => m.evaluateWith ev y f s) →
      m.WithinStack (fun ev => m.evaluateWith ev (.pair r) f s) →
      m.WithinStack (fun ev => ((s.pair r).head :: operands).mapM (m.evaluateWith ev · f) s) →
      (∀ x t, m.evaluate y f s = .raised x t ↔
        ((s.pair r).head :: operands).mapM (m.evaluate · f) s = .raised x t)
      ∧ (∀ x t, m.evaluate y f s = .raised x t → m.evaluate (.pair r) f s = .raised x t)
      ∧ ∀ v t, m.evaluate y f s = .done v t → ∃ fn args,
        ((s.pair r).head :: operands).mapM (m.evaluate · f) s = .done (fn :: args) t
          ∧ m.AppliesFrom (m.evaluate (.pair r) f s) fn args t := by
  refine ⟨fun rs last hlimit ht hlast => evaluate_blocked hlimit hr (ht.toList_improper hlast _),
    fun hlimit hcircular => evaluate_blocked hlimit hr (hcircular.toList _), ?_⟩
  intro operands y ho hy hblock hlist hparts
  have heq := evaluate_block_eq hparts hy hblock
  have hlisteq := evaluate_list_eq hparts hr ho rfl hlist
  rw [Eval.bind_apply] at heq hlisteq
  rcases hvs : ((s.pair r).head :: operands).mapM (m.evaluate · f) s with ⟨vs, t⟩ | ⟨x, t⟩ | _ <;>
    simp only [hvs] at heq hlisteq
  · refine ⟨fun x u => ?_, fun x u hx => ?_, fun v u hv => ?_⟩
    · rw [heq]
      exact ⟨nofun, nofun⟩
    · rw [heq] at hx
      cases hx
    · rw [heq] at hv
      cases hv
      obtain ⟨fn, args, rfl⟩ : ∃ fn args, vs = fn :: args := by
        cases vs with
        | nil => cases length_mapM hvs
        | cons fn args => exact ⟨fn, args, rfl⟩
      refine ⟨fn, args, rfl, .of_apply fun hw => hlisteq ?_⟩
      rintro _ _ ⟨⟩
      exact hw
  · refine ⟨fun z u => by simp only [heq, Outcome.raised.injEq], fun z u hz => ?_, fun v u hv => ?_⟩
    · rw [← hz, heq]
      exact hlisteq nofun
    · rw [heq] at hv
      cases hv
  · refine ⟨fun x u => ?_, fun x u hx => ?_, fun v u hv => ?_⟩ <;> rw [heq] at *
    · exact ⟨nofun, nofun⟩
    · cases hx
    · cases hv

/-- The applications `(f (def y 5) (quote))`, whose second operand is ill formed, and
`(f (def y 5))`, and a block of the parts of each. The application `(f 1 1 ...)` has operands that
run in a circle, and those of `(f . 3)` end in an integer. -/
def applications : Store where
  pairs := #[⟨.closure 0, .pair 1⟩, ⟨.pair 3, .pair 2⟩, ⟨.pair 6, .nil⟩,
    ⟨.symbol "def", .pair 4⟩, ⟨.symbol "y", .pair 5⟩, ⟨.int 5, .nil⟩, ⟨.symbol "quote", .nil⟩,
    ⟨.symbol "do", .pair 0⟩, ⟨.closure 0, .pair 9⟩, ⟨.pair 3, .nil⟩, ⟨.symbol "do", .pair 8⟩,
    ⟨.closure 0, .pair 12⟩, ⟨.int 1, .pair 12⟩, ⟨.closure 0, .int 3⟩]
  closures := #[⟨[⟨"a"⟩], [.int 7], 0⟩]
  frames := #[.empty none]

/-- The store after the first operand. -/
def applicationsDefined : Store :=
  { applications with frames := #[⟨[(⟨"y"⟩, .int 5)], none⟩] }

theorem withinStack_of_eq {α : Type} {run : Evaluator → Outcome α} {o : Outcome α}
    (h : ∀ floor, run (m.evaluator floor m.limit) = o) : m.WithinStack run :=
  fun floor => (h floor).trans (h .exhausted).symm

/-- The definition is kept and the function is not applied in the first application; in the second
it is applied to the value that was defined. The operands that run in a circle are gathered for
ever, and those that end in an integer are refused. -/
theorem application_follows_block_applications :
    bare.evaluate (.pair 0) 0 applications
        = .raised (.malformed (.operandCount .quote) none) applicationsDefined
      ∧ bare.evaluate (.pair 8) 0 applications
        = bare.apply (.closure 0) [.int 5] applicationsDefined
      ∧ applications.Circular (.pair 12)
      ∧ (∀ turns, (bare.withTurns turns).evaluate (.pair 11) 0 applications = .unfinished)
      ∧ bare.evaluate (.pair 13) 0 applications
        = .raised (.malformed (.notProper "Argument list") (some (.int 3))) applications := by
  have h₁ := (bare.application_follows_block (s := applications) (r := 0) rfl 0).2.2
    (y := .pair 7) (.cons (.cons .nil)) (.block rfl (.cons (.cons .nil)))
    (withinStack_of_eq fun _ => rfl) (withinStack_of_eq fun _ => rfl)
    (withinStack_of_eq fun _ => rfl)
  have h₂ := (bare.application_follows_block (s := applications) (r := 8) rfl 0).2.2
    (y := .pair 10) (.cons .nil) (.block rfl (.cons .nil))
    (withinStack_of_eq fun _ => rfl) (withinStack_of_eq fun _ => rfl)
    (withinStack_of_eq fun _ => rfl)
  have hcircular : applications.Circular (.pair 12) := .of_tail rfl
  have hcircle (turns : Nat) :=
    ((bare.withTurns turns).application_follows_block (s := applications) (r := 11) rfl 0).2.1
      (Nat.succ_pos 2) hcircular
  have himproper := (bare.application_follows_block (s := applications) (r := 13) rfl 0).1
    [] (.int 3) (by decide) (.last nofun) rfl
  refine ⟨h₁.2.1 _ _ rfl, ?_, hcircular, hcircle, himproper⟩
  obtain ⟨fn, args, hparts, happlies⟩ := h₂.2.2 (.int 5) applicationsDefined rfl
  cases hparts
  exact happlies.apply (withinStack_of_eq fun _ => rfl)

end Machine

end LispCore

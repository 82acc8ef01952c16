import LispCore.Eval.Machine
import LispCore.Proofs.Agreement

/-!
# Two runs side by side

A `Simulation` relates the stores of two runs that handle the same values. It says what a run
knows, in which frames its code may run and with what it may fail, and it asks that reading, the
few changes the evaluator makes by itself and its own failures keep to that. If the primitives of
two machines keep to it as well (`Simulation.Machines`), so does everything the machines do
(`Simulation.Machines.evaluator`): whenever the first run ends, the second ends with the same
value or the same failure, in related stores. The second machine may allow loops more turns and may
stand on another floor.

With one machine and one store on both sides this is the preservation of an invariant; with
equality of stores it is the monotonicity of evaluation in its bounds.
-/

namespace LispCore

/-- The first outcome is unfinished or both end alike, in stores that `D` or `R` relates. -/
inductive Outcome.Below {α : Type} (D : α → Store → Store → Prop)
    (R : Failure → Store → Store → Prop) : Outcome α → Outcome α → Prop
  | unfinished (o : Outcome α) : Below D R .unfinished o
  | done {a : α} {s s' : Store} (h : D a s s') : Below D R (.done a s) (.done a s')
  | raised {x : Failure} {s s' : Store} (h : R x s s') : Below D R (.raised x s) (.raised x s')

structure Simulation where
  /-- The stores that belong together. -/
  stores : Store → Store → Prop
  /-- What a store may become in the course of the first run. -/
  le : Store → Store → Prop
  /-- The values that the runs know. -/
  value : Store → Value → Prop
  /-- The frames that the runs may look into. -/
  frame : Store → FrameRef → Prop
  /-- The frames that code may run in. -/
  scope : Store → FrameRef → Prop
  /-- What an evaluation may fail with. -/
  failure : Store → Failure → Prop
  /-- What a primitive may fail with. -/
  cause : Store → Failure → Prop
  le_refl : ∀ s, le s s
  le_trans : ∀ {s t u}, le s t → le t u → le s u
  value_mono : ∀ {s t v}, le s t → value s v → value t v
  frame_mono : ∀ {s t f}, le s t → frame s f → frame t f
  scope_mono : ∀ {s t f}, le s t → scope s f → scope t f
  cause_mono : ∀ {s t x}, le s t → cause s x → cause t x
  frame_of_scope : ∀ {s f}, scope s f → frame s f
  agree : ∀ {s s'}, stores s s' → Agreement (value s) (frame s) s s'
  define : ∀ {s s' f v} (n : Symbol), stores s s' → scope s f → value s v →
    stores (s.bind f n v) (s'.bind f n v) ∧ le s (s.bind f n v)
  assign : ∀ {s s' f v n}, stores s s' → frame s f → (s.frame f).binds n = true → value s v →
    stores (s.bind f n v) (s'.bind f n v) ∧ le s (s.bind f n v)
  lambda : ∀ {s s' c}, stores s s' → scope s c.env → c.params.Nodup → (∀ e ∈ c.body, value s e) →
    stores (s.addClosure c).2 (s'.addClosure c).2 ∧ le s (s.addClosure c).2
      ∧ value (s.addClosure c).2 (.closure s.closures.size)
  enter : ∀ {s s' c args}, stores s s' → value s (.closure c) → (∀ a ∈ args, value s a) →
    args.length = (s.closure c).params.length →
    let call : Frame := ⟨(s.closure c).params.zip args, some (s.closure c).env⟩
    stores (s.addFrame call).2 (s'.addFrame call).2 ∧ le s (s.addFrame call).2
      ∧ scope (s.addFrame call).2 s.frames.size
  record : ∀ {s s' x} (name : String), stores s s' → cause s x →
    stores (s.record (.primitiveRaised name x)) (s'.record (.primitiveRaised name x))
      ∧ le s (s.record (.primitiveRaised name x))
  refusal : ∀ {s s' x}, stores s s' → Refusal (value s) x → failure s x
  recursionLimit : ∀ s limit, failure s (.recursionLimit limit)
  primitive : ∀ {s x text} (name : String), cause s x → x ≠ .overflow → x.text = .ok text →
    failure (s.record (.primitiveRaised name x)) (.primitive name x)
  cause_of_failure : ∀ {s x}, failure s x → cause s x

namespace Simulation

variable (S : Simulation)

/-- The first outcome of runs from `s` is unfinished, or both are the same, with a result in `A` or
a failure in `X`, and the stores they leave belong together. -/
def Ends {α : Type} (s : Store) (A : Store → α → Prop) (X : Store → Failure → Prop) :
    Outcome α → Outcome α → Prop :=
  Outcome.Below (fun a t t' => S.stores t t' ∧ S.le s t ∧ A t a)
    (fun x t t' => S.stores t t' ∧ S.le s t ∧ X t x)

/-- What a step comes to is known. -/
def Known (s : Store) : Step → Prop
  | .value v => S.value s v
  | .call c f => S.value s (.closure c) ∧ S.scope s f

/-- What comes back to a primitive is known. -/
def Reply (s : Store) : Except Failure Value → Prop
  | .ok v => S.value s v
  | .error x => S.cause s x

/-- Evaluators that take related stores to related outcomes. -/
structure Evaluators (ev ev' : Evaluator) : Prop where
  step : ∀ {s s' : Store} {e : Value} {f : FrameRef} (pos : Position), S.stores s s' →
    S.value s e → S.scope s f →
    S.Ends s S.Known S.failure (ev.step e f pos s) (ev'.step e f pos s')
  primitive : ∀ {s s' : Store} {p : Primitive} {args : List Value}, S.stores s s' →
    S.value s (.prim p) → (∀ a ∈ args, S.value s a) →
    S.Ends s S.value S.failure (ev.primitive p args s) (ev'.primitive p args s')

/-- Routines that keep to the simulation from related stores on, whatever comes back to them. -/
inductive Routines : Store → Store → Routine Value → Routine Value → Prop
  | done {s s' : Store} {v : Value} (hv : S.value s v) : Routines s s' (.done v) (.done v)
  | raise {s s' : Store} {x : Failure} (hx : S.cause s x) : Routines s s' (.raise x) (.raise x)
  | never {s s' : Store} (r : Routine Value) : Routines s s' .never r
  | read {s s' : Store} {k k' : Store → Routine Value} (h : Routines s s' (k s) (k' s')) :
    Routines s s' (.read k) (.read k')
  | update {s s' : Store} {g g' : Store → Value × Store} {k k' : Value → Routine Value}
    (hs : S.stores (g s).2 (g' s').2) (hle : S.le s (g s).2)
    (h : Routines (g s).2 (g' s').2 (k (g s).1) (k' (g' s').1)) :
    Routines s s' (.update g k) (.update g' k')
  | eval {s s' : Store} {e : Value} {f : FrameRef} {k k' : Except Failure Value → Routine Value}
    (he : S.value s e) (hf : S.scope s f)
    (h : ∀ {t t' : Store} {r : Except Failure Value}, S.stores t t' → S.le s t → S.Reply t r →
      Routines t t' (k r) (k' r)) :
    Routines s s' (.eval e f k) (.eval e f k')
  | apply {s s' : Store} {fn : Value} {args : List Value}
    {k k' : Except Failure Value → Routine Value} (hfn : S.value s fn)
    (hargs : ∀ a ∈ args, S.value s a)
    (h : ∀ {t t' : Store} {r : Except Failure Value}, S.stores t t' → S.le s t → S.Reply t r →
      Routines t t' (k r) (k' r)) :
    Routines s s' (.apply fn args k) (.apply fn args k')

/-- Machines whose primitives keep to the simulation, the second with no fewer turns. -/
structure Machines (m m' : Machine) : Prop where
  turns : m.turns ≤ m'.turns
  limit : m.limit = m'.limit
  depth : m.depth = m'.depth
  library : ∀ {s s' : Store} {p : Primitive} {args : List Value}, S.stores s s' →
    S.value s (.prim p) → (∀ a ∈ args, S.value s a) →
    S.Routines s s' (m.library p args) (m'.library p args)

variable {S}

section Ends

variable {α β : Type} {A : Store → α → Prop} {B : Store → β → Prop} {X : Store → Failure → Prop}
  {s s' t t' : Store}

theorem Ends.pure {a : α} (hs : S.stores s s') (ha : A s a) :
    S.Ends s A X (.done a s) (.done a s') := .done ⟨hs, S.le_refl s, ha⟩

theorem Ends.raise {x : Failure} (hs : S.stores s s') (hx : X s x) :
    S.Ends s A X (.raised x s) (.raised x s') := .raised ⟨hs, S.le_refl s, hx⟩

theorem Ends.blocked {o : Obstacle} (hs : S.stores s s') (ho : Blocks (S.value s) o) :
    S.Ends s A S.failure (.blocked o s) (.blocked o s') := by
  cases o with
  | failure x => exact .raise hs (S.refusal hs (ho x rfl))
  | endless => exact .unfinished _

theorem Ends.of_le {o o' : Outcome α} (hle : S.le s t) (h : S.Ends t A X o o') :
    S.Ends s A X o o' := by
  rcases h with _ | ⟨hs, hl, ha⟩ | ⟨hs, hl, hx⟩
  · exact .unfinished _
  · exact .done ⟨hs, S.le_trans hle hl, ha⟩
  · exact .raised ⟨hs, S.le_trans hle hl, hx⟩

theorem Ends.bind {c c' : Eval α} {k k' : α → Eval β} (h : S.Ends s A X (c s) (c' s'))
    (hk : ∀ {a : α} {t t' : Store}, S.stores t t' → S.le s t → A t a →
      S.Ends t B X (k a t) (k' a t')) :
    S.Ends s B X ((c >>= k) s) ((c' >>= k') s') := by
  simp only [Bind.bind, Eval.bind]
  generalize c s = o at h ⊢
  generalize c' s' = o' at h ⊢
  rcases h with _ | ⟨hs, hl, ha⟩ | ⟨hs, hl, hx⟩
  · exact .unfinished _
  · exact .of_le hl (hk hs hl ha)
  · exact .raised ⟨hs, hl, hx⟩

end Ends

section Evaluators

variable {ev ev' : Evaluator} (h : S.Evaluators ev ev') {s s' : Store} {e : Value} {f : FrameRef}

include h

theorem Evaluators.value (hs : S.stores s s') (he : S.value s e) (hf : S.scope s f) :
    S.Ends s S.value S.failure (ev.value e f s) (ev'.value e f s') := by
  have hstep := h.step .inner hs he hf
  simp only [Evaluator.value]
  generalize ev.step e f .inner s = o at hstep ⊢
  generalize ev'.step e f .inner s' = o' at hstep ⊢
  rcases hstep with _ | @⟨st, t, t', hd⟩ | hx
  · exact .unfinished _
  · cases st with
    | value v => exact .done hd
    | call c g => exact .unfinished _
  · exact .raised hx

theorem Evaluators.values :
    ∀ {es : List Value} {s s' : Store}, S.stores s s' → (∀ e ∈ es, S.value s e) → S.scope s f →
      S.Ends s (fun t vs => ∀ v ∈ vs, S.value t v) S.failure (ev.values f es s)
        (ev'.values f es s')
  | [], s, s', hs, _, _ => .pure hs (by simp)
  | e :: es, s, s', hs, he, hf => by
    refine .bind (h.value hs (he e List.mem_cons_self) hf) fun hs hl hv => ?_
    refine .bind (Evaluators.values hs (fun e hm => S.value_mono hl
      (he e (List.mem_cons_of_mem _ hm))) (S.scope_mono hl hf)) fun hs hl hvs => ?_
    refine .pure hs fun w hw => ?_
    rcases List.mem_cons.1 hw with rfl | hw
    · exact S.value_mono hl hv
    · exact hvs w hw

theorem Evaluators.each :
    ∀ {es : List Value} {s s' : Store}, S.stores s s' → (∀ e ∈ es, S.value s e) → S.scope s f →
      S.Ends s (fun _ _ => True) S.failure (ev.each f es s) (ev'.each f es s')
  | [], s, s', hs, _, _ => .pure hs trivial
  | e :: es, s, s', hs, he, hf => by
    refine .bind (h.value hs (he e List.mem_cons_self) hf) fun hs hl _ => ?_
    exact Evaluators.each hs (fun e hm => S.value_mono hl (he e (List.mem_cons_of_mem _ hm)))
      (S.scope_mono hl hf)

theorem Evaluators.body (pos : Position) :
    ∀ {es : List Value} {s s' : Store}, S.stores s s' → (∀ e ∈ es, S.value s e) → S.scope s f →
      S.Ends s S.Known S.failure (ev.body f pos es s) (ev'.body f pos es s')
  | [], s, s', hs, _, _ => .pure hs ((S.agree hs).plain rfl)
  | [e], s, s', hs, he, hf => h.step pos hs (he e List.mem_cons_self) hf
  | e :: e' :: es, s, s', hs, he, hf => by
    refine .bind (h.value hs (he e List.mem_cons_self) hf) fun hs hl _ => ?_
    exact Evaluators.body pos hs (fun e hm => S.value_mono hl (he e (List.mem_cons_of_mem _ hm)))
      (S.scope_mono hl hf)

theorem Evaluators.finish :
    ∀ {n n' : Nat} {st : Step} {s s' : Store}, n ≤ n' → S.stores s s' → S.Known s st →
      S.Ends s S.value S.failure (ev.finish n st s) (ev'.finish n' st s')
  | n, n', .value v, s, s', _, hs, hv => by
    rw [ev.finish_value, ev'.finish_value]
    exact .pure hs hv
  | 0, n', .call c g, s, s', _, hs, _ => .unfinished _
  | n + 1, n' + 1, .call c g, s, s', hn, hs, ⟨hc, hg⟩ => by
    obtain ⟨heq, hb⟩ := (S.agree hs).closure hc
    rw [ev.finish_call, ev'.finish_call, ← heq]
    exact .bind (h.body .tail hs hb hg) fun hs _ hst =>
      Evaluators.finish (Nat.le_of_succ_le_succ hn) hs hst

theorem Evaluators.loop (test : Value) (body : List Value) :
    ∀ {n n' : Nat} {s s' : Store}, n ≤ n' → S.stores s s' → S.value s test →
      (∀ e ∈ body, S.value s e) → S.scope s f →
      S.Ends s S.value S.failure (ev.loop f test body n s) (ev'.loop f test body n' s')
  | 0, n', s, s', _, _, _, _, _ => .unfinished _
  | n + 1, n' + 1, s, s', hn, hs, ht, hb, hf => by
    rw [ev.loop_succ, ev'.loop_succ]
    refine .bind (h.value hs ht hf) fun {c t t'} hs hl _ => ?_
    split
    · refine .bind (h.each hs (fun e he => S.value_mono hl (hb e he)) (S.scope_mono hl hf))
        fun hs hl' _ => ?_
      have hl := S.le_trans hl hl'
      exact Evaluators.loop test body (Nat.le_of_succ_le_succ hn) hs (S.value_mono hl ht)
        (fun e he => S.value_mono hl (hb e he)) (S.scope_mono hl hf)
    · exact .pure hs ((S.agree hs).plain rfl)

theorem Evaluators.complete {n n' : Nat} (hn : n ≤ n') (hs : S.stores s s') (he : S.value s e)
    (hf : S.scope s f) :
    S.Ends s S.value S.failure (ev.complete n e f s) (ev'.complete n' e f s') :=
  .bind (h.step .tail hs he hf) fun hs _ hst => h.finish hn hs hst

omit h in
theorem Evaluators.exhausted : S.Evaluators .exhausted .exhausted where
  step _ hs _ _ := .raise hs (S.refusal hs (.unshown (.inl rfl)))
  primitive hs _ _ := .raise hs (S.refusal hs (.unshown (.inl rfl)))

end Evaluators

section Application

variable {s s' : Store} {c : ClosureRef} {args : List Value}

theorem enter_ends (hs : S.stores s s') (hc : S.value s (.closure c))
    (ha : ∀ a ∈ args, S.value s a) :
    S.Ends s S.scope S.failure (LispCore.enter c args s) (LispCore.enter c args s') := by
  have hagree := S.agree hs
  obtain ⟨heq, -⟩ := hagree.closure hc
  simp only [LispCore.enter, ← heq]
  split
  · rename_i hn
    obtain ⟨hs', hle, hf⟩ := S.enter hs hc ha hn
    simp only [Store.addFrame, ← hagree.frames_size]
    exact .done ⟨hs', hle, hf⟩
  · exact .raise hs (S.refusal hs (.arity _ _))

theorem notCallable_ends {α : Type} {A : Store → α → Prop} {depth : Nat} {v : Value}
    (hs : S.stores s s') (hv : S.value s v) :
    S.Ends s A S.failure (LispCore.notCallable depth v s) (LispCore.notCallable depth v s') := by
  simp only [LispCore.notCallable, ← (S.agree hs).text_eq depth hv]
  exact .blocked hs (.showing (fun _ => Store.textIn_error) fun t => .notCallable v t hv)

/-- A primitive's failure comes out under its name, or else the failure to put it into words. -/
theorem primitive_ends {x : Failure} (name : String) (hs : S.stores s s') (hx : S.cause s x)
    (ho : x ≠ .overflow) :
    let blamed : Obstacle := .showing x.text fun _ => .primitive name x
    S.Ends s S.value S.failure (.blocked blamed (s.record (.primitiveRaised name x)))
      (.blocked blamed (s'.record (.primitiveRaised name x))) := by
  obtain ⟨hs', hl⟩ := S.record name hs hx
  refine .of_le hl ?_
  rcases htext : x.text with o | text
  · refine .blocked hs' fun y hy => .unshown ?_
    exact Failure.isUnshown_of_text (htext.trans (congrArg Except.error hy))
  · exact .raise hs' (S.primitive name hx ho htext)

theorem guarded_ends {α : Type} {A : Store → α → Prop} {limit : Nat} {c c' : Eval α}
    (h : S.Ends s A S.failure (c s) (c' s')) :
    S.Ends s A S.failure (Eval.guarded limit c s) (Eval.guarded limit c' s') := by
  simp only [Eval.guarded]
  generalize c s = o at h ⊢
  generalize c' s' = o' at h ⊢
  rcases h with _ | hd | @⟨x, t, t', hx⟩
  · exact .unfinished _
  · exact .done hd
  · cases x with
    | overflow => exact .raised ⟨hx.1, hx.2.1, S.recursionLimit t limit⟩
    | _ => exact .raised hx

theorem caught_ends {c c' : Eval Value} {k k' : Except Failure Value → Eval Value}
    (h : S.Ends s S.value S.failure (c s) (c' s'))
    (hk : ∀ {t t' : Store} (r : Except Failure Value), S.stores t t' → S.le s t → S.Reply t r →
      S.Ends t S.value S.cause (k r t) (k' r t')) :
    S.Ends s S.value S.cause (Eval.caught c k s) (Eval.caught c' k' s') := by
  simp only [Eval.caught]
  generalize c s = o at h ⊢
  generalize c' s' = o' at h ⊢
  rcases h with _ | ⟨hs, hl, hv⟩ | ⟨hs, hl, hx⟩
  · exact .unfinished _
  · exact .of_le hl (hk (.ok _) hs hl hv)
  · exact .of_le hl (hk (.error _) hs hl (S.cause_of_failure hx))

end Application

namespace Machines

variable {m m' : Machine} (hm : S.Machines m m') {ev ev' : Evaluator} (h : S.Evaluators ev ev')
  {s s' : Store}

include hm h

theorem call {P P' : Primitive → List Value → Eval Value} {fn : Value} {args : List Value}
    (hP : ∀ {p : Primitive}, S.value s (.prim p) →
      S.Ends s S.value S.failure (P p args s) (P' p args s'))
    (hs : S.stores s s') (hfn : S.value s fn) (ha : ∀ a ∈ args, S.value s a) :
    S.Ends s S.value S.failure (m.call ev P fn args s) (m'.call ev' P' fn args s') := by
  cases fn with
  | closure c =>
    refine .bind (enter_ends hs hfn ha) fun hs hl hf => ?_
    exact h.finish hm.turns hs ⟨S.value_mono hl hfn, hf⟩
  | prim p => exact hP hfn
  | _ =>
    simp only [Machine.call, ← hm.depth]
    exact notCallable_ends hs hfn

theorem evaluateWith {e : Value} {f : FrameRef} (hs : S.stores s s') (he : S.value s e)
    (hf : S.scope s f) :
    S.Ends s S.value S.failure (m.evaluateWith ev e f s) (m'.evaluateWith ev' e f s') := by
  simp only [Machine.evaluateWith, ← hm.limit]
  exact guarded_ends (h.complete hm.turns hs he hf)

theorem applyWith {fn : Value} {args : List Value} (hs : S.stores s s') (hfn : S.value s fn)
    (ha : ∀ a ∈ args, S.value s a) :
    S.Ends s S.value S.failure (m.applyWith ev fn args s) (m'.applyWith ev' fn args s') := by
  simp only [Machine.applyWith, ← hm.limit]
  exact guarded_ends (hm.call h (fun hp => h.primitive hs hp ha) hs hfn ha)

theorem perform {r r' : Routine Value} (hr : S.Routines s s' r r') (hs : S.stores s s') :
    S.Ends s S.value S.cause (m.perform ev r s) (m'.perform ev' r' s') := by
  induction hr with
  | done hv => exact .pure hs hv
  | raise hx => exact .raise hs hx
  | never r => exact .unfinished _
  | read _ ih => exact ih hs
  | update hs' hl _ ih => exact .of_le hl (ih hs')
  | eval he hf _ ih =>
    exact caught_ends (hm.evaluateWith h hs he hf) fun r hs hl hr => ih hs hl hr hs
  | apply hfn ha _ ih =>
    exact caught_ends (hm.applyWith h hs hfn ha) fun r hs hl hr => ih hs hl hr hs

theorem runPrimitive {p : Primitive} {args : List Value} (hs : S.stores s s')
    (hp : S.value s (.prim p)) (ha : ∀ a ∈ args, S.value s a) :
    S.Ends s S.value S.failure (m.runPrimitive ev p args s) (m'.runPrimitive ev' p args s') := by
  have hr := hm.perform h (hm.library hs hp ha) hs
  simp only [Machine.runPrimitive]
  generalize m.perform ev (m.library p args) s = o at hr ⊢
  generalize m'.perform ev' (m'.library p args) s' = o' at hr ⊢
  rcases hr with _ | hd | @⟨x, t, t', hs, hl, hx⟩
  · exact .unfinished _
  · exact .done hd
  · by_cases ho : x = .overflow
    · subst ho
      exact .raised ⟨hs, hl, S.refusal hs (.unshown (.inl rfl))⟩
    · have hends := primitive_ends p.name hs hx ho
      cases x with
      | overflow => exact absurd rfl ho
      | _ => exact .of_le hl hends

theorem applyStep {fn : Value} {args : List Value} (pos : Position) (hs : S.stores s s')
    (hfn : S.value s fn) (ha : ∀ a ∈ args, S.value s a) :
    S.Ends s S.Known S.failure (m.applyStep ev fn args pos s)
      (m'.applyStep ev' fn args pos s') := by
  fun_cases Machine.applyStep m ev fn args pos with
  | case1 c =>
    refine .bind (enter_ends hs hfn ha) fun hs hl hf => ?_
    exact .pure hs ⟨S.value_mono hl hfn, hf⟩
  | case2 pos fn hne =>
    rw [Machine.applyStep]
    · refine .bind (hm.call h (fun hp => hm.runPrimitive h hs hp ha) hs hfn ha) fun hs _ hv => ?_
      exact .pure hs hv
    · exact hne

theorem formStep {f : FrameRef} {form : Form} (pos : Position) (hs : S.stores s s')
    (hform : form.Known (S.value s) f) (hf : S.scope s f) :
    S.Ends s S.Known S.failure (m.formStep ev f pos form s) (m'.formStep ev' f pos form s') := by
  cases form with
  | define n e =>
    refine .bind (h.value hs hform hf) fun hs hl hv => ?_
    obtain ⟨hs', hl'⟩ := S.define n hs (S.scope_mono hl hf) hv
    exact .done ⟨hs', hl', S.value_mono hl' hv⟩
  | assign n e =>
    refine .bind (h.value hs hform hf) fun {v t t'} hs hl hv => ?_
    have hframe := S.frame_of_scope (S.scope_mono hl hf)
    simp only [Eval.bind_apply, Store.assign_sym, ← (S.agree hs).find?_eq n f hframe]
    rcases hg : t.find? f n with _ | g
    · exact .raise hs (S.refusal hs (.unbound n))
    · obtain ⟨hgf, hgb⟩ := (S.agree hs).find?_known f hframe hg
      obtain ⟨hs', hl'⟩ := S.assign hs hgf hgb hv
      exact .done ⟨hs', hl', S.value_mono hl' hv⟩
  | cond c t e =>
    obtain ⟨hc, ht, he⟩ := hform
    refine .bind (h.value hs hc hf) fun hs hl _ => ?_
    split
    · exact h.step pos hs (S.value_mono hl ht) (S.scope_mono hl hf)
    · cases e with
      | none => exact .pure hs ((S.agree hs).plain rfl)
      | some e => exact h.step pos hs (S.value_mono hl (he e rfl)) (S.scope_mono hl hf)
  | loop c body =>
    exact .bind (h.loop c body hm.turns hs hform.1 hform.2 hf) fun hs _ hv => .pure hs hv
  | sequence body => exact h.body pos hs hform hf
  | lambda c =>
    obtain ⟨henv, hn, hb⟩ := hform
    obtain ⟨hs', hl, hv⟩ := S.lambda hs (henv ▸ hf) hn hb
    have hsize := (S.agree hs).closures_size
    simp only [Machine.formStep, Eval.update, Bind.bind, Eval.bind, Store.addClosure, ← hsize]
    exact .done ⟨hs', hl, hv⟩
  | quote v => exact .pure hs hform

theorem stepWith {e : Value} {f : FrameRef} (pos : Position) (hs : S.stores s s')
    (he : S.value s e) (hf : S.scope s f) :
    S.Ends s S.Known S.failure (m.stepWith ev e f pos s) (m'.stepWith ev' e f pos s') := by
  have hagree := S.agree hs
  cases e with
  | sym n =>
    simp only [Machine.stepWith, ← hagree.lookup?_eq n (S.frame_of_scope hf)]
    rcases hv : s.lookup? f n with _ | v
    · exact .raise hs (S.refusal hs (.unbound n))
    · exact .pure hs (hagree.lookup?_known (S.frame_of_scope hf) hv)
  | pair r =>
    obtain ⟨heq, hh, ht⟩ := hagree.pair he
    simp only [Machine.stepWith, ← heq]
    rcases hk : Keyword.ofHead? (s.pair r).head with _ | k
    · simp only [← hagree.toList_eq _ ht]
      rcases hl : s.toList "Argument list" (s.pair r).tail with o | operands
      · exact .blocked hs (.of_toList ht hl)
      · have ho := hagree.toList_known ht hl
        refine .bind (h.value hs hh hf) fun hs hl hfn => ?_
        refine .bind (h.values hs (fun e he => S.value_mono hl (ho e he)) (S.scope_mono hl hf))
          fun hs hl hargs => ?_
        exact hm.applyStep h pos hs (S.value_mono hl hfn) hargs
    · simp only [← hm.depth, ← hagree.read_eq m.depth f k ht]
      rcases hform : Form.read s m.depth f k (s.pair r).tail with o | form
      · exact .blocked hs (hagree.read_blocks ht hform)
      · exact hm.formStep h pos hs (hagree.read_known ht hform) hf
  | foreign o =>
    exact .blocked hs (.showing (fun _ => Failure.isUnshown_of_answer)
      fun _ => .malformed _ _ (by simpa using he))
  | _ => exact .pure hs he

theorem above : S.Evaluators (m.above ev) (m'.above ev') where
  step pos hs he hf := hm.stepWith h pos hs he hf
  primitive hs hp ha := hm.runPrimitive h hs hp ha

omit h in
/-- Evaluators on related floors are related at every level. -/
theorem evaluator {floor floor' : Evaluator} (hfloor : S.Evaluators floor floor') :
    ∀ d : Nat, S.Evaluators (m.evaluator floor d) (m'.evaluator floor' d)
  | 0 => hfloor
  | d + 1 => hm.above (evaluator hfloor d)

omit h in
theorem top : S.Evaluators m.top m'.top := by
  simp only [Machine.top, ← hm.limit]
  exact hm.evaluator .exhausted m.limit

omit h in
theorem evaluate {e : Value} {f : FrameRef} (hs : S.stores s s') (he : S.value s e)
    (hf : S.scope s f) :
    S.Ends s S.value S.failure (m.evaluate e f s) (m'.evaluate e f s') :=
  hm.evaluateWith hm.top hs he hf

omit h in
theorem apply {fn : Value} {args : List Value} (hs : S.stores s s') (hfn : S.value s fn)
    (ha : ∀ a ∈ args, S.value s a) :
    S.Ends s S.value S.failure (m.apply fn args s) (m'.apply fn args s') :=
  hm.applyWith hm.top hs hfn ha

end Machines

end Simulation

end LispCore

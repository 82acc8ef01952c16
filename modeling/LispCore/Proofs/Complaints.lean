import LispCore.Interpreter
import LispCore.Proofs.Failures
import LispCore.Proofs.Lists

/-!
# Where an evaluation complains

The evaluator refuses to apply what is no function, to bind what is no name and to evaluate what is
no expression, and the message shows the value; a primitive's failure has the message of its cause
in it. Such a text cannot always be written: an integer may be too long, and the objects and the
exceptions of the host may have no text at all. `Machine.blame` says what a run comes to complain
about, outside the code of its primitives, and in which store. A failure of the host leaves an
evaluation exactly if it is the failure to write that text (`Outcome.Blames`). All other failures
that leave an evaluation are the language's own (`Machine.failures_closed`).
-/

namespace LispCore

/-- What a message of the evaluator shows. -/
inductive Complaint
  | notCallable (v : Value)
  | name (form : Keyword) (v : Value)
  | parameterList (v : Value)
  | parameter (v : Value)
  | expression (h : Foreign)
  | cause (primitive : String) (x : Failure)

/-- The complaint that a run comes to and the store at that moment. -/
abbrev Complaint.Trail := Option (Complaint × Store)

/-- The complaints of an evaluator, by expression, frame and position. -/
abbrev Complaint.Trails := Value → FrameRef → Position → Store → Complaint.Trail

open Complaint (Trail Trails)

namespace Complaint

/-- The text in the message. -/
def shown (depth : Nat) (s : Store) : Complaint → Answer String
  | .notCallable v => s.text depth v
  | .name _ v => s.describe depth v
  | .parameterList v => s.describe depth v
  | .parameter v => s.describe depth v
  | .expression h => h.repr.answer
  | .cause _ x => x.text

/-- The failure with a given text in its message. -/
def failure : Complaint → String → Failure
  | .notCallable v, t => .notCallable v t
  | .name form v, t => .malformed (.nameNotSymbol form t) (some v)
  | .parameterList v, t => .malformed (.parameterList t) (some v)
  | .parameter v, t => .malformed (.parameterNotSymbol t) (some v)
  | .expression h, t => .malformed (.notExpression t) (some (.foreign h))
  | .cause primitive x, _ => .primitive primitive x

end Complaint

/-! ## Complaints of a run -/

/-- The complaint of a first part that is not done, and else of what follows it. -/
def Outcome.complaint {α : Type} (o : Outcome α) (here : Trail) (next : α → Store → Trail) :
    Trail :=
  match o with
  | .done a t => next a t
  | _ => here

/-- The first parameter that is no symbol. -/
def Complaint.ofParameters : List Value → Option Complaint
  | [] => none
  | .sym _ :: vs => ofParameters vs
  | v :: _ => some (.parameter v)

/-- What there is to complain about in the operands of a form. -/
def Complaint.ofOperands (s : Store) (depth : Nat) : Keyword → List Value → Option Complaint
  | .define, [.sym _, _] => none
  | .define, [v, _] => some (.name .define v)
  | .assign, [.sym _, _] => none
  | .assign, [v, _] => some (.name .assign v)
  | .lambda, ps :: _ =>
    match ps, s.parameterList depth ps with
    | _, .ok params => ofParameters params
    | .pair _, .error _ => none
    | v, .error _ => some (.parameterList v)
  | _, _ => none

/-- What there is to complain about in a form. -/
def Complaint.ofForm (s : Store) (depth : Nat) (k : Keyword) (rest : Value) : Option Complaint :=
  match s.toList "Special form operands" rest with
  | .ok operands => ofOperands s depth k operands
  | .error _ => none

namespace Evaluator

variable (ev : Evaluator) (below : Trails)

def blameEach (f : FrameRef) : List Value → Store → Trail
  | [], _ => none
  | e :: es, s => (ev.value e f s).complaint (below e f .inner s) fun _ t => blameEach f es t

def blameBody (f : FrameRef) (pos : Position) : List Value → Store → Trail
  | [], _ => none
  | [e], s => below e f pos s
  | e :: es, s => (ev.value e f s).complaint (below e f .inner s) fun _ t => blameBody f pos es t

def blameFinish : (turns : Nat) → Step → Store → Trail
  | _, .value _, _ => none
  | 0, .call .., _ => none
  | n + 1, .call fn f, s =>
    (ev.body f .tail (s.closure fn).body s).complaint
      (ev.blameBody below f .tail (s.closure fn).body s) (blameFinish n)

def blameLoop (f : FrameRef) (test : Value) (body : List Value) : (turns : Nat) → Store → Trail
  | 0, _ => none
  | n + 1, s =>
    (ev.value test f s).complaint (below test f .inner s) fun c t =>
      if c.isTrue then
        (ev.each f body t).complaint (ev.blameEach below f body t) fun _ u =>
          blameLoop f test body n u
      else none

end Evaluator

namespace Machine

variable (m : Machine) (ev : Evaluator) (below : Trails)

/-- The complaint of a primitive that fails is about its failure, once that is in the log. -/
def blamePrimitive (p : Primitive) (args : List Value) (s : Store) : Trail :=
  match m.perform ev (m.library p args) s with
  | .raised .overflow _ => none
  | .raised x t => some (.cause p.name x, t.record (.primitiveRaised p.name x))
  | _ => none

def blameCall (primitive : Primitive → List Value → Store → Trail) (fn : Value)
    (args : List Value) (s : Store) : Trail :=
  match fn with
  | .closure c =>
    (enter c args s).complaint none fun f t => ev.blameFinish below m.turns (.call c f) t
  | .prim p => primitive p args s
  | v => some (.notCallable v, s)

def blameApplyStep (fn : Value) (args : List Value) (pos : Position) (s : Store) : Trail :=
  match pos, fn with
  | .tail, .closure _ => none
  | _, fn => m.blameCall ev below (m.blamePrimitive ev) fn args s

def blameForm (f : FrameRef) (pos : Position) : Form → Store → Trail
  | .define _ e, s => below e f .inner s
  | .assign _ e, s => below e f .inner s
  | .cond c t e, s =>
    (ev.value c f s).complaint (below c f .inner s) fun v u =>
      if v.isTrue then below t f pos u
      else
        match e with
        | some e => below e f pos u
        | none => none
  | .loop c body, s => ev.blameLoop below f c body m.turns s
  | .sequence body, s => ev.blameBody below f pos body s
  | .lambda _, _ => none
  | .quote _, _ => none

def blameWith : Trails := fun e f pos s =>
  match e with
  | .pair r =>
    match Keyword.ofHead? (s.pair r).head with
    | some k =>
      match Form.read s m.depth f k (s.pair r).tail with
      | .ok form => m.blameForm ev below f pos form s
      | .error _ => (Complaint.ofForm s m.depth k (s.pair r).tail).map (·, s)
    | none =>
      match s.toList "Argument list" (s.pair r).tail with
      | .ok operands =>
        (ev.value (s.pair r).head f s).complaint (below (s.pair r).head f .inner s) fun fn t =>
          (ev.values f operands t).complaint (ev.blameEach below f operands t) fun args u =>
            m.blameApplyStep ev below fn args pos u
      | .error _ => none
  | .foreign h => some (.expression h, s)
  | _ => none

/-- The complaints of the evaluator `d` levels above an exhausted stack. -/
def blameAt : (d : Nat) → Trails
  | 0 => fun _ _ _ _ => none
  | d + 1 => m.blameWith (m.evaluator .exhausted d) (blameAt d)

/-- The complaints of its primitives. -/
def blamePrimitiveAt : (d : Nat) → Primitive → List Value → Store → Trail
  | 0 => fun _ _ _ => none
  | d + 1 => m.blamePrimitive (m.evaluator .exhausted d)

/-- The complaint that the evaluation of an expression comes to. -/
def blame (e : Value) (f : FrameRef) (s : Store) : Trail :=
  (m.top.step e f .tail s).complaint (m.blameAt m.limit e f .tail s)
    (m.top.blameFinish (m.blameAt m.limit) m.turns)

/-- The complaint that an application comes to. -/
def blameApply (fn : Value) (args : List Value) (s : Store) : Trail :=
  m.blameCall m.top (m.blameAt m.limit) (m.blamePrimitiveAt m.limit) fn args s

end Machine

/-! ## Complaints and failures -/

namespace Complaint

/-- What stands in the way is what a complaint comes to. Without any it is a malformed expression,
or a search without end in case of a `circle`. -/
def Gives (depth : Nat) (s : Store) (circle : Prop) (o : Obstacle) : Option Complaint → Prop
  | some c => o = .showing (c.shown depth s) c.failure
  | none => (∃ reason v, o = .failure (.malformed reason v)) ∨ circle ∧ o = .endless

variable {depth : Nat} {s : Store} {o : Obstacle} {circle : Prop}

theorem Gives.mono {circle' : Prop} {c : Option Complaint} (h : Gives depth s circle o c)
    (hc : circle → circle') : Gives depth s circle' o c := by
  cases c with
  | none => exact h.imp_right (And.imp_left hc)
  | some c => exact h

theorem gives_toList {what : String} {v : Value} (h : s.toList what v = .error o) :
    Gives depth s (s.Circular v) o none := by
  rcases s.toList_cases what v with ⟨vs, -, heq⟩ | ⟨_, _, -, -, heq⟩ | ⟨hcircular, heq⟩ <;>
    rw [heq] at h <;> cases h
  · exact .inl ⟨_, _, rfl⟩
  · exact .inr ⟨hcircular, rfl⟩

theorem gives_parameters :
    ∀ {vs : List Value}, s.parameters depth vs = .error o →
      Gives depth s circle o (ofParameters vs)
  | [], h => by cases h
  | v :: vs, h => by
    cases v with
    | sym n =>
      simp only [Store.parameters] at h
      split at h
      · cases h
      · rename_i y hy
        cases h
        rw [ofParameters]
        exact gives_parameters hy
    | _ =>
      simp only [Store.parameters, Except.error.injEq] at h
      exact h.symm

theorem ofParameters_eq_none :
    ∀ {vs : List Value} {ns : List Symbol}, s.parameters depth vs = .ok ns → ofParameters vs = none
  | [], ns, _ => rfl
  | v :: vs, ns, h => by
    cases v with
    | sym n =>
      simp only [Store.parameters] at h
      split at h
      · rename_i ms hms
        rw [ofParameters]
        exact ofParameters_eq_none hms
      · cases h
    | _ => simp [Store.parameters] at h

theorem gives_makeClosure {params body : List Value} {env : FrameRef}
    (h : s.makeClosure depth params body env = .error o) :
    Gives depth s circle o (ofParameters params) := by
  simp only [Store.makeClosure] at h
  split at h
  · rename_i ns hns
    split_ifs at h
    cases h
    rw [ofParameters_eq_none hns]
    exact .inl ⟨_, _, rfl⟩
  · rename_i y hy
    cases h
    exact gives_parameters hy

theorem gives_parameterList {ps : Value} {body : List Value}
    (h : s.parameterList depth ps = .error o) :
    Gives depth s (s.Circular ps) o (ofOperands s depth .lambda (ps :: body)) := by
  simp only [ofOperands, h]
  cases ps with
  | pair r => exact gives_toList h
  | vec r => cases h
  | nil => cases h
  | _ =>
    simp only [Store.parameterList, Except.error.injEq] at h
    exact h.symm

theorem gives_ofOperands {env : FrameRef} {k : Keyword} {vs : List Value}
    (h : Form.ofOperands s depth env k vs = .error o) :
    Gives depth s (k = .lambda ∧ ∃ ps ∈ vs.head?, s.Circular ps) o (ofOperands s depth k vs) := by
  revert h
  fun_cases Form.ofOperands s depth env k vs with
  | case2 v e hv | case4 v e hv =>
    intro h
    cases h
    rw [ofOperands]
    · exact rfl
    · exact hv
  | case9 ps body params hp =>
    intro h
    rcases hc : s.makeClosure depth params body env with y | c <;> rw [hc] at h <;> cases h
    simp only [ofOperands, hp]
    exact gives_makeClosure hc
  | case10 ps body y hp =>
    intro h
    cases h
    exact (gives_parameterList hp).mono fun hps => ⟨rfl, ps, rfl, hps⟩
  | case12 =>
    intro h
    cases h
    rw [ofOperands]
    · exact .inl ⟨_, _, rfl⟩
    all_goals assumption
  | _ =>
    intro h
    cases h

/-- The operands of a form, or the parameters that it gives a function, run in a circle. -/
def InCircle (s : Store) (k : Keyword) (rest : Value) : Prop :=
  s.Circular rest
    ∨ k = .lambda ∧ ∃ ps body, s.IsListOf rest (ps :: body) ∧ s.Circular ps

theorem gives_ofForm {env : FrameRef} {k : Keyword} {rest : Value}
    (h : Form.read s depth env k rest = .error o) :
    Gives depth s (InCircle s k rest) o (ofForm s depth k rest) := by
  simp only [Form.read] at h
  simp only [ofForm]
  rcases hl : s.toList "Special form operands" rest with y | vs <;> simp only [hl] at h ⊢
  · cases h
    exact (gives_toList hl).mono .inl
  · refine (gives_ofOperands h).mono fun hlambda => .inr ?_
    obtain ⟨hk, ps, hps, hcircular⟩ := hlambda
    cases vs <;> cases hps
    exact ⟨hk, ps, _, Store.toList_eq_ok_iff.1 hl, hcircular⟩

end Complaint

namespace Outcome

/-- The host's failures come out exactly if the trail ends in a complaint that cannot be shown. -/
def Blames {α : Type} (depth : Nat) (o : Outcome α) (trail : Trail) : Prop :=
  ∀ (k : Fault) (t : Store), o = .raised (.fault k) t ↔
    ∃ c, trail = some (c, t) ∧ c.shown depth t = .error (.failure (.fault k))

variable {α β : Type} {depth : Nat} {s : Store}

theorem blames_none {o : Outcome α} (h : ∀ k t, o ≠ .raised (.fault k) t) : o.Blames depth none :=
  fun k t => ⟨fun ho => absurd ho (h k t), by simp⟩

theorem blames_done (a : α) : (Outcome.done a s).Blames depth none :=
  blames_none fun _ _ => by simp

theorem blames_unfinished : (Outcome.unfinished : Outcome α).Blames depth none :=
  blames_none fun _ _ => by simp

theorem blames_showing (c : Complaint) :
    (.blocked (.showing (c.shown depth s) c.failure) s : Outcome α).Blames depth
      (some (c, s)) := by
  intro k t
  rcases hc : c.shown depth s with (x | _) | text
  · simp only [Obstacle.showing, blocked, raised.injEq, Option.some.injEq, Prod.mk.injEq]
    constructor
    · rintro ⟨rfl, rfl⟩
      exact ⟨c, ⟨rfl, rfl⟩, hc⟩
    · rintro ⟨_, ⟨rfl, rfl⟩, hk⟩
      rw [hc] at hk
      cases hk
      exact ⟨rfl, rfl⟩
  · refine ⟨fun h => ?_, ?_⟩
    · cases h
    · rintro ⟨_, ⟨⟩, hk⟩
      rw [hc] at hk
      cases hk
  · refine ⟨fun h => ?_, ?_⟩
    · cases c <;> cases h
    · rintro ⟨_, ⟨⟩, hk⟩
      rw [hc] at hk
      cases hk

theorem blames_of_gives {circle : Prop} {o : Obstacle} {c : Option Complaint}
    (h : Complaint.Gives depth s circle o c) :
    (.blocked o s : Outcome α).Blames depth (c.map (·, s)) := by
  cases c with
  | none =>
    rcases h with ⟨reason, v, rfl⟩ | ⟨-, rfl⟩
    · exact blames_none fun k t => by simp [blocked]
    · exact blames_unfinished
  | some c =>
    rw [show o = .showing (c.shown depth s) c.failure from h]
    exact blames_showing c

theorem Blames.bind {c : Eval α} {k : α → Eval β} {here : Trail} {next : α → Store → Trail}
    (hc : (c s).Blames depth here) (hk : ∀ a t, (k a t).Blames depth (next a t)) :
    ((c >>= k) s).Blames depth ((c s).complaint here next) := by
  rw [Eval.bind_apply]
  rcases ho : c s with ⟨a, t⟩ | ⟨x, t⟩ | _
  · exact hk a t
  · rw [ho] at hc
    intro f u
    simpa [complaint] using hc f u
  · rw [ho] at hc
    intro f u
    simpa [complaint] using hc f u

/-- What follows and never fails with a failure of the host adds nothing to the trail. -/
theorem Blames.bind_of_ne {c : Eval α} {k : α → Eval β} {here : Trail}
    (hc : (c s).Blames depth here) (hk : ∀ a t f u, k a t ≠ .raised (.fault f) u) :
    ((c >>= k) s).Blames depth here := by
  intro f u
  rw [← hc f u, Eval.bind_apply]
  rcases c s with ⟨a, t⟩ | ⟨x, t⟩ | _
  · simpa using hk a t f u
  · simp
  · simp

theorem Blames.map {c : Eval α} {here : Trail} (hc : (c s).Blames depth here) (g : α → β) :
    ((do let a ← c; pure (g a)) s).Blames depth here :=
  hc.bind_of_ne fun _ _ _ _ => by simp [pure, Eval.pure]

end Outcome

open Outcome (blames_none blames_done blames_unfinished blames_showing blames_of_gives)

/-- An evaluator whose complaints `below` knows. -/
def Evaluator.Blames (depth : Nat) (ev : Evaluator) (below : Trails) : Prop :=
  ∀ e f pos s, (ev.step e f pos s).Blames depth (below e f pos s)

namespace Evaluator.Blames

variable {depth : Nat} {ev : Evaluator} {below : Trails} (h : ev.Blames depth below)

include h

theorem value (e : Value) (f : FrameRef) (s : Store) :
    (ev.value e f s).Blames depth (below e f .inner s) := by
  intro k t
  rw [← h e f .inner s k t]
  simp only [Evaluator.value]
  rcases ev.step e f .inner s with ⟨_ | _, _⟩ | ⟨_, _⟩ | _ <;> simp

theorem values (f : FrameRef) :
    ∀ (es : List Value) (s : Store), (ev.values f es s).Blames depth (ev.blameEach below f es s)
  | [], _ => blames_done _
  | e :: es, s => by
    refine .bind (h.value e f s) fun v t => ?_
    exact (values f es t).map (v :: ·)

theorem each (f : FrameRef) :
    ∀ (es : List Value) (s : Store), (ev.each f es s).Blames depth (ev.blameEach below f es s)
  | [], _ => blames_done _
  | e :: es, s => .bind (h.value e f s) fun _ t => each f es t

theorem body (f : FrameRef) (pos : Position) :
    ∀ (es : List Value) (s : Store),
      (ev.body f pos es s).Blames depth (ev.blameBody below f pos es s)
  | [], _ => blames_done _
  | [e], s => h e f pos s
  | e :: e' :: es, s => .bind (h.value e f s) fun _ t => body f pos (e' :: es) t

theorem finish :
    ∀ (n : Nat) (st : Step) (s : Store),
      (ev.finish n st s).Blames depth (ev.blameFinish below n st s)
  | n, .value v, _ => by
    rw [ev.finish_value]
    cases n <;> exact blames_done v
  | 0, .call c f, _ => blames_unfinished
  | n + 1, .call c f, s => by
    rw [ev.finish_call]
    exact .bind (h.body f .tail _ s) fun st t => finish n st t

theorem loop (f : FrameRef) (test : Value) (forms : List Value) :
    ∀ (n : Nat) (s : Store),
      (ev.loop f test forms n s).Blames depth (ev.blameLoop below f test forms n s)
  | 0, _ => blames_unfinished
  | n + 1, s => by
    rw [ev.loop_succ]
    refine .bind (h.value test f s) fun c t => ?_
    split
    · exact .bind (h.each f forms t) fun _ u => loop f test forms n u
    · exact blames_done Value.nil

end Evaluator.Blames

namespace Machine

variable {m : Machine} {ev : Evaluator} {below : Trails}

theorem enter_blames {depth : Nat} (c : ClosureRef) (args : List Value) (s : Store) :
    (enter c args s).Blames depth none := by
  refine blames_none fun k t => ?_
  simp only [enter]
  split <;> simp

theorem runPrimitive_blames {depth : Nat} (p : Primitive) (args : List Value) (s : Store) :
    (m.runPrimitive ev p args s).Blames depth (m.blamePrimitive ev p args s) := by
  simp only [runPrimitive, blamePrimitive]
  rcases m.perform ev (m.library p args) s with ⟨v, t⟩ | ⟨x, t⟩ | _
  · exact blames_done v
  · have hshowing : (.blocked (.showing x.text fun _ => .primitive p.name x)
        (t.record (.primitiveRaised p.name x)) : Outcome Value).Blames depth
        (some (.cause p.name x, t.record (.primitiveRaised p.name x))) :=
      blames_showing (.cause p.name x)
    cases x with
    | overflow => exact blames_none fun k t => by simp
    | _ => exact hshowing
  · exact blames_unfinished

theorem call_blames (h : ev.Blames m.depth below) {P : Primitive → List Value → Eval Value}
    {trails : Primitive → List Value → Store → Trail} {fn : Value} {args : List Value} {s : Store}
    (hP : ∀ p, (P p args s).Blames m.depth (trails p args s)) :
    (m.call ev P fn args s).Blames m.depth (m.blameCall ev below trails fn args s) := by
  cases fn with
  | closure c => exact .bind (enter_blames c args s) fun f t => h.finish m.turns _ t
  | prim p => exact hP p
  | _ => exact blames_showing (.notCallable _)

theorem applyStep_blames (h : ev.Blames m.depth below) (fn : Value) (args : List Value)
    (pos : Position) (s : Store) :
    (m.applyStep ev fn args pos s).Blames m.depth (m.blameApplyStep ev below fn args pos s) := by
  fun_cases Machine.applyStep m ev fn args pos with
  | case1 c => exact (enter_blames c args s).map (Step.call c)
  | case2 pos fn hne =>
    rw [blameApplyStep]
    · exact (call_blames h fun p => runPrimitive_blames p args s).map Step.value
    · exact hne

theorem formStep_blames (h : ev.Blames m.depth below) (f : FrameRef) (pos : Position) (form : Form)
    (s : Store) :
    (m.formStep ev f pos form s).Blames m.depth (m.blameForm ev below f pos form s) := by
  cases form with
  | define n e =>
    refine .bind_of_ne (h.value e f s) fun v t k u => ?_
    rw [Eval.bind_apply, Store.define_sym]
    simp [pure, Eval.pure]
  | assign n e =>
    refine .bind_of_ne (h.value e f s) fun v t k u => ?_
    rw [Eval.bind_apply, Store.assign_sym]
    rcases t.find? f n with _ | g <;> simp [pure, Eval.pure]
  | cond c t e =>
    refine .bind (h.value c f s) fun v u => ?_
    split
    · exact h t f pos u
    · cases e with
      | none => exact blames_done _
      | some e => exact h e f pos u
  | loop c body => exact (h.loop f c body m.turns s).map Step.value
  | sequence body => exact h.body f pos body s
  | lambda c =>
    refine blames_none fun k t => ?_
    simp [formStep, Eval.update, Bind.bind, Eval.bind, pure, Eval.pure]
  | quote v => exact blames_done _

theorem stepWith_blames (h : ev.Blames m.depth below) :
    (m.above ev).Blames m.depth (m.blameWith ev below) := by
  intro e f pos s
  simp only [above]
  cases e with
  | sym n =>
    simp only [stepWith]
    rcases s.lookup? f n with _ | v
    · exact blames_none fun k t => by
        simp [Store.unbound, Store.display, Obstacle.showing, Outcome.blocked]
    · exact blames_done _
  | pair r =>
    simp only [stepWith, blameWith]
    rcases hk : Keyword.ofHead? (s.pair r).head with _ | k <;> simp only []
    · rcases hl : s.toList "Argument list" (s.pair r).tail with o | operands
      · exact blames_of_gives (Complaint.gives_toList hl)
      · refine .bind (h.value _ f s) fun fn t => ?_
        refine .bind (h.values f operands t) fun args u => ?_
        exact applyStep_blames h fn args pos u
    · rcases hform : Form.read s m.depth f k (s.pair r).tail with o | form
      · exact blames_of_gives (Complaint.gives_ofForm hform)
      · exact formStep_blames h f pos form s
  | foreign o => exact blames_showing (.expression o)
  | _ => exact blames_done _

theorem evaluator_blames (m : Machine) :
    ∀ d : Nat, (m.evaluator .exhausted d).Blames m.depth (m.blameAt d)
  | 0 => fun _ _ _ _ => blames_none fun k t => by simp [evaluator, Evaluator.exhausted, Eval.raise]
  | d + 1 => stepWith_blames (evaluator_blames m d)

theorem primitive_blames {depth : Nat} (m : Machine) (p : Primitive) (args : List Value)
    (s : Store) : ∀ d : Nat,
      ((m.evaluator .exhausted d).primitive p args s).Blames depth (m.blamePrimitiveAt d p args s)
  | 0 => blames_none fun k t => by simp [evaluator, Evaluator.exhausted, Eval.raise]
  | _ + 1 => runPrimitive_blames p args s

theorem guarded_blames {α : Type} {limit depth : Nat} {c : Eval α} {s : Store} {trail : Trail}
    (h : (c s).Blames depth trail) : (Eval.guarded limit c s).Blames depth trail := by
  intro k t
  rw [← h k t]
  simp only [Eval.guarded]
  split
  · rename_i hs
    simp [hs]
  · rfl

theorem evaluate_blames (m : Machine) (e : Value) (f : FrameRef) (s : Store) :
    (m.evaluate e f s).Blames m.depth (m.blame e f s) := by
  have htop := m.evaluator_blames m.limit
  exact guarded_blames (.bind (htop e f .tail s) fun st t => htop.finish m.turns st t)

theorem apply_blames (m : Machine) (fn : Value) (args : List Value) (s : Store) :
    (m.apply fn args s).Blames m.depth (m.blameApply fn args s) :=
  guarded_blames (call_blames (m.evaluator_blames m.limit) fun p => m.primitive_blames p args s _)

end Machine

namespace Outcome

/-- Only the language's own failures come out, but for those of the host, each of which comes out
exactly if the trail ends in a complaint that cannot be shown because of it. -/
structure Closed (depth : Nat) (o : Outcome Value) (trail : Trail) : Prop where
  own : ∀ {x : Failure} {t : Store}, o = .raised x t →
    x.isEvaluation = true ∧ x.kind ∈ Failure.ownKinds ∨ ∃ k, x = .fault k
  escape : ∀ (k : Fault) (t : Store), o = .raised (.fault k) t ↔
    ∃ c, trail = some (c, t) ∧ c.shown depth t = .error (.failure (.fault k))

/-- The causes of a failure end in what is neither a primitive's failure nor an exhausted stack, and
the message of one of the language's own failures says which primitives lie before that. -/
def Rooted (o : Outcome Value) : Prop :=
  ∀ {x : Failure} {t : Store}, o = .raised x t →
    (∀ name cause, x.root ≠ .primitive name cause) ∧ x.root ≠ .overflow
      ∧ (x.isEvaluation = true → ∃ text, x.root.text = .ok text
        ∧ x.text = .ok ((x.layers.map Failure.layerText).foldr (· ++ ·) text))

theorem Closed.of_blames {depth : Nat} {o : Outcome Value} {trail : Trail}
    (hne : ∀ t, o ≠ .raised .overflow t) (hb : o.Blames depth trail) : o.Closed depth trail where
  own {x t} ho := by
    cases x with
    | fault k => exact .inr ⟨k, rfl⟩
    | overflow => exact absurd ho (hne t)
    | _ => exact .inl ⟨rfl, Failure.kind_mem_ownKinds rfl⟩
  escape := hb

end Outcome

/-- The message of a failure, where there is one, has the message of its root in it. -/
theorem Failure.text_of_root {x : Failure} {message : String} (h : x.text = .ok message) :
    ∃ text, x.root.text = .ok text
      ∧ x.text = .ok ((x.layers.map layerText).foldr (· ++ ·) text) := by
  rw [x.text_eq] at h ⊢
  rcases hroot : x.root.text with o | text <;> rw [hroot] at h
  · cases h
  · exact ⟨text, rfl, rfl⟩

namespace Machine

theorem rooted_of_ends {s : Store} {A B : Store → Value → Prop} {o : Outcome Value}
    (hlayered : Simulation.layered.Ends s A Simulation.layered.failure o o)
    (hworded : Simulation.identity.Ends s B Simulation.identity.failure o o)
    (hne : ∀ t, o ≠ .raised .overflow t) : o.Rooted := by
  intro x t ho
  subst ho
  rcases hlayered with _ | _ | ⟨-, -, hx⟩
  rcases hworded with _ | _ | ⟨-, -, hw⟩
  refine ⟨fun name cause => Failure.root_ne_primitive name cause x, ?_, fun hown => ?_⟩
  · exact hx.resolve_left fun hx => hne t (hx ▸ rfl)
  · obtain ⟨message, hmessage⟩ := hw hown
    exact Failure.text_of_root hmessage

/-- Whatever the primitives do, the failures that leave an evaluation or an application are the
language's own, but for texts that cannot be written; and no exhausted stack is at the root of one,
unless a primitive made that up. -/
theorem failures_closed (m : Machine) (e : Value) (f : FrameRef) (fn : Value) (args : List Value)
    (s : Store) :
    (m.evaluate e f s).Closed m.depth (m.blame e f s)
      ∧ (m.apply fn args s).Closed m.depth (m.blameApply fn args s)
      ∧ (m.library.Honest → (m.evaluate e f s).Rooted ∧ (m.apply fn args s).Rooted) := by
  have hm := Simulation.identity_machines m m.turns.le_refl
  have hevaluate (t : Store) : m.evaluate e f s ≠ .raised .overflow t := Eval.guarded_ne_overflow
  have happly (t : Store) : m.apply fn args s ≠ .raised .overflow t := Eval.guarded_ne_overflow
  refine ⟨?_, ?_, fun hl => ⟨?_, ?_⟩⟩
  · exact .of_blames hevaluate (m.evaluate_blames e f s)
  · exact .of_blames happly (m.apply_blames fn args s)
  · exact rooted_of_ends (hl.machines.evaluate rfl trivial trivial)
      (hm.evaluate rfl trivial trivial) hevaluate
  · exact rooted_of_ends (hl.machines.apply rfl trivial fun _ _ => trivial)
      (hm.apply rfl trivial fun _ _ => trivial) happly

/-- The first integer that is too long to be written. -/
def unwritable : Value := .int (Nat.pow 10 Decimal.digitLimit)

theorem shown_unwritable (s : Store) (depth : Nat) :
    s.text depth unwritable = .error (.failure (.fault .integerTooLong))
      ∧ s.describe depth unwritable = .error (.failure (.fault .integerTooLong)) :=
  ⟨Store.text_unwritable Decimal.le_natAbs_pow, Store.describe_unwritable Decimal.le_natAbs_pow⟩

/-- An exception of the host that is about such an integer. -/
def unspeakable : Fault := .other "ValueError" (.fault .integerTooLong) (.fault .integerTooLong)

/-- A machine whose primitives all raise it. -/
def mute : Machine := { standard 0 with library := fun _ _ => .raise (.fault unspeakable) }

theorem failures_closed_unwritable :
    (standard 0).library.Honest
      ∧ (standard 0).apply unwritable [] {} = .raised (.fault .integerTooLong) {}
      ∧ ((standard 0).apply unwritable [] {}).Rooted
      ∧ mute.apply (.prim ⟨0, "p", .unit⟩) [] {} = .raised (.fault .integerTooLong)
        (({} : Store).record (.primitiveRaised "p" (.fault unspeakable))) := by
  have hshown := (shown_unwritable {} (standard 0).depth).1
  have hclosed := failures_closed (standard 0) .nil 0 unwritable [] {}
  have hmute := failures_closed mute .nil 0 (.prim ⟨0, "p", .unit⟩) [] {}
  have hhonest : (standard 0).library.Honest := Library.standard_honest _ _
  exact ⟨hhonest, (hclosed.2.1.escape _ _).2 ⟨.notCallable unwritable, rfl, hshown⟩,
    (hclosed.2.2 hhonest).2,
    (hmute.2.1.escape _ _).2 ⟨.cause "p" (.fault unspeakable), rfl, rfl⟩⟩

end Machine

end LispCore

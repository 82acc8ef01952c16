import LispCore.Proofs.Changes
import LispCore.Proofs.Complaints
import LispCore.Proofs.Lists
import LispCore.Proofs.TailCalls
import Mathlib.Logic.Relation

/-!
# The shapes of special forms

`Keyword.Accepts` says which operands a keyword takes, without any evaluator. A form is read exactly
if its operands make a list that the keyword accepts (`Form.read_eq_ok_iff`). Nothing is done of any
other form. It is refused as a malformed expression, unless the value that the message shows has no
text; where its operands or parameters run in a circle the search for their end goes on without one.
A form that was read has no failures of its own but one: an assignment to a name that is bound
nowhere (`Machine.forms_follow_shapes`).
-/

namespace LispCore

namespace Store

/-- A value lists the given parameters: it is a list or a vector of them, all different. -/
def ListsParameters (s : Store) (v : Value) (ns : List Symbol) : Prop :=
  ns.Nodup
    ∧ (s.IsListOf v (ns.map .sym) ∨ ∃ r, v = .vec r ∧ (s.vec r).toList = ns.map .sym)

variable {s : Store} {depth : Nat} {vs body : List Value} {ns : List Symbol} {env : FrameRef}

theorem parameters_eq_ok_iff :
    ∀ {vs : List Value} {ns : List Symbol}, s.parameters depth vs = .ok ns ↔ vs = ns.map .sym
  | [], ns => by
    cases ns <;> simp [parameters]
  | v :: vs, ns => by
    cases v with
    | sym n =>
      simp only [parameters]
      rcases hvs : s.parameters depth vs with x | ms
      · have hne (ms : List Symbol) : vs ≠ ms.map .sym := fun h => by
          rw [parameters_eq_ok_iff.2 h] at hvs
          cases hvs
        cases ns with
        | nil => simp
        | cons m ns => simp [hne ns]
      · rw [parameters_eq_ok_iff.1 hvs]
        have hinj : Function.Injective Value.sym := fun _ _ h => Value.sym.inj h
        cases ns with
        | nil => simp
        | cons m ns => simp [List.map_inj_right hinj]
    | _ => cases ns <;> simp [parameters]

theorem makeClosure_eq_ok_iff {c : Closure} :
    s.makeClosure depth vs body env = .ok c ↔
      ∃ ns : List Symbol, vs = ns.map .sym ∧ ns.Nodup ∧ c = ⟨ns, body, env⟩ := by
  simp only [makeClosure]
  constructor
  · intro h
    split at h
    · rename_i ns hns
      split_ifs at h with hnodup
      cases h
      exact ⟨ns, parameters_eq_ok_iff.1 hns, hnodup, rfl⟩
    · cases h
  · rintro ⟨ns, hvs, hnodup, rfl⟩
    rw [parameters_eq_ok_iff.2 hvs]
    exact if_pos hnodup

theorem parameterList_eq_ok_iff {v : Value} :
    s.parameterList depth v = .ok vs ↔
      s.IsListOf v vs ∨ ∃ r, v = .vec r ∧ (s.vec r).toList = vs := by
  cases v with
  | pair r => simp [parameterList, toList_eq_ok_iff]
  | vec r =>
    have hvec : ¬s.IsListOf (.vec r) vs := fun h => by cases h
    simp [parameterList, hvec]
  | nil =>
    have hnil : s.IsListOf .nil vs ↔ [] = vs := ⟨fun h => by cases h; rfl, fun h => h ▸ .nil⟩
    simp [parameterList, hnil]
  | _ =>
    simp only [parameterList, reduceCtorEq, false_and, exists_false, or_false, false_iff]
    intro h
    cases h

/-- What `fn` makes of its operands. -/
theorem ofOperands_lambda {v : Value} (h : s.ListsParameters v ns) :
    Form.ofOperands s depth env .lambda (v :: body) = .ok (.lambda ⟨ns, body, env⟩) := by
  have hclosure : s.makeClosure depth (ns.map .sym) body env = .ok ⟨ns, body, env⟩ :=
    makeClosure_eq_ok_iff.2 ⟨ns, rfl, h.1, rfl⟩
  simp only [Form.ofOperands, parameterList_eq_ok_iff.2 h.2, hclosure]
  rfl

end Store

/-- The operands that a keyword takes. -/
def Keyword.Accepts (s : Store) : Keyword → List Value → Prop
  | .define, vs => ∃ n e, vs = [.sym n, e]
  | .assign, vs => ∃ n e, vs = [.sym n, e]
  | .cond, vs => vs.length = 2 ∨ vs.length = 3
  | .loop, vs => 1 ≤ vs.length
  | .sequence, _ => True
  | .lambda, vs => ∃ ps body ns, vs = ps :: body ∧ s.ListsParameters ps ns
  | .quote, vs => vs.length = 1

/-- The rest of a form is a list of operands that its keyword takes. -/
def Store.WellShaped (s : Store) (k : Keyword) (rest : Value) : Prop :=
  ∃ operands, s.IsListOf rest operands ∧ k.Accepts s operands

namespace Form

variable {s : Store} {depth : Nat} {env : FrameRef} {k : Keyword}

theorem accepts_of_ofOperands {vs : List Value} {form : Form}
    (h : ofOperands s depth env k vs = .ok form) : k.Accepts s vs := by
  revert h
  fun_cases ofOperands s depth env k vs with
  | case1 n e | case3 n e => exact fun _ => ⟨n, e, rfl⟩
  | case5 c t => exact fun _ => .inl rfl
  | case6 c t e => exact fun _ => .inr rfl
  | case7 c body => exact fun _ => Nat.succ_pos _
  | case8 => exact fun _ => trivial
  | case9 ps body params hparams =>
    intro h
    rcases hc : s.makeClosure depth params body env with y | c <;> rw [hc] at h <;> cases h
    obtain ⟨ns, rfl, hnodup, -⟩ := Store.makeClosure_eq_ok_iff.1 hc
    exact ⟨ps, body, ns, rfl, hnodup, Store.parameterList_eq_ok_iff.1 hparams⟩
  | case11 v => exact fun _ => rfl
  | _ =>
    intro hform
    cases hform

theorem ofOperands_of_accepts (depth : Nat) (env : FrameRef) {vs : List Value}
    (h : k.Accepts s vs) : ∃ form, ofOperands s depth env k vs = .ok form := by
  cases k with
  | define | assign =>
    obtain ⟨n, e, rfl⟩ := h
    exact ⟨_, rfl⟩
  | cond =>
    rcases h with h | h
    · obtain ⟨c, t, rfl⟩ := List.length_eq_two.1 h
      exact ⟨_, rfl⟩
    · obtain ⟨c, t, e, rfl⟩ := List.length_eq_three.1 h
      exact ⟨_, rfl⟩
  | loop =>
    obtain ⟨c, body, rfl⟩ := List.exists_cons_of_length_pos h
    exact ⟨_, rfl⟩
  | sequence => exact ⟨_, rfl⟩
  | lambda =>
    obtain ⟨ps, body, ns, rfl, hps⟩ := h
    exact ⟨_, Store.ofOperands_lambda hps⟩
  | quote =>
    obtain ⟨v, rfl⟩ := List.length_eq_one_iff.1 h
    exact ⟨_, rfl⟩

theorem read_eq_ok_iff {rest : Value} {form : Form} :
    read s depth env k rest = .ok form ↔
      ∃ operands, s.IsListOf rest operands ∧ ofOperands s depth env k operands = .ok form := by
  simp only [read]
  constructor
  · intro h
    split at h
    · rename_i operands hl
      exact ⟨operands, Store.toList_eq_ok_iff.1 hl, h⟩
    · cases h
  · rintro ⟨operands, hl, hform⟩
    rw [Store.toList_eq_ok_iff.2 hl]
    exact hform

theorem wellShaped_iff (depth : Nat) (env : FrameRef) {rest : Value} :
    s.WellShaped k rest ↔ ∃ form, read s depth env k rest = .ok form := by
  constructor
  · rintro ⟨operands, hl, haccepts⟩
    obtain ⟨form, hform⟩ := ofOperands_of_accepts depth env haccepts
    exact ⟨form, read_eq_ok_iff.2 ⟨operands, hl, hform⟩⟩
  · rintro ⟨form, h⟩
    obtain ⟨operands, hl, hform⟩ := read_eq_ok_iff.1 h
    exact ⟨operands, hl, accepts_of_ofOperands hform⟩

end Form

/-! ## Refusals -/

namespace Complaint

variable {s : Store} {depth : Nat} {c : Complaint} {k : Keyword} {rest : Value}

theorem ofParameters_failure (t : String) :
    ∀ {vs : List Value}, ofParameters vs = some c → ∃ reason v, c.failure t = .malformed reason v
  | [], h => by cases h
  | v :: vs, h => by
    cases v <;> simp only [ofParameters, Option.some.injEq] at h
    case sym n => exact ofParameters_failure t h
    all_goals
      subst h
      exact ⟨_, _, rfl⟩

/-- A form is refused as a malformed expression. -/
theorem ofForm_failure (h : ofForm s depth k rest = some c) (t : String) :
    ∃ reason v, c.failure t = .malformed reason v := by
  simp only [ofForm] at h
  split at h
  · rename_i operands _
    revert h
    fun_cases ofOperands s depth k operands with
    | case2 v | case4 v =>
      intro h
      cases h
      exact ⟨_, _, rfl⟩
    | case6 _ r y hr =>
      intro h
      simp only [hr] at h
      cases h
    | case5 | case7 =>
      intro h
      split at h
      · exact ofParameters_failure t h
      · cases h
      · cases h
        exact ⟨_, _, rfl⟩
    | _ =>
      intro h
      cases h
  · cases h

theorem shown_error {x : Failure} (h : c.shown depth s = .error (.failure x)) : x.IsUnshown := by
  cases c with
  | notCallable v => exact Store.textIn_error h
  | expression o => exact Failure.isUnshown_of_answer h
  | cause p x => exact Failure.isUnshown_of_text h
  | _ => exact Store.describe_error h

theorem InCircle.read_eq {env : FrameRef} (h : InCircle s k rest) :
    Form.read s depth env k rest = .error .endless := by
  rcases h with hrest | ⟨rfl, ps, body, hl, hps⟩
  · rw [Form.read, hrest.toList]
  · have hparams : s.parameterList depth ps = .error .endless := by
      obtain ⟨r, rfl, -⟩ := hps.exists_pair
      exact hps.toList "Parameter list"
    rw [Form.read, Store.toList_eq_ok_iff.2 hl]
    simp only [Form.ofOperands, hparams]

end Complaint

/-- What stands in the way of a form that is not well shaped. It is a malformed expression, unless
there is a circle to go round in or a value to be shown that has no text. -/
structure Store.Refuses (s : Store) (depth : Nat) (k : Keyword) (rest : Value) (o : Obstacle) :
    Prop where
  malformed : ¬Complaint.InCircle s k rest →
    (∀ c, Complaint.ofForm s depth k rest = some c → ∃ t, c.shown depth s = .ok t) →
    ∃ reason v, o = .failure (.malformed reason v)
  circular : Complaint.InCircle s k rest → o = .endless
  unshown : ∀ c y, Complaint.ofForm s depth k rest = some c → c.shown depth s = .error y →
    o = y ∧ ∀ x, y = .failure x → x.IsUnshown

theorem Form.refuses_of_read {s : Store} {depth : Nat} {env : FrameRef} {k : Keyword}
    {rest : Value} {o : Obstacle} (h : read s depth env k rest = .error o) :
    s.Refuses depth k rest o := by
  have hgives := Complaint.gives_ofForm h
  refine ⟨fun hcircle hshown => ?_, fun hcircle => ?_, fun c y hc hy => ?_⟩
  · rcases hc : Complaint.ofForm s depth k rest with _ | c <;> rw [hc] at hgives
    · exact hgives.resolve_right fun hendless => hcircle hendless.1
    · obtain ⟨t, ht⟩ := hshown c hc
      obtain ⟨reason, v, hfailure⟩ := Complaint.ofForm_failure hc t
      refine ⟨reason, v, ?_⟩
      rw [show o = .showing (c.shown depth s) c.failure from hgives, ht, ← hfailure]
      rfl
  · rw [hcircle.read_eq] at h
    exact (Except.error.inj h).symm
  · rw [hc] at hgives
    rw [show o = .showing (c.shown depth s) c.failure from hgives, hy]
    refine ⟨rfl, fun x hx => ?_⟩
    subst hx
    exact Complaint.shown_error hy

/-! ## Failures of forms that are read -/

namespace Evaluator

/-- One of some expressions gets its value. -/
def Passes (ev : Evaluator) (f : FrameRef) (es : List Value) (s t : Store) : Prop :=
  ∃ e ∈ es, ∃ v, ev.value e f s = .done v t

/-- One of some expressions fails, after others got their values. -/
def FailsIn (ev : Evaluator) (f : FrameRef) (es : List Value) (s : Store) (x : Failure)
    (t : Store) : Prop :=
  ∃ u, Relation.ReflTransGen (ev.Passes f es) s u ∧ ∃ e ∈ es, ∃ pos, ev.step e f pos u = .raised x t

variable {ev : Evaluator} {f : FrameRef} {es all : List Value} {s t : Store} {x : Failure}

theorem FailsIn.after {u : Store} (hu : Relation.ReflTransGen (ev.Passes f all) s u)
    (h : ev.FailsIn f all u x t) : ev.FailsIn f all s x t := by
  obtain ⟨w, hw, hfails⟩ := h
  exact ⟨w, hu.trans hw, hfails⟩

theorem FailsIn.of_step {e : Value} {pos : Position} (he : e ∈ all)
    (h : ev.step e f pos s = .raised x t) : ev.FailsIn f all s x t := ⟨s, .refl, e, he, pos, h⟩

theorem FailsIn.of_value {e : Value} (he : e ∈ all) (h : ev.value e f s = .raised x t) :
    ev.FailsIn f all s x t := by
  simp only [value] at h
  split at h <;> cases h
  exact .of_step he ‹_›

theorem Passes.of_value {e v : Value} (he : e ∈ all) (h : ev.value e f s = .done v t) :
    Relation.ReflTransGen (ev.Passes f all) s t := .single ⟨e, he, v, h⟩

/-- What follows an expression fails in one of the expressions, or that one does. -/
theorem FailsIn.of_bind {α : Type} {e : Value} {k : Value → Eval α} (he : e ∈ all)
    (h : (ev.value e f >>= k) s = .raised x t)
    (hk : ∀ v u, k v u = .raised x t → ev.FailsIn f all u x t) : ev.FailsIn f all s x t := by
  rw [Eval.bind_apply] at h
  rcases hv : ev.value e f s with ⟨v, u⟩ | ⟨y, u⟩ | _ <;> rw [hv] at h
  · exact .after (Passes.of_value he hv) (hk v u h)
  · cases h
    exact .of_value he hv
  · cases h

theorem body_failsIn (pos : Position) :
    ∀ {es : List Value} {s : Store}, es ⊆ all → ev.body f pos es s = .raised x t →
      ev.FailsIn f all s x t
  | [], s, _, h => by cases h
  | [e], s, hes, h => .of_step (hes List.mem_cons_self) h
  | e :: e' :: es, s, hes, h =>
    .of_bind (hes List.mem_cons_self) h fun _ _ hrest =>
      body_failsIn pos (fun _ hmem => hes (List.mem_cons_of_mem e hmem)) hrest

theorem each_failsIn :
    ∀ {es : List Value} {s : Store}, es ⊆ all → ev.each f es s = .raised x t →
      ev.FailsIn f all s x t
  | [], s, _, h => by cases h
  | e :: es, s, hes, h =>
    .of_bind (hes List.mem_cons_self) h fun _ _ hrest =>
      each_failsIn (fun _ hmem => hes (List.mem_cons_of_mem e hmem)) hrest

theorem each_passes :
    ∀ {es : List Value} {s : Store}, es ⊆ all → ev.each f es s = .done () t →
      Relation.ReflTransGen (ev.Passes f all) s t
  | [], s, _, h => by
    cases h
    exact .refl
  | e :: es, s, hes, h => by
    rw [each, Eval.bind_apply] at h
    rcases hv : ev.value e f s with ⟨v, u⟩ | _ | _ <;> rw [hv] at h <;>
      simp only [reduceCtorEq] at h
    exact (Passes.of_value (hes List.mem_cons_self) hv).trans
      (each_passes (fun _ hmem => hes (List.mem_cons_of_mem e hmem)) h)

theorem loop_failsIn {c : Value} {body : List Value} :
    ∀ {n : Nat} {s : Store}, ev.loop f c body n s = .raised x t →
      ev.FailsIn f (c :: body) s x t
  | 0, s, h => by cases h
  | n + 1, s, h => by
    rw [loop_succ] at h
    refine .of_bind List.mem_cons_self h fun v u hrest => ?_
    have hbody : body ⊆ c :: body := List.subset_cons_self c body
    split at hrest
    · rw [Eval.bind_apply] at hrest
      rcases he : ev.each f body u with ⟨_, w⟩ | ⟨y, w⟩ | _ <;> rw [he] at hrest
      · exact .after (each_passes hbody he) (loop_failsIn hrest)
      · cases hrest
        exact each_failsIn hbody he
      · cases hrest
    · cases hrest

end Evaluator

namespace Machine

variable {m : Machine} {ev : Evaluator} {f : FrameRef} {pos : Position} {s t : Store} {x : Failure}

/-- A bind that ends in a value fails where its first part does. -/
theorem raised_of_bind_pure {α β : Type} {c : Eval α} {g : α → β}
    (h : (do let a ← c; pure (g a)) s = .raised x t) : c s = .raised x t := by
  rw [Eval.bind_apply] at h
  rcases hc : c s with _ | _ | _ <;> rw [hc] at h <;> cases h
  rfl

/-- An assignment fails after its value is known, at a name that is bound nowhere. -/
def FailsToAssign (ev : Evaluator) (f : FrameRef) (operands : List Value) (s : Store)
    (x : Failure) (t : Store) : Prop :=
  ∃ n e v, operands = [.sym n, e] ∧ ev.value e f s = .done v t ∧ t.find? f n = none
    ∧ x = .unbound (.sym n) n.name

theorem assign_raised {n : Symbol} {e : Value}
    (h : m.formStep ev f pos (.assign n e) s = .raised x t) :
    ev.FailsIn f [.sym n, e] s x t ∨ FailsToAssign ev f [.sym n, e] s x t := by
  rw [formStep, Eval.bind_apply] at h
  rcases hv : ev.value e f s with ⟨v, u⟩ | ⟨y, u⟩ | _ <;> rw [hv] at h
  · simp only [Eval.bind_apply, Store.assign_sym] at h
    rcases hfind : u.find? f n with _ | g <;> rw [hfind] at h <;> cases h
    exact .inr ⟨n, e, v, rfl, hv, hfind, rfl⟩
  · cases h
    exact .inl (.of_value (by simp) hv)
  · cases h

theorem cond_raised {c e : Value} {alternative : Option Value}
    (h : m.formStep ev f pos (.cond c e alternative) s = .raised x t) :
    ev.FailsIn f (c :: e :: alternative.toList) s x t := by
  refine .of_bind List.mem_cons_self h fun v u hrest => ?_
  split at hrest
  · exact .of_step (by simp) hrest
  · cases alternative with
    | none => cases hrest
    | some e' => exact .of_step (by simp) hrest

/-- A form that is read fails in one of its operands, but for an assignment. -/
theorem formStep_raised {k : Keyword} {operands : List Value} {form : Form}
    (hform : Form.ofOperands s m.depth f k operands = .ok form)
    (h : m.formStep ev f pos form s = .raised x t) :
    ev.FailsIn f operands s x t ∨ k = .assign ∧ FailsToAssign ev f operands s x t := by
  revert hform
  fun_cases Form.ofOperands s m.depth f k operands with
  | case1 n e =>
    rintro ⟨⟩
    refine .inl (.of_bind (by simp) h fun v u hrest => ?_)
    cases hrest
  | case3 n e =>
    rintro ⟨⟩
    exact (assign_raised h).imp_right fun hset => ⟨rfl, hset⟩
  | case5 c e =>
    rintro ⟨⟩
    exact .inl (cond_raised h)
  | case6 c e e' =>
    rintro ⟨⟩
    exact .inl (cond_raised h)
  | case7 c body =>
    rintro ⟨⟩
    exact .inl (Evaluator.loop_failsIn (raised_of_bind_pure h))
  | case8 =>
    rintro ⟨⟩
    exact .inl (Evaluator.body_failsIn pos (List.Subset.refl _) h)
  | case9 ps body params hparams =>
    intro hform
    rcases hc : s.makeClosure m.depth params body f with y | c <;> rw [hc] at hform <;>
      cases hform
    cases h
  | case11 v =>
    rintro ⟨⟩
    cases h
  | _ =>
    intro hform
    cases hform

theorem stepWith_read (m : Machine) (ev : Evaluator) (f : FrameRef) (pos : Position) {r : PairRef}
    {k : Keyword} (hk : Keyword.ofHead? (s.pair r).head = some k) :
    m.stepWith ev (.pair r) f pos s = match Form.read s m.depth f k (s.pair r).tail with
      | .ok form => m.formStep ev f pos form s
      | .error o => .blocked o s := by
  rcases hread : Form.read s m.depth f k (s.pair r).tail with o | form <;>
    simp only [stepWith, hk, hread]

/-- What a form comes to whose keyword takes its operands, as these are evaluated with `ev`. -/
structure FollowsShape (ev : Evaluator) (f : FrameRef) (k : Keyword) (operands : List Value)
    (s : Store) (o : Outcome Step) : Prop where
  quote : ∀ v, k = .quote → operands = [v] → o = .done (.value v) s
  lambda : ∀ ps body ns, k = .lambda → operands = ps :: body → s.ListsParameters ps ns →
    ∃ c t, o = .done (.value (.closure c)) t ∧ s.addClosure ⟨ns, body, f⟩ = (c, t)
      ∧ t.closure c = ⟨ns, body, f⟩
  raised : ∀ x t, o = .raised x t →
    ev.FailsIn f operands s x t ∨ k = .assign ∧ FailsToAssign ev f operands s x t

theorem followsShape_formStep {k : Keyword} {operands : List Value} {form : Form}
    (hform : Form.ofOperands s m.depth f k operands = .ok form) :
    FollowsShape ev f k operands s (m.formStep ev f pos form s) where
  quote := by
    rintro v rfl rfl
    cases hform
    rfl
  lambda := by
    rintro ps body ns rfl rfl hps
    cases (Store.ofOperands_lambda hps).symm.trans hform
    exact ⟨_, _, rfl, rfl, (s.closure_addClosure _ _).trans (if_pos rfl)⟩
  raised x t h := formStep_raised hform h

/-- At every level of the evaluator and in both positions, nothing is done of a form that is not
well shaped: it is refused, or the search for the end of a circle goes on without one. One that is
well shaped fails only where its operands do, or at an assignment to a name that is bound nowhere;
`quote` and `fn` never fail. -/
theorem forms_follow_shapes (m : Machine) (floor : Evaluator) (d : Nat) {s : Store} {r : PairRef}
    {k : Keyword} (hk : Keyword.ofHead? (s.pair r).head = some k) (f : FrameRef) (pos : Position) :
    (¬s.WellShaped k (s.pair r).tail →
      ∃ o, (m.evaluator floor (d + 1)).step (.pair r) f pos s = .blocked o s
        ∧ s.Refuses m.depth k (s.pair r).tail o)
    ∧ ∀ operands, s.IsListOf (s.pair r).tail operands → k.Accepts s operands →
      FollowsShape (m.evaluator floor d) f k operands s
        ((m.evaluator floor (d + 1)).step (.pair r) f pos s) := by
  have hstep := m.stepWith_read (m.evaluator floor d) f pos hk
  simp only [evaluator, above]
  refine ⟨fun hshape => ?_, fun operands hl haccepts => ?_⟩
  · rcases hread : Form.read s m.depth f k (s.pair r).tail with o | form
    · rw [hread] at hstep
      exact ⟨o, hstep, Form.refuses_of_read hread⟩
    · exact absurd ((Form.wellShaped_iff m.depth f).2 ⟨form, hread⟩) hshape
  · obtain ⟨form, hform⟩ := Form.ofOperands_of_accepts m.depth f haccepts
    rw [Form.read_eq_ok_iff.2 ⟨operands, hl, hform⟩] at hstep
    rw [hstep]
    exact followsShape_formStep hform

/-- The forms `(def i 1)`, where `i` is an integer too long to be written, `(fn [a b] a)`, and a
`fn` whose parameters run in a circle. -/
def misnamed : Store where
  pairs := #[⟨.symbol "def", .pair 1⟩, ⟨unwritable, .pair 2⟩, ⟨.int 1, .nil⟩,
    ⟨.symbol "fn", .pair 4⟩, ⟨.vec 0, .pair 5⟩, ⟨.symbol "a", .nil⟩,
    ⟨.symbol "fn", .pair 7⟩, ⟨.pair 8, .nil⟩, ⟨.symbol "a", .pair 8⟩]
  vecs := #[#[.symbol "a", .symbol "b"]]
  frames := #[.empty none]

/-- The first is refused with the failure to show the integer, the second makes a function, and the
third is read without an end. -/
theorem forms_follow_shapes_misnamed :
    (bare.evaluator .exhausted 1).step (.pair 0) 0 .tail misnamed
        = .raised (.fault .integerTooLong) misnamed
      ∧ (∃ c t, (bare.evaluator .exhausted 1).step (.pair 3) 0 .tail misnamed
          = .done (.value (.closure c)) t
        ∧ t.closure c = ⟨[⟨"a"⟩, ⟨"b"⟩], [.symbol "a"], 0⟩)
      ∧ (bare.evaluator .exhausted 1).step (.pair 6) 0 .tail misnamed = .unfinished := by
  have hshown := (shown_unwritable misnamed bare.depth).2
  have hshape : ¬misnamed.WellShaped .define (.pair 1) := by
    rw [Form.wellShaped_iff bare.depth 0]
    rintro ⟨form, hread⟩
    cases hread
  have hcircle : Complaint.InCircle misnamed .lambda (.pair 7) :=
    .inr ⟨rfl, .pair 8, [], .cons .nil, .of_tail rfl⟩
  have hshape' : ¬misnamed.WellShaped .lambda (.pair 7) := by
    rw [Form.wellShaped_iff bare.depth 0, hcircle.read_eq]
    exact fun ⟨_, h⟩ => nomatch h
  refine ⟨?_, ?_, ?_⟩
  · obtain ⟨o, ho, hrefuses⟩ :=
      (bare.forms_follow_shapes .exhausted 0 (s := misnamed) (r := 0) rfl 0 .tail).1 hshape
    rw [ho, (hrefuses.unshown (.name .define unwritable) _ rfl hshown).1]
    rfl
  · have hfollows := (bare.forms_follow_shapes .exhausted 0 (s := misnamed) (r := 3) rfl 0 .tail).2
      [.vec 0, .symbol "a"] (.cons (.cons .nil))
      ⟨.vec 0, [.symbol "a"], [⟨"a"⟩, ⟨"b"⟩], rfl, by decide, .inr ⟨0, rfl, rfl⟩⟩
    obtain ⟨c, t, hstep, -, hc⟩ := hfollows.lambda (.vec 0) [.symbol "a"] [⟨"a"⟩, ⟨"b"⟩] rfl rfl
      ⟨by decide, .inr ⟨0, rfl, rfl⟩⟩
    exact ⟨c, t, hstep, hc⟩
  · obtain ⟨o, ho, hrefuses⟩ :=
      (bare.forms_follow_shapes .exhausted 0 (s := misnamed) (r := 6) rfl 0 .tail).1 hshape'
    rw [ho, hrefuses.circular hcircle]
    rfl

end Machine

end LispCore

import LispCore.Proofs.Host
import LispCore.Proofs.Names
import LispCore.Proofs.Shapes

/-!
# The frame of a call that is left over

A step in tail position may leave a call over. `Machine.ComesToCall` says how it gets there: the
expression is the application of a function, or a form whose value is that of one of its parts, and
that part comes to the call. Before that anything may have happened to the store. The frame of the
call is made last of all, so nothing refers to it; it binds the parameters to the values of the
operands and is otherwise the frame that the function was made in (`Host.leftover_call_frame`).
-/

namespace LispCore

theorem Evaluator.body_concat (ev : Evaluator) (f : FrameRef) (pos : Position) (e : Value) :
    ∀ es : List Value, ev.body f pos (es ++ [e]) = ev.each f es >>= fun _ => ev.step e f pos
  | [] => rfl
  | [e'] => by
    simp only [List.cons_append, List.nil_append, body, each, bind_assoc, pure_bind]
  | e' :: e'' :: es => by
    have hrest := body_concat ev f pos e (e'' :: es)
    simp only [List.cons_append] at hrest
    simp only [List.cons_append, body, hrest]
    simp only [each, bind_assoc]

namespace Machine

/-- In tail position a step of an expression comes to the call of a function: of which one, with
which arguments, and in which store. The parts are evaluated one level below. -/
inductive ComesToCall (m : Machine) (f : FrameRef) :
    (d : Nat) → Value → Store → ClosureRef → List Value → Store → Prop
  | application {d : Nat} {r : PairRef} {s t u : Store} {operands args : List Value}
    {c : ClosureRef} (head : Keyword.ofHead? (s.pair r).head = none)
    (list : s.IsListOf (s.pair r).tail operands)
    (fn : (m.evaluator .exhausted d).value (s.pair r).head f s = .done (.closure c) t)
    (values : (m.evaluator .exhausted d).values f operands t = .done args u) :
    ComesToCall m f (d + 1) (.pair r) s c args u
  | branch {d : Nat} {r : PairRef} {s t u : Store} {test consequent v e : Value}
    {alternative : Option Value} {args : List Value} {c : ClosureRef}
    (head : Keyword.ofHead? (s.pair r).head = some .cond)
    (list : s.IsListOf (s.pair r).tail (test :: consequent :: alternative.toList))
    (value : (m.evaluator .exhausted d).value test f s = .done v t)
    (chosen : (if v.isTrue then some consequent else alternative) = some e)
    (rest : ComesToCall m f d e t c args u) : ComesToCall m f (d + 1) (.pair r) s c args u
  | last {d : Nat} {r : PairRef} {s t u : Store} {es : List Value} {e : Value}
    {args : List Value} {c : ClosureRef}
    (head : Keyword.ofHead? (s.pair r).head = some .sequence)
    (list : s.IsListOf (s.pair r).tail (es ++ [e]))
    (before : (m.evaluator .exhausted d).each f es s = .done () t)
    (rest : ComesToCall m f d e t c args u) : ComesToCall m f (d + 1) (.pair r) s c args u

variable {m : Machine} {f g : FrameRef} {d : Nat} {e : Value} {s t u : Store} {c : ClosureRef}
  {args : List Value}

/-- The call that is left over. -/
def leave (c : ClosureRef) (args : List Value) : Eval Step := do
  let g ← enter c args
  pure (.call c g)

theorem leave_eq_done_iff :
    leave c args s = .done (.call c g) t ↔ args.length = (s.closure c).params.length
      ∧ s.addFrame ⟨(s.closure c).params.zip args, some (s.closure c).env⟩ = (g, t) := by
  by_cases hlen : args.length = (s.closure c).params.length
  · simp [leave, Eval.bind_apply, enter, hlen, pure, Eval.pure, Prod.ext_iff]
  · simp [leave, Eval.bind_apply, enter, hlen]

theorem leave_arity (h : args.length ≠ (s.closure c).params.length) :
    leave c args s = .raised (.arity (s.closure c).params.length args.length) s := by
  simp only [leave, Eval.bind_apply, enter, if_neg h]

theorem ofOperands_cond (s : Store) (depth : Nat) (f : FrameRef) (test consequent : Value)
    (alternative : Option Value) :
    Form.ofOperands s depth f .cond (test :: consequent :: alternative.toList)
      = .ok (.cond test consequent alternative) := by
  cases alternative <;> rfl

theorem cond_of_ofOperands {depth : Nat} {k : Keyword} {operands : List Value}
    {test consequent : Value} {alternative : Option Value}
    (h : Form.ofOperands s depth f k operands = .ok (.cond test consequent alternative)) :
    k = .cond ∧ operands = test :: consequent :: alternative.toList := by
  revert h
  fun_cases Form.ofOperands s depth f k operands with
  | case5 c e => rintro ⟨⟩; exact ⟨rfl, rfl⟩
  | case6 c e e' => rintro ⟨⟩; exact ⟨rfl, rfl⟩
  | case9 ps body params =>
    intro h
    rcases hc : s.makeClosure depth params body f with y | c <;> rw [hc] at h <;> cases h
  | _ =>
    intro h
    cases h

theorem sequence_of_ofOperands {depth : Nat} {k : Keyword} {operands body : List Value}
    (h : Form.ofOperands s depth f k operands = .ok (.sequence body)) :
    k = .sequence ∧ operands = body := by
  revert h
  fun_cases Form.ofOperands s depth f k operands with
  | case8 => rintro ⟨⟩; exact ⟨rfl, rfl⟩
  | case9 ps body' params =>
    intro h
    rcases hc : s.makeClosure depth params body' f with y | c <;> rw [hc] at h <;> cases h
  | _ =>
    intro h
    cases h

/-- A step that comes to a call leaves it over. -/
theorem ComesToCall.step (h : m.ComesToCall f d e s c args u) :
    (m.evaluator .exhausted d).step e f .tail s = leave c args u := by
  induction h with
  | application head list fn values =>
    simp only [evaluator, above, stepWith, head, Store.toList_eq_ok_iff.2 list, Eval.bind_apply, fn,
      values]
    rfl
  | @branch d r s t u test consequent v e alternative args c head list value chosen _ ih =>
    have hform := ofOperands_cond s m.depth f test consequent alternative
    have hread := Form.read_eq_ok_iff.2 ⟨_, list, hform⟩
    simp only [evaluator, above, m.stepWith_read _ f .tail head, hread, formStep, Eval.bind_apply,
      value]
    rw [← ih]
    split at chosen
    · rename_i hv
      cases chosen
      rw [if_pos hv]
    · rename_i hv
      subst chosen
      rw [if_neg hv]
  | @last d r s t u es e args c head list before _ ih =>
    have hform : Form.ofOperands s m.depth f .sequence (es ++ [e])
      = .ok (.sequence (es ++ [e])) := rfl
    have hread := Form.read_eq_ok_iff.2 ⟨_, list, hform⟩
    simp only [evaluator, above, m.stepWith_read _ f .tail head, hread, formStep,
      Evaluator.body_concat, Eval.bind_apply, before, ih]

/-- A form that leaves a call over is a condition or a block. -/
theorem formStep_eq_call {ev : Evaluator} {form : Form}
    (h : m.formStep ev f .tail form s = .done (.call c g) t) :
    (∃ test consequent alternative v u e, form = .cond test consequent alternative
        ∧ ev.value test f s = .done v u
        ∧ (if v.isTrue then some consequent else alternative) = some e
        ∧ ev.step e f .tail u = .done (.call c g) t)
      ∨ ∃ es e u, form = .sequence (es ++ [e]) ∧ ev.each f es s = .done () u
        ∧ ev.step e f .tail u = .done (.call c g) t := by
  cases form with
  | define n e =>
    simp only [formStep, bind, Eval.bind] at h
    split at h <;> cases h
  | assign n e =>
    simp only [formStep, Eval.bind_apply, Store.assign_sym] at h
    split at h
    · split at h <;> cases h
    · cases h
    · cases h
  | cond test consequent alternative =>
    simp only [formStep, Eval.bind_apply] at h
    rcases hv : ev.value test f s with ⟨v, u⟩ | _ | _ <;> rw [hv] at h <;>
      simp only [reduceCtorEq] at h
    by_cases htrue : v.isTrue = true
    · rw [if_pos htrue] at h
      exact .inl ⟨test, consequent, alternative, v, u, consequent, rfl, hv, if_pos htrue, h⟩
    · rw [if_neg htrue] at h
      cases alternative with
      | none => cases h
      | some e => exact .inl ⟨test, consequent, some e, v, u, e, rfl, hv, if_neg htrue, h⟩
  | loop test body =>
    simp only [formStep, bind, Eval.bind] at h
    split at h <;> cases h
  | sequence body =>
    rcases List.eq_nil_or_concat body with rfl | ⟨es, e, rfl⟩
    · cases h
    · rw [List.concat_eq_append] at h ⊢
      simp only [formStep, Evaluator.body_concat, Eval.bind_apply] at h
      rcases hes : ev.each f es s with ⟨_, u⟩ | _ | _ <;> rw [hes] at h <;>
        simp only [reduceCtorEq] at h
      exact .inr ⟨es, e, u, rfl, hes, h⟩
  | lambda fn => cases h
  | quote v => cases h

theorem applyStep_eq_call {ev : Evaluator} {fn : Value}
    (h : m.applyStep ev fn args .tail s = .done (.call c g) t) :
    fn = .closure c ∧ leave c args s = .done (.call c g) t := by
  cases fn with
  | closure c' =>
    have hcall : leave c' args s = .done (.call c g) t := h
    simp only [leave, Eval.bind_apply] at hcall
    split at hcall <;> cases hcall
    exact ⟨rfl, h⟩
  | _ =>
    simp only [applyStep, bind, Eval.bind] at h
    split at h <;> cases h

/-- A step that leaves a call over came to it. -/
theorem comesToCall_of_step :
    ∀ {d : Nat} {e : Value} {s : Store},
      (m.evaluator .exhausted d).step e f .tail s = .done (.call c g) t →
      ∃ args u, m.ComesToCall f d e s c args u ∧ leave c args u = .done (.call c g) t
  | 0, e, s, h => by cases h
  | d + 1, e, s, h => by
    cases e with
    | pair r =>
      rcases hk : Keyword.ofHead? (s.pair r).head with _ | k
      · simp only [evaluator, above, stepWith, hk] at h
        split at h
        · rename_i operands hl
          rw [Eval.bind_apply] at h
          rcases hfn : (m.evaluator .exhausted d).value (s.pair r).head f s with ⟨fn, u⟩ | _ | _ <;>
            rw [hfn] at h <;> simp only [reduceCtorEq] at h
          rw [Eval.bind_apply] at h
          rcases hargs : (m.evaluator .exhausted d).values f operands u with ⟨args, w⟩ | _ | _ <;>
            rw [hargs] at h <;> simp only [reduceCtorEq] at h
          obtain ⟨rfl, hleave⟩ := applyStep_eq_call h
          exact ⟨args, w, .application hk (Store.toList_eq_ok_iff.1 hl) hfn hargs, hleave⟩
        · exact absurd h (Outcome.blocked_ne_done _ _ _ _)
      · simp only [evaluator, above, m.stepWith_read _ f .tail hk] at h
        split at h
        · rename_i form hread
          obtain ⟨operands, hl, hform⟩ := Form.read_eq_ok_iff.1 hread
          rcases formStep_eq_call h with
            ⟨test, consequent, alternative, v, u, e, rfl, hv, hchosen, h⟩ | ⟨es, e, u, rfl, hes, h⟩
          · obtain ⟨args, w, hcall, hleave⟩ := comesToCall_of_step h
            obtain ⟨rfl, rfl⟩ := cond_of_ofOperands hform
            exact ⟨args, w, .branch hk hl hv hchosen hcall, hleave⟩
          · obtain ⟨args, w, hcall, hleave⟩ := comesToCall_of_step h
            obtain ⟨rfl, rfl⟩ := sequence_of_ofOperands hform
            exact ⟨args, w, .last hk hl hes hcall, hleave⟩
        · exact absurd h (Outcome.blocked_ne_done _ _ _ _)
    | sym n =>
      simp only [evaluator, above, stepWith] at h
      split at h <;> cases h
    | foreign o => exact absurd h (Outcome.blocked_ne_done _ _ _ _)
    | _ => cases h

end Machine

theorem Agreement.isListOf_known {V : Value → Prop} {F : FrameRef → Prop} {s s' : Store}
    (h : Agreement V F s s') {v : Value} {vs : List Value} (hl : s.IsListOf v vs) (hv : V v) :
    ∀ w ∈ vs, V w := by
  induction hl with
  | nil => simp
  | @cons r vs _ ih =>
    obtain ⟨-, hhead, htail⟩ := h.pair hv
    intro w hw
    rcases List.mem_cons.1 hw with rfl | hw
    · exact hhead
    · exact ih htail w hw

namespace Simulation

variable {S : Simulation}

theorem Ends.of_done {α : Type} {A : Store → α → Prop} {X : Store → Failure → Prop} {s t : Store}
    {o : Outcome α} {a : α} (h : S.Ends s A X o o) (ho : o = .done a t) :
    S.stores t t ∧ S.le s t ∧ A t a := by
  subst ho
  cases h with
  | done h => exact h

/-- What is known where a step comes to a call: the function and its arguments. -/
theorem known_of_comesToCall {m : Machine} (hm : S.Machines m m) {f : FrameRef} {d : Nat}
    {e : Value} {s u : Store} {c : ClosureRef} {args : List Value}
    (h : m.ComesToCall f d e s c args u) (hs : S.stores s s) (he : S.value s e)
    (hf : S.scope s f) :
    S.stores u u ∧ S.le s u ∧ S.value u (.closure c) ∧ ∀ a ∈ args, S.value u a := by
  have hev := hm.evaluator .exhausted
  induction h with
  | @application d r s t u operands args c _ list fn values =>
    obtain ⟨-, hhead, htail⟩ := (S.agree hs).pair he
    have ho := (S.agree hs).isListOf_known list htail
    obtain ⟨hs, hle, hc⟩ := Ends.of_done ((hev d).value hs hhead hf) fn
    obtain ⟨hs, hle', hargs⟩ := Ends.of_done
      ((hev d).values hs (fun e he => S.value_mono hle (ho e he)) (S.scope_mono hle hf)) values
    exact ⟨hs, S.le_trans hle hle', S.value_mono hle' hc, hargs⟩
  | @branch d r s t u test consequent v e alternative args c _ list value chosen _ ih =>
    obtain ⟨-, -, htail⟩ := (S.agree hs).pair he
    have ho := (S.agree hs).isListOf_known list htail
    have he : e ∈ test :: consequent :: alternative.toList := by
      split at chosen <;> simp_all
    obtain ⟨hs, hle, -⟩ := Ends.of_done ((hev d).value hs (ho test List.mem_cons_self) hf) value
    obtain ⟨hu, hle', hknown⟩ := ih hs (S.value_mono hle (ho e he)) (S.scope_mono hle hf)
    exact ⟨hu, S.le_trans hle hle', hknown⟩
  | @last d r s t u es e args c _ list before _ ih =>
    obtain ⟨-, -, htail⟩ := (S.agree hs).pair he
    have ho := (S.agree hs).isListOf_known list htail
    have hes : ∀ e' ∈ es, S.value s e' := fun e' he' => ho e' (List.mem_append_left [e] he')
    obtain ⟨hs, hle, -⟩ := Ends.of_done ((hev d).each hs hes hf) before
    have he : S.value s e := ho e (List.mem_append_right es List.mem_cons_self)
    obtain ⟨hu, hle', hknown⟩ := ih hs (S.value_mono hle he) (S.scope_mono hle hf)
    exact ⟨hu, S.le_trans hle hle', hknown⟩

end Simulation

/-! ## The frame of a call -/

/-- In a list of pairs with all keys different, a key has the value at its place. -/
theorem lookup_zip {params : List Symbol} (hn : params.Nodup) :
    ∀ {args : List Value} {j : Nat} {n : Symbol} {v : Value}, params[j]? = some n →
      args[j]? = some v → (params.zip args).lookup n = some v := by
  induction params with
  | nil => simp
  | cons p params ih =>
    obtain ⟨hp, hn⟩ := List.nodup_cons.1 hn
    intro args j n v hj hv
    cases args with
    | nil => simp at hv
    | cons a args =>
      rw [List.zip_cons_cons, List.lookup_cons]
      cases j with
      | zero =>
        simp only [List.getElem?_cons_zero, Option.some.injEq] at hj hv
        simp [hj, hv]
      | succ j =>
        rw [List.getElem?_cons_succ] at hj hv
        have hne : n ≠ p := fun h => hp (h ▸ List.mem_of_getElem? hj)
        rw [beq_false_of_ne hne]
        exact ih hn hj hv

theorem Frame.binds_iff {vars : List (Symbol × Value)} {o : Option FrameRef} {n : Symbol} :
    (Frame.mk vars o).binds n = true ↔ n ∈ vars.map Prod.fst := by
  simp [Frame.binds]

namespace Store

/-- What an object refers to directly. -/
def references (s : Store) : Object → List Object
  | .value (.closure c) => .frame (s.closure c).env :: (s.closure c).body.map .value
  | .value v => (s.parts v).map .value
  | .frame f => (s.frame f).outer.toList.map .frame ++ (s.frame f).vars.map fun b => .value b.2

/-- The frame `g` of a call of a function, in the store `t` that a step from `s` has come to: it is
new, nothing refers to it, and it binds the parameters to the arguments, one by one, inside the
frame of the function. -/
structure IsCallFrame (s t : Store) (c : ClosureRef) (args : List Value) (g : FrameRef) :
    Prop where
  new : (Object.frame g).New s t
  unreferenced : ∀ o, Object.frame g ∉ t.references o
  outer : (t.frame g).outer = some (t.closure c).env
  names : (t.frame g).vars.map Prod.fst = (t.closure c).params
  argument : ∀ {j : Nat} {n : Symbol}, (t.closure c).params[j]? = some n →
    ∃ v, args[j]? = some v ∧ t.lookup? g n = some v
  other : ∀ {n : Symbol}, n ∉ (t.closure c).params →
    t.find? g n = t.find? (t.closure c).env n ∧ t.lookup? g n = t.lookup? (t.closure c).env n

variable {s t u : Store} {c : ClosureRef} {args : List Value} {g : FrameRef}

/-- A name that a new frame does not bind is found where the frame around it finds it. -/
theorem find?_newFrame {vars : List (Symbol × Value)} {f : FrameRef} {n : Symbol}
    (hf : f < s.frames.size) (hn : n ∉ vars.map Prod.fst) :
    (s.addFrame ⟨vars, some f⟩).2.find? s.frames.size n
      = (s.addFrame ⟨vars, some f⟩).2.find? f n := by
  rw [find?_eq, frame_newFrame, outer?_newFrame hf, if_neg fun h => hn (Frame.binds_iff.1 h)]
  rfl

theorem lookup?_of_find? {f g : FrameRef} {n : Symbol} (h : s.find? f n = s.find? g n) :
    s.lookup? f n = s.lookup? g n := by rw [lookup?, lookup?, h]

/-- Nothing in a well-formed store refers to the next frame. -/
theorem WellFormed.frame_notMem_references (hu : u.WellFormed) (hpos : 0 < u.frames.size)
    (call : Frame) (hcall : ∀ o, call.outer = some o → o < u.frames.size) (o : Object) :
    Object.frame u.frames.size ∉ (u.addFrame call).2.references o := by
  cases o with
  | value v =>
    cases v with
    | closure c =>
      simp only [references, List.mem_cons, Object.frame.injEq, List.mem_map, reduceCtorEq,
        and_false, exists_false, or_false]
      change u.frames.size ≠ (u.closure c).env
      by_cases hc : c < u.closures.size
      · exact Nat.ne_of_gt (hu.captured hc)
      · have hdefault : u.closure c = default := by simp only [closure, Array.getD, dif_neg hc]
        rw [hdefault]
        exact Nat.ne_of_gt hpos
    | _ => simp [references]
  | frame f =>
    simp only [references, List.mem_append, List.mem_map, Object.frame.injEq, reduceCtorEq,
      and_false, exists_false, or_false, exists_eq_right, Option.mem_toList]
    rw [frame_addFrame]
    intro hf
    split at hf
    · exact Nat.lt_irrefl _ (hcall _ hf)
    · have hlt := hu.outer hf
      have hframe : u.frame f = default := by
        simp only [frame, Array.getD, dif_neg (Nat.not_lt.2 (Nat.le_of_lt hlt))]
      rw [hframe] at hf
      cases hf

/-- The frame that a call makes in a well-formed store. -/
theorem WellFormed.isCallFrame (hu : u.WellFormed) (hle : s.Grown u) (hpos : 0 < s.frames.size)
    (hc : c < u.closures.size) (hlen : args.length = (u.closure c).params.length)
    (h : u.addFrame ⟨(u.closure c).params.zip args, some (u.closure c).env⟩ = (g, t)) :
    s.IsCallFrame t c args g := by
  obtain ⟨rfl, rfl⟩ := Prod.ext_iff.1 h
  have henv : (u.closure c).env < u.frames.size := hu.captured hc
  have hframe := u.frame_newFrame ⟨(u.closure c).params.zip args, some (u.closure c).env⟩
  have hnames : ((u.closure c).params.zip args).map Prod.fst = (u.closure c).params :=
    List.map_fst_zip (Nat.le_of_eq hlen.symm)
  refine ⟨?_, ?_, ?_, ?_, fun {j n} hj => ?_, fun {n} hn => ?_⟩
  · exact (Object.new_addFrame _ hle).2 (.inr rfl)
  · refine hu.frame_notMem_references (Nat.lt_of_lt_of_le hpos hle.frames) _ ?_
    rintro o ⟨⟩
    exact henv
  · exact congrArg Frame.outer hframe
  · exact (congrArg (fun fr => fr.vars.map Prod.fst) hframe).trans hnames
  · have hlt : j < args.length := by
      rw [hlen]
      exact (List.getElem?_eq_some_iff.1 hj).1
    have hlookup := lookup_zip (hu.params c) hj (List.getElem?_eq_getElem hlt)
    have hmem : n ∈ ((u.closure c).params.zip args).map Prod.fst :=
      hnames.symm ▸ List.mem_of_getElem? hj
    have hbinds : (Frame.mk ((u.closure c).params.zip args) none).binds n = true :=
      Frame.binds_iff.2 hmem
    refine ⟨args[j], List.getElem?_eq_getElem hlt, ?_⟩
    exact (lookup?_newFrame henv).trans ((if_pos hbinds).trans hlookup)
  · have hfind := find?_newFrame henv (hnames.symm ▸ hn)
    exact ⟨hfind, lookup?_of_find? hfind⟩

end Store

namespace Host

variable {h : Host} {i : Interpreter} {e : Value} {f : FrameRef}

/-- Whatever a host has done before: if a step in tail position leaves a call over, the step came to
that call, and the call's frame is new, nothing in the store refers to it, and it binds the
parameters to the arguments, one by one, inside the frame that the function was made in. If a step
comes to a call with another number of arguments, it fails there and makes no frame. -/
theorem leftover_call_frame (hr : h.Reachable) (hi : i ∈ h.interpreters) (he : h.store.Has e)
    (hf : f < h.store.frames.size) :
    (∀ {c g t}, i.machine.step e f .tail h.store = .done (.call c g) t →
      ∃ args u, i.machine.ComesToCall f i.machine.limit e h.store c args u
        ∧ u.addFrame ⟨(u.closure c).params.zip args, some (u.closure c).env⟩ = (g, t)
        ∧ h.store.IsCallFrame t c args g)
    ∧ ∀ {c args u}, i.machine.ComesToCall f i.machine.limit e h.store c args u →
      args.length ≠ (u.closure c).params.length →
      i.machine.step e f .tail h.store
        = .raised (.arity (u.closure c).params.length args.length) u := by
  have hsound := sound_of_reachable hr
  have hstands := hsound.interpreters i hi
  constructor
  · intro c g t hstep
    obtain ⟨args, u, hcall, hleave⟩ := Machine.comesToCall_of_step hstep
    obtain ⟨hlen, hframe⟩ := Machine.leave_eq_done_iff.1 hleave
    obtain ⟨⟨-, hu, -⟩, hle, hc, -⟩ := Simulation.known_of_comesToCall hstands.machines hcall
      ⟨rfl, hsound.store, hstands.globals⟩ he hf
    have hpos : 0 < h.store.frames.size := Nat.lt_of_le_of_lt (Nat.zero_le f) hf
    exact ⟨args, u, hcall, hframe, hu.isCallFrame hle hpos hc hlen hframe⟩
  · intro c args u hcall hne
    exact hcall.step.trans (Machine.leave_arity hne)

/-- A host with the function `f` of one parameter, the application `(f 5)`, the application `(f)`
and the block `(do (f 5))`. -/
def calling : Host where
  store := {
    pairs := #[⟨.int 5, .nil⟩, ⟨.closure 0, .pair 0⟩, ⟨.closure 0, .nil⟩, ⟨.pair 1, .nil⟩,
      ⟨.symbol "do", .pair 3⟩]
    closures := #[⟨[⟨"a"⟩], [.int 7], 0⟩]
    frames := #[.empty none, .empty (some 0)] }
  interpreters := [plainInterpreter]
  values := [.pair 4, .pair 3, .pair 2, .pair 1, .pair 0, .closure 0]
  frames := [0, 1]

theorem reachable_calling : calling.Reachable := by
  have hcreate : Next {} started := Next.create (h := {}) none false
  have hclosure := @Next.closure started 9 [.symbol "a"] [.int 7] 0 ⟨[⟨"a"⟩], [.int 7], 0⟩
    (by simp [Holds]) (by simp [started]) rfl
  have hclosures := (Relation.ReflTransGen.single hcreate).tail hclosure
  have hfive := hclosures.tail (@Next.pair _ (.int 5) .nil trivial trivial)
  have hcall := hfive.tail (@Next.pair _ (.closure 0) (.pair 0) (.tail _ (.head _)) (.head _))
  have hbare := hcall.tail (@Next.pair _ (.closure 0) .nil (.tail _ (.tail _ (.head _))) trivial)
  have hlast := hbare.tail (@Next.pair _ (.pair 1) .nil (.tail _ (.head _)) trivial)
  exact hlast.tail (@Next.pair _ (.symbol "do") (.pair 3) trivial (.head _))

/-- The block leaves the call of `f` over, with 5 for its parameter; the application without
arguments fails. -/
theorem leftover_call_frame_calling :
    (∃ args t, plainInterpreter.machine.step (.pair 4) 1 .tail calling.store = .done (.call 0 2) t
      ∧ t.frame 2 = ⟨[(⟨"a"⟩, .int 5)], some 0⟩ ∧ calling.store.IsCallFrame t 0 args 2)
    ∧ plainInterpreter.machine.step (.pair 2) 1 .tail calling.store
      = .raised (.arity 1 0) calling.store := by
  have hi : plainInterpreter ∈ calling.interpreters := List.mem_cons_self
  have hhas (r : PairRef) (hr : r < 5) : calling.store.Has (.pair r) := hr
  constructor
  · have hstep : plainInterpreter.machine.step (.pair 4) 1 .tail calling.store
        = .done (.call 0 2) (calling.store.addFrame ⟨[(⟨"a"⟩, .int 5)], some 0⟩).2 := rfl
    obtain ⟨args, u, -, -, hframe⟩ :=
      (leftover_call_frame reachable_calling hi (hhas 4 (by decide)) (by decide)).1 hstep
    exact ⟨args, _, hstep, rfl, hframe⟩
  · have hcall : plainInterpreter.machine.ComesToCall 1 (999 + 1) (.pair 2) calling.store 0 []
        calling.store := .application rfl .nil rfl rfl
    exact (leftover_call_frame reachable_calling hi (hhas 2 (by decide)) (by decide)).2 hcall
      (by decide)

end Host

end LispCore

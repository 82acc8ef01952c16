import LispCore.Proofs.Calls
import LispCore.Proofs.Chains
import LispCore.Proofs.Courses
import LispCore.Proofs.Programs

/-!
# Counters keep their counts apart

A function that defines `n` and returns a function that increments it makes counters. Each call of
it makes a frame of its own, which the counter captures, and all counters share their code and the
frame around. A call of a counter makes one more frame, finds `n` in the captured one and changes it
there and nowhere else. So whatever counters were made and called before, and by whatever kind of
call, a counter gives the number of its own calls (`Machine.counters_count_apart`).

`Machine.Counting` is a history of such calls, with the stores between them. What it leaves behind
is described by `Store.CountsApart`, which every kind of step keeps.
-/

namespace LispCore

/-- `(set n (+ n 1))` -/
def Code.increment : Code :=
  .form .assign [.name "n", .list [.name "+", .name "n", .int 1]]

/-- A parameter list without parameters. -/
def Store.NoParameters (s : Store) (ps : Value) : Prop :=
  ps = .nil ∨ ∃ r, ps = .vec r ∧ r < s.vecs.size ∧ s.vec r = #[]

namespace Machine

/-- The function was made in `g` as `(fn [] (def n 0) (fn [] (set n (+ n 1))))`, with `e` for the
assignment, and `+` adds integers there. -/
structure MakesCounters (m : Machine) (s : Store) (mk : ClosureRef) (g : FrameRef) (e : Value) :
    Prop where
  code : ∃ zero counter ps, s.closure mk = ⟨[], [zero, counter], g⟩
    ∧ s.Denotes zero (.form .define [.name "n", .int 0])
    ∧ s.Denotes counter (.form .lambda [.leaf ps, .leaf e]) ∧ s.NoParameters ps
  body : s.Denotes e .increment
  add : ∃ p, s.lookup? g ⟨"+"⟩ = some (.prim p)
    ∧ ∀ ev t i j, m.runPrimitive ev p [.int i, .int j] t = .done (.int (i + j)) t

/-- A call of a function without arguments: it is applied, or a list is evaluated, in any frame,
whose one element has the function as its value. -/
inductive Calls (m : Machine) (c : ClosureRef) (t : Store) : Outcome Value → Prop
  | apply : Calls m c t (m.apply (.closure c) [] t)
  | evaluate {x h : Value} {f : FrameRef} (list : t.Denotes x (.list [.leaf h]))
    (head : Keyword.ofHead? h = none)
    (value : ∀ ev, (m.above ev).value h f t = .done (.closure c) t) : Calls m c t (m.evaluate x f t)

end Machine

/-- Between two stores objects and bindings were made, but code is what it was and so is the meaning
of `+` in `g`. -/
structure Store.Steady (g : FrameRef) (t u : Store) : Prop extends t.Extended u where
  pair : t.KeepsPairs u
  vec : ∀ {r : VecRef}, r < t.vecs.size → u.vec r = t.vec r
  add : u.lookup? g ⟨"+"⟩ = t.lookup? g ⟨"+"⟩

/-- A history of calls: counters were made, the latest first, and called, the latest first. Between
the calls something else may happen that leaves the frames of the counters alone. -/
inductive Machine.Counting (m : Machine) (mk : ClosureRef) (g : FrameRef) (s : Store) :
    (made calls : List ClosureRef) → Store → Prop
  | start : Counting m mk g s [] [] s
  | make {made calls : List ClosureRef} {c : ClosureRef} {t u : Store}
    (before : Counting m mk g s made calls t) (call : m.Calls mk t (.done (.closure c) u)) :
    Counting m mk g s (c :: made) calls u
  | call {made calls : List ClosureRef} {c : ClosureRef} {v : Value} {t u : Store}
    (before : Counting m mk g s made calls t) (mem : c ∈ made) (call : m.Calls c t (.done v u)) :
    Counting m mk g s made (c :: calls) u
  | other {made calls : List ClosureRef} {t u : Store}
    (before : Counting m mk g s made calls t) (steady : t.Steady g u)
    (frames : ∀ c ∈ made, u.frame (t.closure c).env = t.frame (t.closure c).env) :
    Counting m mk g s made calls u

/-! ## Calls -/

namespace Machine

variable {m : Machine} {s t u : Store} {c mk : ClosureRef} {g : FrameRef} {e : Value}
  {o : Outcome Value}

/-- However a function without parameters is called, the outcome is that of its body in a new
frame. -/
theorem Calls.eq_done {body : List Value} {v : Value} (hlimit : 2 ≤ m.limit) (hturns : 0 < m.turns)
    (hc : t.closure c = ⟨[], body, g⟩)
    (hbody : m.top.body t.frames.size .tail body (t.addEmptyFrame (some g)).2
      = .done (.value v) u) (h : m.Calls c t o) : o = .done v u := by
  have hfinish : m.top.finish m.turns (.call c t.frames.size) (t.addEmptyFrame (some g)).2
      = .done v u := by
    obtain ⟨n, hn⟩ : ∃ n, m.turns = n + 1 := ⟨m.turns - 1, by omega⟩
    have hcode : ((t.addEmptyFrame (some g)).2.closure c).body = body := congrArg Closure.body hc
    rw [hn, Evaluator.finish_call, hcode, Eval.bind_apply, hbody]
    simp only [Evaluator.finish_value]
    rfl
  cases h with
  | apply =>
    simp only [Machine.apply, applyWith, Eval.guarded, call, Eval.bind_apply, enter_thunk hc,
      hfinish]
  | @evaluate x h f list head value =>
    obtain ⟨d, hd⟩ : ∃ d, m.limit = d + 2 := ⟨m.limit - 2, by omega⟩
    have htop : m.top = m.above (m.above (m.evaluator .exhausted d)) := by
      rw [top, hd]
      rfl
    have hhead : (m.above (m.evaluator .exhausted d)).Yields f t (.leaf h) (.closure c) := by
      intro y hy
      rw [hy.eq_of_leaf]
      exact value _
    have hstep : m.top.step x f .tail t
        = .done (.call c t.frames.size) (t.addEmptyFrame (some g)).2 := by
      rw [htop, step_list list head hhead .nil]
      simp only [applyStep, Eval.bind_apply, enter_thunk hc]
      rfl
    simp only [Machine.evaluate, evaluateWith, Eval.guarded, Evaluator.complete, Eval.bind_apply,
      hstep, hfinish]

end Machine

/-! ## Stores that stay steady -/

namespace Store

variable {s t u : Store} {g f : FrameRef} {n : Symbol} {v : Value}

/-- Names mean what the frames say. -/
theorem lookup?_of_frames (h : t.frames = s.frames) : t.lookup? g n = s.lookup? g n := by
  have hframe (f : FrameRef) : t.frame f = s.frame f := by rw [frame, frame, h]
  have hchain : t.chain g = s.chain g := chain_congr g fun f _ => by rw [outer?, outer?, hframe]
  simp only [lookup?_chain, hchain, hframe]

theorem lt_size_of_body {c : ClosureRef} (h : (s.closure c).body ≠ []) : c < s.closures.size := by
  by_contra hc
  refine h ?_
  rw [closure, Array.getD_eq_getD_getElem?, Array.getElem?_eq_none (Nat.not_lt.1 hc)]
  rfl

theorem NoParameters.parameterList {ps : Value} (h : s.NoParameters ps) (depth : Nat) :
    s.parameterList depth ps = .ok [] := by
  rcases h with rfl | ⟨r, rfl, -, hr⟩
  · rfl
  · rw [Store.parameterList, hr]

namespace Steady

theorem refl (g : FrameRef) (s : Store) : s.Steady g s where
  toExtended := .refl s
  pair _ := rfl
  vec _ := rfl
  add := rfl

theorem trans (h : s.Steady g t) (h' : t.Steady g u) : s.Steady g u where
  toExtended := h.toExtended.trans h'.toExtended
  pair hr := (h'.pair (Nat.lt_of_lt_of_le hr h.pairs)).trans (h.pair hr)
  vec hr := (h'.vec (Nat.lt_of_lt_of_le hr h.vecs)).trans (h.vec hr)
  add := h'.add.trans h.add

theorem addFrame (hg : g < s.frames.size) (call : Frame) : s.Steady g (s.addFrame call).2 where
  toExtended := .addFrame s call
  pair _ := rfl
  vec _ := rfl
  add := lookup?_addFrame call hg

theorem addClosure (g : FrameRef) (c : Closure) : s.Steady g (s.addClosure c).2 where
  toExtended := .addClosure s c
  pair _ := rfl
  vec _ := rfl
  add := lookup?_of_frames rfl

theorem addPair (g : FrameRef) (c : Cell) : s.Steady g (s.addPair c).2 where
  toExtended := .addPair s c
  pair hr := by rw [pair_addPair, if_neg (Nat.ne_of_lt hr)]
  vec _ := rfl
  add := lookup?_of_frames rfl

theorem bind (hf : f < s.frames.size) (hn : (⟨"+"⟩ : Symbol) ≠ n) : s.Steady g (s.bind f n v) where
  toExtended := .bind s f n v
  pair _ := rfl
  vec _ := rfl
  add := lookup?_bind_of_not_exposes hf fun h => hn h.1

end Steady

/-- A counter, with the number of its calls in the frame that it captured. -/
structure Counter (s : Store) (g : FrameRef) (e : Value) (c : ClosureRef) (k : Nat) : Prop where
  exist : c < s.closures.size
  closure : s.closure c = ⟨[], [e], (s.closure c).env⟩
  inside : g < (s.closure c).env
  captured : (s.closure c).env < s.frames.size
  frame : s.frame (s.closure c).env = ⟨[(⟨"n"⟩, .int k)], some g⟩

/-- A counter stays one, with the number that its frame holds. -/
theorem Counter.steady {e : Value} {c : ClosureRef} {k k' : Nat} (h : s.Counter g e c k)
    (hst : s.Steady g t) (hframe : t.frame (s.closure c).env = ⟨[(⟨"n"⟩, .int k')], some g⟩) :
    t.Counter g e c k' := by
  have hc : t.closure c = s.closure c := hst.closure h.exist
  refine ⟨Nat.lt_of_lt_of_le h.exist hst.closures, ?_, ?_, ?_, ?_⟩ <;> rw [hc]
  · exact h.closure
  · exact h.inside
  · exact Nat.lt_of_lt_of_le h.captured hst.frames
  · exact hframe

section Call

variable {e : Value} {c : ClosureRef} {k : Nat} (h : s.Counter g e c k)

include h

/-- A call finds `n` in the frame that the counter captured. -/
theorem Counter.find?_n :
    (s.addEmptyFrame (some (s.closure c).env)).2.find? s.frames.size ⟨"n"⟩
      = some (s.closure c).env := by
  rw [addEmptyFrame, Frame.empty, find?_newFrame h.captured (by simp), find?_eq, frame_addFrame,
    if_neg (Nat.ne_of_lt h.captured), h.frame]
  rfl

theorem Counter.lookup?_n :
    (s.addEmptyFrame (some (s.closure c).env)).2.lookup? s.frames.size ⟨"n"⟩
      = some (.int k) := by
  rw [addEmptyFrame, Frame.empty, lookup?_newFrame h.captured, lookup?_eq, h.frame]
  rfl

/-- In a call `+` means what it means around the frame that the counter captured. -/
theorem Counter.lookup?_add :
    (s.addEmptyFrame (some (s.closure c).env)).2.lookup? s.frames.size ⟨"+"⟩
      = s.lookup? g ⟨"+"⟩ := by
  have houter : s.outer? (s.closure c).env = some g := by
    rw [outer?, h.frame]
    simpa [Option.filter] using h.inside
  rw [addEmptyFrame, Frame.empty, lookup?_newFrame h.captured, lookup?_eq, houter, h.frame]
  rfl

end Call

/-- The store with a new frame, in which `n` was defined. -/
def withZero (s : Store) (g : FrameRef) : Store :=
  (s.addEmptyFrame (some g)).2.bind s.frames.size ⟨"n"⟩ (.int 0)

/-- The store in which one more counter was made. -/
def withCounter (s : Store) (g : FrameRef) (e : Value) : Store :=
  ((s.withZero g).addClosure ⟨[], [e], s.frames.size⟩).2

/-- The store in which a call changed the count in a frame. -/
def withCount (s : Store) (f : FrameRef) (i : Int) : Store :=
  (s.addEmptyFrame (some f)).2.bind f ⟨"n"⟩ (.int i)

theorem size_addEmptyFrame (o : Option FrameRef) :
    (s.addEmptyFrame o).2.frames.size = s.frames.size + 1 := Array.size_push _

theorem frame_withCounter (e : Value) (f : FrameRef) :
    (s.withCounter g e).frame f
      = if f = s.frames.size then ⟨[(⟨"n"⟩, .int 0)], some g⟩ else s.frame f := by
  have hframe : (s.withCounter g e).frame f = (s.withZero g).frame f := rfl
  rw [hframe, withZero, frame_bind, size_addEmptyFrame, addEmptyFrame, frame_addFrame]
  by_cases hf : f = s.frames.size
  · have hnew : s.frames.size = f ∧ f < s.frames.size + 1 := ⟨hf.symm, hf ▸ Nat.lt_succ_self f⟩
    rw [if_pos hnew, if_pos hf, if_pos hf]
    rfl
  · rw [if_neg fun h => hf h.1.symm, if_neg hf, if_neg hf]

theorem steady_withCounter (hg : g < s.frames.size) (e : Value) :
    s.Steady g (s.withCounter g e) := by
  have hframe : s.Steady g (s.addEmptyFrame (some g)).2 := .addFrame hg _
  have hf : s.frames.size < (s.addEmptyFrame (some g)).2.frames.size := by
    rw [size_addEmptyFrame]
    exact Nat.lt_succ_self _
  exact (hframe.trans (.bind hf (by decide))).trans (.addClosure g _)

theorem closure_withCounter (e : Value) :
    (s.withCounter g e).closure s.closures.size = ⟨[], [e], s.frames.size⟩ :=
  (closure_addClosure ..).trans (if_pos rfl)

/-- A new counter has not been called. -/
theorem counter_withCounter (hg : g < s.frames.size) (e : Value) :
    (s.withCounter g e).Counter g e s.closures.size 0 := by
  refine ⟨?_, ?_, ?_, ?_, ?_⟩ <;> try rw [closure_withCounter]
  · exact Nat.lt_of_lt_of_eq (Nat.lt_succ_self _) (Array.size_push _).symm
  · exact hg
  · simp [withCounter, withZero, Store.addClosure, Store.bind, size_addEmptyFrame]
  · rw [frame_withCounter, if_pos rfl]
    rfl

theorem frame_withCount (i : Int) (hf : f < s.frames.size) :
    (s.withCount g i).frame f = if f = g then (s.frame f).set ⟨"n"⟩ (.int i) else s.frame f := by
  rw [withCount, frame_bind, size_addEmptyFrame, addEmptyFrame, frame_addFrame,
    if_neg (Nat.ne_of_lt hf)]
  by_cases hfg : f = g
  · have hold : g = f ∧ f < s.frames.size + 1 := ⟨hfg.symm, Nat.lt_succ_of_lt hf⟩
    rw [if_pos hold, if_pos hfg]
  · rw [if_neg fun h => hfg h.1.symm, if_neg hfg]

theorem steady_withCount (hg : g < s.frames.size) (hf : f < s.frames.size) (i : Int) :
    s.Steady g (s.withCount f i) := by
  have hframe : s.Steady g (s.addEmptyFrame (some f)).2 := .addFrame hg _
  exact hframe.trans (.bind (Nat.lt_of_lt_of_le hf hframe.frames) (by decide))

end Store

/-! ## What one call does -/

namespace Machine.MakesCounters

variable {m : Machine} {s t : Store} {c mk : ClosureRef} {g : FrameRef} {e : Value}
  {o : Outcome Value}

theorem lt_size (h : m.MakesCounters s mk g e) : g < s.frames.size := by
  obtain ⟨p, hp, -⟩ := h.add
  exact Store.lt_of_lookup? hp

/-- Where stores stay steady, what made counters still makes them. -/
theorem steady (h : m.MakesCounters s mk g e) (hs : s.Linked) (hst : s.Steady g t) :
    m.MakesCounters t mk g e where
  code := by
    obtain ⟨zero, counter, ps, hmk, hzero, hcounter, hps⟩ := h.code
    have hexist : mk < s.closures.size := Store.lt_size_of_body (by simp [hmk])
    refine ⟨zero, counter, ps, (hst.closure hexist).trans hmk, hzero.form_kept hs hst.pair,
      hcounter.form_kept hs hst.pair, hps.imp_right ?_⟩
    rintro ⟨r, rfl, hr, hempty⟩
    exact ⟨r, rfl, Nat.lt_of_lt_of_le hr hst.vecs, (hst.vec hr).trans hempty⟩
  body := h.body.form_kept hs hst.pair
  add := by
    obtain ⟨p, hp, hadds⟩ := h.add
    exact ⟨p, hst.add.trans hp, hadds⟩

variable (h : m.MakesCounters s mk g e) (hturns : 0 < m.turns)

include h hturns

/-- A call makes a frame with `n` in it and a counter that has captured it. -/
theorem make (hlimit : 2 ≤ m.limit) (hcall : m.Calls mk s o) :
    o = .done (.closure s.closures.size) (s.withCounter g e) := by
  obtain ⟨zero, counter, ps, hmk, hzero, hcounter, hps⟩ := h.code
  obtain ⟨d, hd⟩ : ∃ d, m.limit = d + 2 := ⟨m.limit - 2, by omega⟩
  have htop : m.top = m.above (m.above (m.evaluator .exhausted d)) := by
    rw [top, hd]
    rfl
  have hdefine : (m.above (m.above (m.evaluator .exhausted d))).value zero s.frames.size
      (s.addEmptyFrame (some g)).2 = .done (.int 0) (s.withZero g) :=
    value_above (step_define (hzero.addFrame _) (yields_int 0) .inner)
  have hpairs (r : PairRef) : s.pair r = (s.withZero g).pair r := rfl
  have hps : (s.withZero g).NoParameters ps := hps
  refine hcall.eq_done hlimit hturns hmk ?_
  simp only [Evaluator.body, htop, Eval.bind_apply, hdefine]
  exact step_thunk (hcounter.congr hpairs) (hps.parameterList _) .tail

/-- A call of a counter changes the count that it captured. -/
theorem count (hlimit : 3 ≤ m.limit) {k : Nat} (hc : s.Counter g e c k) (hcall : m.Calls c s o) :
    o = .done (.int (k + 1 : Nat)) (s.withCount (s.closure c).env (k + 1 : Nat)) := by
  obtain ⟨p, hp, hadds⟩ := h.add
  obtain ⟨d, hd⟩ : ∃ d, m.limit = d + 3 := ⟨m.limit - 3, by omega⟩
  have htop : m.top = m.above (m.above (m.above (m.evaluator .exhausted d))) := by
    rw [top, hd]
    rfl
  refine hcall.eq_done (by omega) hturns hc.closure ?_
  have hn : (m.above (m.evaluator .exhausted d)).Yields s.frames.size
      (s.addEmptyFrame (some (s.closure c).env)).2 (.name "n") (.int k) :=
    yields_name hc.lookup?_n
  have hplus : (m.above (m.evaluator .exhausted d)).Yields s.frames.size
      (s.addEmptyFrame (some (s.closure c).env)).2 (.name "+") (.prim p) :=
    yields_name (hc.lookup?_add.trans hp)
  have hsum : (m.above (m.above (m.evaluator .exhausted d))).Yields s.frames.size
      (s.addEmptyFrame (some (s.closure c).env)).2 (.list [.name "+", .name "n", .int 1])
      (.int (k + 1 : Nat)) :=
    yields_operation (show (Code.name "+").IsOperator from rfl) hplus
      (.cons hn (.cons (yields_int 1) .nil)) (hadds _ _ k 1)
  rw [htop, Evaluator.body]
  exact step_assign (h.body.addFrame _) hsum hc.find?_n .tail

end Machine.MakesCounters

/-! ## What a history of calls leaves behind -/

namespace Store

/-- The counters that were made hold the numbers of their calls, in frames of their own. -/
structure CountsApart (s : Store) (g : FrameRef) (e : Value) (made calls : List ClosureRef)
    (t : Store) : Prop where
  steady : s.Steady g t
  counter : ∀ c ∈ made, t.Counter g e c (calls.count c)
  apart : ∀ c ∈ made, ∀ c' ∈ made, (t.closure c).env = (t.closure c').env → c = c'
  called : ∀ c ∈ calls, c ∈ made

namespace CountsApart

variable {s t u : Store} {g : FrameRef} {e : Value} {made calls : List ClosureRef} {c : ClosureRef}
  (h : s.CountsApart g e made calls t)

include h

theorem other (hst : t.Steady g u)
    (hframes : ∀ c ∈ made, u.frame (t.closure c).env = t.frame (t.closure c).env) :
    s.CountsApart g e made calls u where
  steady := h.steady.trans hst
  counter c hc := (h.counter c hc).steady hst ((hframes c hc).trans (h.counter c hc).frame)
  apart c hc c' hc' := by
    rw [hst.closure (h.counter c hc).exist, hst.closure (h.counter c' hc').exist]
    exact h.apart c hc c' hc'
  called := h.called

theorem make (hg : g < t.frames.size) :
    s.CountsApart g e (t.closures.size :: made) calls (t.withCounter g e) := by
  have hst := steady_withCounter hg e
  have hframes : ∀ c ∈ made,
      (t.withCounter g e).frame (t.closure c).env = t.frame (t.closure c).env := by
    intro c hc
    rw [frame_withCounter, if_neg (Nat.ne_of_lt (h.counter c hc).captured)]
  have hold := h.other hst hframes
  have hnew : ∀ c ∈ made,
      ((t.withCounter g e).closure c).env ≠ ((t.withCounter g e).closure t.closures.size).env := by
    intro c hc
    rw [hst.closure (h.counter c hc).exist, closure_withCounter]
    exact Nat.ne_of_lt (h.counter c hc).captured
  have huncalled : calls.count t.closures.size = 0 :=
    List.count_eq_zero.2 fun hm => Nat.lt_irrefl _ (h.counter _ (h.called _ hm)).exist
  refine ⟨hold.steady, fun c hc => ?_, fun c hc c' hc' heq => ?_, fun c hc => ?_⟩
  · rcases List.mem_cons.1 hc with rfl | hc
    · rw [huncalled]
      exact counter_withCounter hg e
    · exact hold.counter c hc
  · rcases List.mem_cons.1 hc with rfl | hc <;> rcases List.mem_cons.1 hc' with rfl | hc'
    · rfl
    · exact absurd heq.symm (hnew c' hc')
    · exact absurd heq (hnew c hc)
    · exact hold.apart c hc c' hc' heq
  · exact List.mem_cons_of_mem _ (h.called c hc)

theorem call (hg : g < t.frames.size) (hc : c ∈ made) :
    s.CountsApart g e made (c :: calls)
      (t.withCount (t.closure c).env (calls.count c + 1 : Nat)) := by
  have hcounter := h.counter c hc
  have hst := steady_withCount hg hcounter.captured (calls.count c + 1 : Nat)
  refine ⟨h.steady.trans hst, fun c' hc' => ?_, fun c₁ hc₁ c₂ hc₂ => ?_, fun c' hc' => ?_⟩
  · have hframe := frame_withCount (g := (t.closure c).env) (calls.count c + 1 : Nat)
      (h.counter c' hc').captured
    by_cases heq : c' = c
    · subst heq
      rw [if_pos rfl, hcounter.frame] at hframe
      rw [List.count_cons_self]
      exact hcounter.steady hst hframe
    · rw [if_neg fun henv => heq (h.apart c' hc' c hc henv)] at hframe
      rw [List.count_cons_of_ne (Ne.symm heq)]
      exact (h.counter c' hc').steady hst (hframe.trans (h.counter c' hc').frame)
  · rw [hst.closure (h.counter c₁ hc₁).exist, hst.closure (h.counter c₂ hc₂).exist]
    exact h.apart c₁ hc₁ c₂ hc₂
  · rcases List.mem_cons.1 hc' with rfl | hc'
    · exact hc
    · exact h.called c' hc'

end CountsApart

end Store

namespace Machine

variable {m : Machine} {mk : ClosureRef} {g : FrameRef} {s : Store} {e : Value}

theorem Counting.countsApart (h : m.MakesCounters s mk g e) (hs : s.Linked) (hlimit : 3 ≤ m.limit)
    (hturns : 0 < m.turns) {made calls : List ClosureRef} {t : Store}
    (history : m.Counting mk g s made calls t) : s.CountsApart g e made calls t := by
  induction history with
  | start => exact ⟨.refl g s, nofun, nofun, nofun⟩
  | @make made calls c t u before call ih =>
    have ht := h.steady hs ih.steady
    cases ht.make hturns (by omega) call
    exact ih.make ht.lt_size
  | @call made calls c v t u before mem call ih =>
    have ht := h.steady hs ih.steady
    cases ht.count hturns hlimit (ih.counter c mem) call
    exact ih.call ht.lt_size mem
  | other before steady frames ih => exact ih.other steady frames

/-- In a store where a function makes counters, whatever counters were made and called before: the
next call of the function gives a new counter, and the next call of a counter gives the number of
its calls, this one included. -/
theorem counters_count_apart (h : m.MakesCounters s mk g e) (hs : s.Linked) (hlimit : 3 ≤ m.limit)
    (hturns : 0 < m.turns) {made calls : List ClosureRef} {t : Store}
    (history : m.Counting mk g s made calls t) :
    (∀ {o}, m.Calls mk t o → ∃ c u, o = .done (.closure c) u ∧ c ∉ made)
      ∧ ∀ {c}, c ∈ made → ∀ {o}, m.Calls c t o →
        ∃ u, o = .done (.int (calls.count c + 1 : Nat)) u := by
  have hapart := history.countsApart h hs hlimit hturns
  have ht := h.steady hs hapart.steady
  refine ⟨fun {o} hcall => ?_, fun {c} hc {o} hcall => ?_⟩
  · have hnew : t.closures.size ∉ made := fun hm =>
      Nat.lt_irrefl _ (hapart.counter _ hm).exist
    exact ⟨_, _, ht.make hturns (by omega) hcall, hnew⟩
  · exact ⟨_, ht.count hturns hlimit (hapart.counter c hc) hcall⟩

/-- The function that makes counters, in a frame with `+`. -/
def making : Store where
  pairs := #[⟨.symbol "def", .pair 1⟩, ⟨.symbol "n", .pair 2⟩, ⟨.int 0, .nil⟩,
    ⟨.symbol "fn", .pair 4⟩, ⟨.vec 0, .pair 5⟩, ⟨.pair 6, .nil⟩,
    ⟨.symbol "set", .pair 7⟩, ⟨.symbol "n", .pair 8⟩, ⟨.pair 9, .nil⟩,
    ⟨.symbol "+", .pair 10⟩, ⟨.symbol "n", .pair 11⟩, ⟨.int 1, .nil⟩]
  vecs := #[#[]]
  closures := #[⟨[], [.pair 0, .pair 3], 0⟩]
  frames := #[⟨[(⟨"+"⟩, .prim ⟨0, "+", .add⟩)], none⟩]
  primitives := 1

theorem makesCounters_making : (standard 0).MakesCounters making 0 0 (.pair 6) where
  code := by
    refine ⟨.pair 0, .pair 3, .vec 0, rfl, ?_, ?_, .inr ⟨0, rfl, by decide, rfl⟩⟩
    · exact .cons (.leaf _) (.cons (.leaf _) (.cons (.leaf _) .nil))
    · exact .cons (.leaf _) (.cons (.leaf _) (.cons (.leaf _) .nil))
  body :=
    have sum : making.Denotes (.pair 9) (.list [.name "+", .name "n", .int 1]) :=
      .cons (.leaf _) (.cons (.leaf _) (.cons (.leaf _) .nil))
    .cons (.leaf _) (.cons (.leaf _) (.cons sum .nil))
  add := ⟨_, by rw [Store.lookup?_eq]; rfl, fun _ _ i j => runPrimitive_add rfl i j rfl⟩

/-- Two counters, called in turn. The last call of each is the third of one, as a list written out
for it, and the second of the other. -/
theorem counters_count_apart_making :
    ∃ c c' t, (standard 0).Counting 0 0 making [c', c] [c, c', c] t ∧ c' ≠ c
      ∧ (∃ u, (standard 0).evaluate (.pair t.pairs.size) 0 (t.addPair ⟨.closure c, .nil⟩).2
        = .done (.int 3) u)
      ∧ ∃ u, (standard 0).apply (.closure c') [] t = .done (.int 2) u := by
  have hlinked : making.Linked := .of_contents (by simp [making, Value.symbol, or_imp, forall_and])
  have hcounts {made calls : List ClosureRef} {t : Store}
      (h : (standard 0).Counting 0 0 making made calls t) :=
    counters_count_apart makesCounters_making hlinked (by decide) (by decide) h
  have hmake {made calls : List ClosureRef} {t : Store}
      (h : (standard 0).Counting 0 0 making made calls t) :
      ∃ c u, c ∉ made ∧ (standard 0).Counting 0 0 making (c :: made) calls u := by
    obtain ⟨c, u, hu, hnew⟩ := (hcounts h).1 .apply
    exact ⟨c, u, hnew, h.make (hu ▸ Calls.apply)⟩
  have hcall {made calls : List ClosureRef} {t : Store} {c : ClosureRef}
      (h : (standard 0).Counting 0 0 making made calls t) (hc : c ∈ made) :
      ∃ u, (standard 0).Counting 0 0 making made (c :: calls) u := by
    obtain ⟨u, hu⟩ := (hcounts h).2 hc .apply
    exact ⟨u, h.call hc (hu ▸ Calls.apply)⟩
  obtain ⟨c, t₁, -, h₁⟩ := hmake .start
  obtain ⟨c', t₂, hne, h₂⟩ := hmake h₁
  obtain ⟨t₃, h₃⟩ := hcall h₂ (c := c) (by simp)
  obtain ⟨t₄, h₄⟩ := hcall h₃ (c := c') (by simp)
  obtain ⟨t, h⟩ := hcall h₄ (c := c) (by simp)
  have hne : c' ≠ c := by simpa using hne
  have hthird : [c, c', c].count c + 1 = 3 := by simp [hne]
  have hsecond : [c, c', c].count c' + 1 = 2 := by simp [hne.symm]
  have hcell : (t.addPair ⟨.closure c, .nil⟩).2.pair t.pairs.size = ⟨.closure c, .nil⟩ :=
    (Store.pair_addPair ..).trans (if_pos rfl)
  have hlist : (t.addPair ⟨.closure c, .nil⟩).2.Denotes (.pair t.pairs.size)
      (.list [.leaf (.closure c)]) := by
    refine .cons ?_ ?_ <;> rw [hcell]
    · exact .leaf _
    · exact .nil
  have hwritten := h.other (.addPair 0 ⟨.closure c, .nil⟩) fun _ _ => rfl
  obtain ⟨u, hu⟩ := (hcounts hwritten).2 (c := c) (by simp)
    (.evaluate (f := 0) hlist rfl fun _ => rfl)
  obtain ⟨u', hu'⟩ := (hcounts h).2 (c := c') (by simp) .apply
  rw [hthird] at hu
  rw [hsecond] at hu'
  exact ⟨c, c', t, h, hne, ⟨u, hu⟩, u', hu'⟩

end Machine

end LispCore

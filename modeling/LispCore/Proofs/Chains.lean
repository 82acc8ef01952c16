import LispCore.Interpreter
import LispCore.Proofs.Changes
import LispCore.Proofs.Code
import LispCore.Proofs.Limits
import LispCore.Proofs.TailCalls
import LispCore.Proofs.Turns

/-!
# Chains of tail calls

The body of a function may leave a call over, the body of that call the next one, and so on. If each
of these bodies keeps to the limit on nesting, the whole chain does, however long it is
(`Machine.Leads.endsIn`), since no call waits for the next one. A function that counts down by
calling itself in tail position therefore needs one limit for all numbers
(`Store.CountsDown.leads`), although every call makes a frame.
-/

namespace LispCore

namespace Machine

section Chains

variable (m : Machine) (floor : Evaluator)

/-- The body of a call comes to a step under the machine's limit, with `floor` below it. -/
def RunsTo (c : ClosureRef) (f : FrameRef) (s : Store) (st : Step) (t : Store) : Prop :=
  m.EndsIn (fun m => (m.evaluator floor m.limit).body f .tail (s.closure c).body s) (.done st t)

/-- The body of a call comes to a value, or to another call that leads to one. -/
inductive Leads : ClosureRef → FrameRef → Store → Value → Store → Prop
  | value {c : ClosureRef} {f : FrameRef} {s t : Store} {v : Value}
    (run : m.RunsTo floor c f s (.value v) t) : Leads c f s v t
  | call {c c' : ClosureRef} {f f' : FrameRef} {s t u : Store} {v : Value}
    (run : m.RunsTo floor c f s (.call c' f') t) (next : Leads c' f' t v u) : Leads c f s v u

variable {m floor} {c : ClosureRef} {f : FrameRef} {s t u : Store} {v : Value}

/-- A call ends as what its body comes to, with as many turns as both need and one more. -/
theorem RunsTo.finish {st : Step} (h : m.RunsTo floor c f s st t)
    (hst : m.EndsIn (fun m => (m.evaluator floor m.limit).finish m.turns st t) (.done v u)) :
    m.EndsIn (fun m => (m.evaluator floor m.limit).finish m.turns (.call c f) s) (.done v u) := by
  obtain ⟨-, n, hbody⟩ := h
  obtain ⟨-, k, hfinish⟩ := hst
  let ev : Evaluator := (m.withTurns (max n k + 1)).evaluator floor m.limit
  have hbody : ev.body f .tail (s.closure c).body s = .done st t := by
    have hn := m.evaluator_turns floor (show n ≤ max n k + 1 by omega) m.limit
    exact Outcome.done_of_le ((hn.body .tail rfl (fun _ _ => trivial) trivial).le id) hbody
  have hfinish : ev.finish (max n k) st t = .done v u := by
    have hk := m.evaluator_turns floor (show k ≤ max n k + 1 by omega) m.limit
    have hturns : k ≤ max n k := Nat.le_max_right n k
    exact Outcome.done_of_le ((hk.finish hturns rfl (Simulation.equality_known t st)).le id) hfinish
  refine ⟨nofun, max n k + 1, ?_⟩
  calc ev.finish (max n k + 1) (.call c f) s
      = (ev.body f .tail (s.closure c).body >>= ev.finish (max n k)) s := Evaluator.finish_call ..
    _ = ev.finish (max n k) st t := by rw [Eval.bind_apply, hbody]
    _ = .done v u := hfinish

theorem Leads.endsIn (h : m.Leads floor c f s v t) :
    m.EndsIn (fun m => (m.evaluator floor m.limit).finish m.turns (.call c f) s) (.done v t) := by
  induction h with
  | value run => exact run.finish ⟨nofun, 0, rfl⟩
  | call run _ ih => exact run.finish ih

end Chains

end Machine

/-! ## Counting down -/

/-- `(if (= n 0) acc (loop (- n 1) (+ acc 1)))` -/
def Code.countdown : Code :=
  .form .cond [.list [.name "=", .name "n", .int 0], .name "acc", .list [.name "loop",
    .list [.name "-", .name "n", .int 1], .list [.name "+", .name "acc", .int 1]]]

/-- A name means an operation. -/
def Store.Names (s : Store) (f : FrameRef) (name : String) (op : Operation) : Prop :=
  ∃ p : Primitive, p.op = op ∧ s.lookup? f ⟨name⟩ = some (.prim p)

/-- In a frame `loop` means a function that was made there and counts down, and the operations that
it uses have their names. -/
structure Store.CountsDown (s : Store) (f : FrameRef) (c : ClosureRef) : Prop where
  loop : s.lookup? f ⟨"loop"⟩ = some (.closure c)
  closure : ∃ e, s.closure c = ⟨[⟨"n"⟩, ⟨"acc"⟩], [e], f⟩ ∧ s.Denotes e .countdown
  equal : s.Names f "=" .equal
  sub : s.Names f "-" .sub
  add : s.Names f "+" .add

/-- The store with the frame of a call of such a function. -/
def Store.calling (s : Store) (f : FrameRef) (n acc : Int) : Store :=
  (s.addFrame ⟨[(⟨"n"⟩, .int n), (⟨"acc"⟩, .int acc)], some f⟩).2

namespace Machine

variable {m : Machine} {globals : FrameRef} {ev : Evaluator} {p : Primitive} {s : Store}
  (hm : m.library = Library.standard defaultLimit globals) (i j : Int)

include hm

theorem runPrimitive_equal (hp : p.op = .equal) :
    m.runPrimitive ev p [.int i, .int j] s = .done (.bool (i == j)) s := by
  simp only [runPrimitive, hm, Library.standard, hp]
  rfl

theorem runPrimitive_sub (hp : p.op = .sub) :
    m.runPrimitive ev p [.int i, .int j] s = .done (.int (i - j)) s := by
  simp only [runPrimitive, hm, Library.standard, hp]
  rfl

theorem runPrimitive_add (hp : p.op = .add) :
    m.runPrimitive ev p [.int i, .int j] s = .done (.int (i + j)) s := by
  have hsum : i + j = 0 + i + j := by omega
  simp only [runPrimitive, hm, Library.standard, hp]
  rw [hsum]
  rfl

end Machine

namespace Store.CountsDown

variable {s : Store} {f : FrameRef} {c : ClosureRef} (h : s.CountsDown f c)

include h

theorem lt_size : f < s.frames.size := lt_of_lookup? h.loop

theorem addFrame (call : Frame) : (s.addFrame call).2.CountsDown f c := by
  have hlookup (n : Symbol) : (s.addFrame call).2.lookup? f n = s.lookup? f n :=
    lookup?_addFrame call h.lt_size
  have hnames {name : String} {op : Operation} (hop : s.Names f name op) :
      (s.addFrame call).2.Names f name op := by
    obtain ⟨p, hp, hv⟩ := hop
    exact ⟨p, hp, (hlookup _).trans hv⟩
  obtain ⟨e, hc, he⟩ := h.closure
  exact ⟨(hlookup _).trans h.loop, ⟨e, hc, he.addFrame call⟩, hnames h.equal, hnames h.sub,
    hnames h.add⟩

theorem call {i a : Int} : (s.calling f i a).CountsDown f c := h.addFrame _

variable {m : Machine} {globals : FrameRef} {ev : Evaluator}

/-- A call makes the function's frame and is left over. -/
theorem applyStep (i a : Int) :
    m.applyStep ev (.closure c) [.int i, .int a] .tail s
      = .done (.call c s.frames.size) (s.calling f i a) := by
  obtain ⟨e, hc, -⟩ := h.closure
  simp only [Machine.applyStep, enter, Eval.bind_apply, hc]
  rfl

section Call

variable (i a : Int)

theorem yields_n : (m.above ev).Yields s.frames.size (s.calling f i a) (.name "n") (.int i) := by
  refine Machine.yields_name ?_
  rw [calling, lookup?_newFrame h.lt_size]
  rfl

theorem lookup?_acc : (s.calling f i a).lookup? s.frames.size ⟨"acc"⟩ = some (.int a) := by
  rw [calling, lookup?_newFrame h.lt_size]
  rfl

theorem yields_acc : (m.above ev).Yields s.frames.size (s.calling f i a) (.name "acc") (.int a) :=
  Machine.yields_name (h.lookup?_acc i a)

/-- What is not a parameter means in a call what it means in the function's frame. -/
theorem yields_outer {n : String} {v : Value} (hv : s.lookup? f ⟨n⟩ = some v) (hn : n ≠ "n")
    (hacc : n ≠ "acc") : (m.above ev).Yields s.frames.size (s.calling f i a) (.name n) v := by
  refine Machine.yields_name ?_
  rw [calling, lookup?_newFrame h.lt_size]
  simpa [hn.symm, hacc.symm] using hv

/-- An operation on a parameter and a number has its value two levels up. -/
theorem yields_operation {n : String} {op : Operation} {c : Code} {k : Int} {u v : Value}
    (hop : s.Names f n op) (hn : n ≠ "n") (hacc : n ≠ "acc") (hc : (Code.name n).IsOperator)
    (hu : (m.above ev).Yields s.frames.size (s.calling f i a) c u)
    (hrun : ∀ p : Primitive, p.op = op → m.runPrimitive (m.above ev) p [u, .int k] (s.calling f i a)
      = .done v (s.calling f i a)) :
    (m.above (m.above ev)).Yields s.frames.size (s.calling f i a)
      (.list [.name n, c, .int k]) v := by
  obtain ⟨p, hp, hv⟩ := hop
  exact Machine.yields_operation hc (h.yields_outer i a hv hn hacc)
    (.cons hu (.cons (Machine.yields_int k) .nil)) (hrun p hp)

end Call

variable (hm : m.library = Library.standard Machine.defaultLimit globals)

include hm

/-- The body of a call gives the sum at zero, and elsewhere it leaves over the call with the next
numbers. Three levels are for the nesting of its parts, the fourth is its own. -/
theorem body (floor : Evaluator) (i a : Int) :
    (m.evaluator floor 4).body s.frames.size .tail ((s.calling f i a).closure c).body
        (s.calling f i a)
      = if i = 0 then .done (.value (.int a)) (s.calling f i a)
        else .done (.call c (s.calling f i a).frames.size)
          ((s.calling f i a).calling f (i - 1) (a + 1)) := by
  obtain ⟨e, hc, he⟩ := h.closure
  have hbody : ((s.calling f i a).closure c).body = [e] := congrArg Closure.body hc
  have hcode : (s.calling f i a).Denotes e .countdown := he.addFrame _
  have htest : (m.evaluator floor 3).Yields s.frames.size (s.calling f i a)
      (.list [.name "=", .name "n", .int 0]) (.bool (i == 0)) :=
    h.yields_operation i a h.equal (by decide) (by decide) rfl (h.yields_n i a)
      fun _ hp => Machine.runPrimitive_equal hm i 0 hp
  have hnext : (m.evaluator floor 2).Yields s.frames.size (s.calling f i a)
      (.list [.name "-", .name "n", .int 1]) (.int (i - 1)) :=
    h.yields_operation i a h.sub (by decide) (by decide) rfl (h.yields_n i a)
      fun _ hp => Machine.runPrimitive_sub hm i 1 hp
  have hsum : (m.evaluator floor 2).Yields s.frames.size (s.calling f i a)
      (.list [.name "+", .name "acc", .int 1]) (.int (a + 1)) :=
    h.yields_operation i a h.add (by decide) (by decide) rfl (h.yields_acc i a)
      fun _ hp => Machine.runPrimitive_add hm a 1 hp
  obtain ⟨e₁, e₂, he₁, he₂, hstep⟩ := Machine.step_cond (m := m) hcode htest
  have htrue : (Value.bool (i == 0)).isTrue = (i == 0) := by cases i == 0 <;> rfl
  rw [hbody, Evaluator.body, Machine.evaluator, hstep, htrue]
  by_cases hi : i = 0
  · rw [if_pos hi, if_pos (beq_iff_eq.2 hi)]
    exact Machine.step_name he₁ (h.lookup?_acc i a) .tail
  · rw [if_neg hi, if_neg (beq_iff_eq.not.2 hi)]
    have hloop : (m.evaluator floor 2).Yields s.frames.size (s.calling f i a) (.name "loop")
        (.closure c) := h.yields_outer i a h.loop (by decide) (by decide)
    calc (m.evaluator floor 3).step e₂ s.frames.size .tail (s.calling f i a)
        = m.applyStep (m.evaluator floor 2) (.closure c) [.int (i - 1), .int (a + 1)] .tail
            (s.calling f i a) :=
          Machine.step_list he₂ rfl hloop (.cons hnext (.cons hsum .nil)) .tail
      _ = _ := h.call.applyStep (i - 1) (a + 1)

omit h in
/-- Counting down leads to the sum, whatever lies below the fourth level. -/
theorem leads (floor : Evaluator) (n : Nat) : ∀ {s : Store} (a : Int), s.CountsDown f c →
    ∃ t, (m.withLimit 4).Leads floor c s.frames.size (s.calling f n a) (.int (a + n)) t := by
  have hbody {s : Store} (h : s.CountsDown f c) (i a : Int) :=
    h.body (m := (m.withLimit 4).withTurns 0) hm floor i a
  induction n with
  | zero =>
    intro s a h
    have hvalue := (hbody h 0 a).trans (if_pos rfl)
    rw [show a + (0 : Nat) = a by omega]
    exact ⟨_, .value ⟨nofun, 0, hvalue⟩⟩
  | succ n ih =>
    intro s a h
    have hcall := (hbody h (n + 1 : Nat) a).trans (if_neg (by omega))
    rw [show ((n + 1 : Nat) : Int) - 1 = n by omega] at hcall
    obtain ⟨t, ht⟩ := ih (a + 1) h.call
    rw [show a + (n + 1 : Nat) = a + 1 + n by omega]
    exact ⟨t, .call ⟨nofun, 0, hcall⟩ ht⟩

/-- A call written out counts down as well: one level is for its operands, one is its own. -/
theorem evaluate {x : Value} {n : Nat} {acc : Int}
    (hx : s.Denotes x (.list [.name "loop", .int n, .int acc])) :
    ∃ t, (m.withLimit 4).EndsIn (fun m => m.evaluate x f s) (.done (.int (acc + n)) t) := by
  obtain ⟨t, ht⟩ := leads hm .exhausted n acc h
  obtain ⟨-, k, hk⟩ := ht.endsIn
  let m' : Machine := (m.withLimit 4).withTurns k
  have hstep : m'.top.step x f .tail s = .done (.call c s.frames.size) (s.calling f n acc) :=
    (Machine.step_list hx rfl (Machine.yields_name h.loop)
      (.cons (Machine.yields_int n) (.cons (Machine.yields_int acc) .nil)) .tail).trans
      (h.applyStep n acc)
  have hfinish : m'.top.finish m'.turns (.call c s.frames.size) (s.calling f n acc)
      = .done (.int (acc + n)) t := hk
  have hcomplete : m'.top.complete m'.turns x f s = .done (.int (acc + n)) t := by
    rw [Evaluator.complete, Eval.bind_apply, hstep]
    exact hfinish
  refine ⟨t, by simp, k, ?_⟩
  show Eval.guarded m'.limit (m'.top.complete m'.turns x f) s = .done (.int (acc + n)) t
  rw [Eval.guarded, hcomplete]

end Store.CountsDown

namespace Machine

/-- Tail calls need no stack. A chain of calls keeps to the limit that each of its bodies keeps to,
however long it is; over an exhausted stack this is what `Machine.resume` does. And there is a limit
under which counting down comes to its end from every number. -/
theorem tail_calls_in_constant_stack :
    (∀ (m : Machine) (floor : Evaluator) (c : ClosureRef) (f : FrameRef) (s t : Store) (v : Value),
        m.Leads floor c f s v t →
        m.EndsIn (fun m => (m.evaluator floor m.limit).finish m.turns (.call c f) s) (.done v t))
      ∧ ∃ d, ∀ (globals f : FrameRef) (c : ClosureRef) (s : Store) (x : Value) (n : Nat)
        (acc : Int), s.CountsDown f c → s.Denotes x (.list [.name "loop", .int n, .int acc]) →
        ∃ t, ((standard globals).withLimit d).EndsIn (fun m => m.evaluate x f s)
          (.done (.int (acc + n)) t) := by
  refine ⟨fun m floor c f s t v h => h.endsIn, 4, ?_⟩
  intro globals f c s x n acc h hx
  exact h.evaluate (m := standard globals) rfl hx

/-- The counting function in a frame with its operations, and a call of it. -/
def counting : Store where
  pairs := #[⟨.symbol "if", .pair 1⟩, ⟨.pair 4, .pair 2⟩, ⟨.symbol "acc", .pair 3⟩, ⟨.pair 7, .nil⟩,
    ⟨.symbol "=", .pair 5⟩, ⟨.symbol "n", .pair 6⟩, ⟨.int 0, .nil⟩,
    ⟨.symbol "loop", .pair 8⟩, ⟨.pair 10, .pair 9⟩, ⟨.pair 13, .nil⟩,
    ⟨.symbol "-", .pair 11⟩, ⟨.symbol "n", .pair 12⟩, ⟨.int 1, .nil⟩,
    ⟨.symbol "+", .pair 14⟩, ⟨.symbol "acc", .pair 15⟩, ⟨.int 1, .nil⟩,
    ⟨.symbol "loop", .pair 17⟩, ⟨.int 2, .pair 18⟩, ⟨.int 10, .nil⟩]
  closures := #[⟨[⟨"n"⟩, ⟨"acc"⟩], [.pair 0], 0⟩]
  frames := #[⟨[(⟨"="⟩, .prim ⟨0, "=", .equal⟩), (⟨"-"⟩, .prim ⟨1, "-", .sub⟩),
    (⟨"+"⟩, .prim ⟨2, "+", .add⟩), (⟨"loop"⟩, .closure 0)], none⟩]

theorem denotes_countdown : counting.Denotes (.pair 0) .countdown :=
  have test : counting.Denotes (.pair 4) (.list [.name "=", .name "n", .int 0]) :=
    .cons (.leaf _) (.cons (.leaf _) (.cons (.leaf _) .nil))
  have next : counting.Denotes (.pair 10) (.list [.name "-", .name "n", .int 1]) :=
    .cons (.leaf _) (.cons (.leaf _) (.cons (.leaf _) .nil))
  have sum : counting.Denotes (.pair 13) (.list [.name "+", .name "acc", .int 1]) :=
    .cons (.leaf _) (.cons (.leaf _) (.cons (.leaf _) .nil))
  .cons (.leaf _) (.cons test (.cons (.leaf _)
    (.cons (.cons (.leaf _) (.cons next (.cons sum .nil))) .nil)))

theorem countsDown_counting : counting.CountsDown 0 0 where
  loop := by rw [Store.lookup?_eq]; rfl
  closure := ⟨.pair 0, rfl, denotes_countdown⟩
  equal := ⟨_, rfl, by rw [Store.lookup?_eq]; rfl⟩
  sub := ⟨_, rfl, by rw [Store.lookup?_eq]; rfl⟩
  add := ⟨_, rfl, by rw [Store.lookup?_eq]; rfl⟩

theorem leads_chained (floor : Evaluator) :
    bare.Leads floor 0 0 chained (.int 7)
      { chained with frames := #[.empty none, .empty (some 0)] } :=
  .call ⟨nofun, 1, rfl⟩ (.value ⟨nofun, 1, rfl⟩)

theorem tail_calls_in_constant_stack_counting :
    bare.Leads .exhausted 0 0 chained (.int 7)
        { chained with frames := #[.empty none, .empty (some 0)] }
      ∧ bare.EndsIn (fun m => m.resume (.call 0 0) chained)
        (.done (.int 7) { chained with frames := #[.empty none, .empty (some 0)] })
      ∧ counting.CountsDown 0 0
      ∧ ∃ d t, ((standard 0).withLimit d).EndsIn (fun m => m.evaluate (.pair 16) 0 counting)
        (.done (.int 12) t) := by
  obtain ⟨hchain, d, hcount⟩ := tail_calls_in_constant_stack
  have hcall : counting.Denotes (.pair 16) (.list [.name "loop", .int (2 : Nat), .int 10]) :=
    .cons (.leaf _) (.cons (.leaf _) (.cons (.leaf _) .nil))
  obtain ⟨t, ht⟩ := hcount 0 0 0 counting (.pair 16) 2 10 countsDown_counting hcall
  exact ⟨leads_chained .exhausted, hchain _ _ _ _ _ _ _ (leads_chained .exhausted),
    countsDown_counting, d, t, ht⟩

end Machine

end LispCore

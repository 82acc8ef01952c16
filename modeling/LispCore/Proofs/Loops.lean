import LispCore.Proofs.Calls
import LispCore.Proofs.Courses
import LispCore.Proofs.Programs

/-!
# Loops unrolled

A loop repeats its test and its body. It reads its operands once, before the first turn, while the
expression `(if c (do b ... w))`, with the loop `w` itself at the end, reads the block after the
test and the loop after the body, whatever these have done to the store. Where no primitive occurs
that writes to pairs, the code read is the same (`Store.Denotes.form_kept`), so the expression takes
the first turn and the loop the others, with the same end (`Machine.loop_unrolls`).

In both directions the runs are compared one level of evaluation after the other: what the two do in
the first turn is one `Evaluator.turn`, and the turns of the loop at the end are one fewer.
-/

namespace LispCore

/-! ## Runs that write to no pair -/

/-- Runs that write to no pair that was there. -/
def Course.pairKeeping : Course where
  barred _ := False
  rel := Store.KeepsPairs
  refl _ _ _ := rfl
  trans hle h h' _ hr := (h' (Nat.lt_of_lt_of_le hr hle.pairs)).trans (h hr)
  define _ _ _ _ _ := rfl
  assign _ _ _ _ := rfl
  lambda _ _ _ _ := rfl
  enter _ _ _ _ := rfl
  record _ _ _ _ := rfl

/-- The operation writes to a pair that it is given. -/
def Operation.WritesPairs (op : Operation) : Prop := op = .setHead ∨ op = .setTail

theorem Course.pairKeeping_allows (globals : FrameRef) :
    Course.pairKeeping.Allows (fun p => ¬p.op.WritesPairs) globals where
  addPair s c r hr := by rw [Store.pair_addPair, if_neg (Nat.ne_of_lt hr)]
  addVec _ _ _ _ := rfl
  setHead hp hop := absurd (.inl hop) hp
  setTail hp hop := absurd (.inr hop) hp
  push _ _ _ _ _ _ _ := rfl
  note _ _ _ _ := rfl
  globals _ _ := id

theorem Course.along_of_done {C : Course} {G : Primitive → Prop} {α : Type} {A : Store → α → Prop}
    {X : Store → Failure → Prop} {s t : Store} {o o' : Outcome α} {a : α}
    (h : (C.simulation G).Ends s A X o o') (ho : o = .done a t) : t.PrimsIn G ∧ C.Along s t :=
  Course.along_of_ends h (ho ▸ .done a t)

theorem Simulation.Evaluators.never {S : Simulation} : S.Evaluators .never .never where
  step _ _ _ _ := .unfinished _
  primitive _ _ _ := .unfinished _

theorem Store.Denotes.primsIn {s : Store} {G : Primitive → Prop} (hs : s.PrimsIn G) {v : Value} :
    ∀ {cs : List Code} {x : Value}, s.Denotes x (.list cs) → .leaf v ∈ cs → v.PrimsIn G
  | c :: cs, x, h, hv => by
    cases h with
    | @cons r _ _ head tail =>
      rcases List.mem_cons.1 hv with rfl | hv
      · rw [← head.eq_of_leaf]
        exact (hs.pair r).1
      · exact primsIn hs tail hv

/-! ## One turn -/

section Bind

variable {α β : Type}

/-- What follows matters only where the first part ends with a value. -/
theorem Eval.bind_congr_done {c : Eval α} {k k' : α → Eval β} {s : Store}
    (h : ∀ {a : α} {t : Store}, c s = .done a t → k a t = k' a t) :
    (c >>= k) s = (c >>= k') s := by
  simp only [Eval.bind_apply]
  rcases hc : c s with ⟨a, t⟩ | ⟨x, t⟩ | _
  · exact h hc
  · rfl
  · rfl

theorem Eval.bind_eq_done {c : Eval α} {k : α → Eval β} {s t : Store} {b : β}
    (h : (c >>= k) s = .done b t) : ∃ a u, c s = .done a u ∧ k a u = .done b t := by
  rw [Eval.bind_apply] at h
  rcases hc : c s with ⟨a, u⟩ | ⟨x, u⟩ | _ <;> rw [hc] at h
  · exact ⟨a, u, rfl, h⟩
  · cases h
  · cases h

theorem Eval.guarded_congr {c c' : Eval α} {s : Store} (limit : Nat) (h : c s = c' s) :
    Eval.guarded limit c s = Eval.guarded limit c' s := by
  simp only [Eval.guarded, h]

end Bind

namespace Evaluator

/-- One turn of a loop and what comes after it. The test is evaluated by `ev`, the body by `ev'`. -/
def turn (ev ev' : Evaluator) (f : FrameRef) (test : Value) (body : List Value)
    (rest : Eval Value) : Eval Value := do
  let c ← ev.value test f
  if c.isTrue then do
    ev'.each f body
    rest
  else pure .nil

variable {ev₁ ev₂ ev₁' ev₂' : Evaluator} {f : FrameRef} {test : Value} {body : List Value}

theorem turn_le (h₁ : ev₁ ≤ ev₁') (h₂ : ev₂ ≤ ev₂') {rest rest' : Eval Value}
    (hrest : rest ≤ rest') :
    turn ev₁ ev₂ f test body rest ≤ turn ev₁' ev₂' f test body rest' := by
  refine Eval.bind_le (value_le h₁ test f) fun c => ?_
  split
  · exact Eval.bind_le (each_le h₂ f body) fun _ => hrest
  · exact Eval.le_refl _

theorem loop_eq_turn (ev : Evaluator) (n : Nat) :
    ev.loop f test body (n + 1) = turn ev ev f test body (ev.loop f test body n) :=
  ev.loop_succ f test body n

/-- A loop comes to its end when its test gives `#F`. -/
theorem eq_nil_of_loop (ev : Evaluator) {v : Value} {t : Store} :
    ∀ {n : Nat} {s : Store}, ev.loop f test body n s = .done v t → v = .nil
  | n + 1, s, h => by
    rw [loop_succ] at h
    obtain ⟨c, t', -, h⟩ := Eval.bind_eq_done h
    split at h
    · obtain ⟨-, t'', -, h⟩ := Eval.bind_eq_done h
      exact eq_nil_of_loop ev h
    · cases h
      rfl

end Evaluator

/-! ## The two expressions -/

/-- The loop `(while test body ...)`. -/
def Code.loop (test : Value) (body : List Value) : Code :=
  .form .loop (.leaf test :: body.map .leaf)

/-- The condition `(if test (do body ... last))`. -/
def Code.unrolled (test : Value) (body : List Value) (last : Value) : Code :=
  .form .cond [.leaf test, .block (body ++ [last])]

namespace Machine

variable {m : Machine} {ev : Evaluator} {s : Store} {f : FrameRef} {test w u : Value}
  {body : List Value}

theorem step_loop (ev : Evaluator) (hw : s.Denotes w (.loop test body)) (pos : Position) :
    (m.above ev).step w f pos s
      = (ev.loop f test body m.turns >>= fun v => pure (.value v)) s := by
  obtain ⟨operands, hoperands, hstep⟩ := hw.stepWith_form
  obtain rfl : operands = test :: body := Store.Denotes.eq_of_leaves hoperands
  exact hstep m ev f pos rfl

theorem complete_loop (ev : Evaluator) (hw : s.Denotes w (.loop test body)) (n : Nat) :
    (m.above ev).complete n w f s = ev.loop f test body m.turns s := by
  rw [Evaluator.complete, Eval.bind_apply, step_loop ev hw, ← Eval.bind_apply]
  simp only [bind_assoc, pure_bind, Evaluator.finish_value, bind_pure]

theorem step_test {c : Code} (ev : Evaluator) (hu : s.Denotes u (.form .cond [.leaf test, c])) :
    ∃ e, s.Denotes e c ∧ ∀ pos, (m.above ev).step u f pos s = (do
      let v ← ev.value test f
      if v.isTrue then ev.step e f pos else pure (.value .nil)) s := by
  obtain ⟨operands, hoperands, hstep⟩ := hu.stepWith_form
  obtain _ | ⟨htest, _ | ⟨he, _ | _⟩⟩ := hoperands
  rw [htest.eq_of_leaf] at hstep
  exact ⟨_, he, fun pos => hstep m ev f pos rfl⟩

/-- The block runs the body and then the loop, if that still stands there. -/
theorem step_unrolled_block (ev : Evaluator) {e : Value} (he : s.Denotes e (.block (body ++ [w])))
    (hw : ∀ {t}, (m.above ev).each f body s = .done () t → t.Denotes w (.loop test body))
    (fin : Step → Eval Value) (hfin : ∀ v, fin (.value v) = pure v) :
    ((m.above (m.above ev)).step e f .tail >>= fin) s
      = ((m.above ev).each f body >>= fun _ => ev.loop f test body m.turns) s := by
  rw [Eval.bind_apply, step_block _ he, Evaluator.body_concat, ← Eval.bind_apply, bind_assoc]
  refine Eval.bind_congr_done fun {_ t} ht => ?_
  rw [Eval.bind_apply, step_loop ev (hw ht), ← Eval.bind_apply]
  simp only [bind_assoc, pure_bind, hfin, bind_pure]

/-- The expression takes one turn, each part of it one level below the part before, and comes to the
loop, which still stands where it stood. -/
theorem complete_unrolled {G : Primitive → Prop} (hm : m.library.KeepsTo .pairKeeping G)
    (hev : (Course.pairKeeping.simulation G).Evaluators ev ev) (hs : s.PrimsIn G)
    (hlinked : s.Linked) (hw : s.Denotes w (.loop test body))
    (hu : s.Denotes u (.unrolled test body w)) (n : Nat) :
    (m.above (m.above (m.above ev))).complete n u f s
      = Evaluator.turn (m.above (m.above ev)) (m.above ev) f test body
          (ev.loop f test body m.turns) s := by
  have hev₁ := (Course.machines hm).above hev
  have hev₂ := (Course.machines hm).above hev₁
  have hstores {t : Store} (ht : t.PrimsIn G) : (Course.pairKeeping.simulation G).stores t t :=
    ⟨⟨rfl, ht.agreement⟩, fun _ => False.elim⟩
  obtain ⟨e, he, hstep⟩ := step_test (m := m) (f := f) (m.above (m.above ev)) hu
  rw [Evaluator.complete, Eval.bind_apply, hstep, ← Eval.bind_apply, bind_assoc]
  refine Eval.bind_congr_done fun {c t} hc => ?_
  have hfin := Evaluator.finish_value (m.above (m.above (m.above ev))) n
  obtain ⟨ht, hle⟩ :=
    Course.along_of_done (hev₂.value (hstores hs) (hw.primsIn hs (by simp)) id) hc
  split
  · refine step_unrolled_block ev (he.form_kept hlinked hle.2) (fun {t'} ht' => ?_) _ hfin
    have hbody : ∀ e ∈ body, e.PrimsIn G := fun e he => hw.primsIn hs (by simp [he])
    obtain ⟨-, hle'⟩ := Course.along_of_done (hev₁.each (hstores ht) hbody id) ht'
    exact hw.form_kept hlinked (hle.trans hle').2
  · rw [pure_bind, hfin]

/-! ## What one comes to, the other comes to -/

theorem evaluateWith_le {ev' : Evaluator} (h : ev ≤ ev') (e : Value) (f : FrameRef) :
    m.evaluateWith ev e f ≤ m.evaluateWith ev' e f :=
  fun _ => Simulation.identity_ends
    ((Simulation.identity_machines m m.turns.le_refl).evaluateWith h rfl trivial trivial)

theorem evaluateWith_loop (ev : Evaluator) (hw : s.Denotes w (.loop test body)) :
    m.evaluateWith (m.above ev) w f s
      = Eval.guarded m.limit (ev.loop f test body m.turns) s :=
  Eval.guarded_congr m.limit (complete_loop ev hw m.turns)

theorem eq_nil_of_evaluate_loop (hw : s.Denotes w (.loop test body)) {v : Value} {t : Store}
    (h : m.evaluate w f s = .done v t) : v = .nil := by
  rw [evaluate, top] at h
  generalize m.limit = d at h
  cases d with
  | zero => cases h
  | succ d =>
    rw [evaluator, evaluateWith_loop _ hw, Eval.guarded] at h
    split at h
    · cases h
    · exact Evaluator.eq_nil_of_loop _ h

section Order

variable {G : Primitive → Prop} (hm : m.library.KeepsTo .pairKeeping G) (hs : s.PrimsIn G)
  (hlinked : s.Linked) (hw : s.Denotes w (.loop test body))
  (hu : s.Denotes u (.unrolled test body w)) (n d : Nat)

include hm hs hlinked hw hu

theorem evaluateWith_unrolled :
    (m.withTurns n).evaluateWith ((m.withTurns n).evaluator .never (d + 3)) u f s
      = Eval.guarded m.limit
          (Evaluator.turn ((m.withTurns n).evaluator .never (d + 2))
            ((m.withTurns n).evaluator .never (d + 1)) f test body
            (((m.withTurns n).evaluator .never d).loop f test body n)) s := by
  have hm' : (m.withTurns n).library.KeepsTo .pairKeeping G := hm
  exact Eval.guarded_congr m.limit
    (complete_unrolled hm' ((Course.machines hm').evaluator .never d) hs hlinked hw hu n)

theorem loop_le_unrolled :
    (m.withTurns n).evaluateWith ((m.withTurns n).evaluator .never d) w f s
      ≤ (m.withTurns n).evaluateWith ((m.withTurns n).evaluator .never (d + 3)) u f s := by
  have hle {d' : Nat} (hd : d ≤ d') := (m.withTurns n).evaluator_le .never hd
  refine Outcome.le_trans (evaluateWith_le (hle d.le_succ) w f s) ?_
  rw [evaluator, evaluateWith_loop _ hw, evaluateWith_unrolled hm hs hlinked hw hu]
  refine Eval.guarded_le _
    (Eval.le_trans (Evaluator.loop_le (hle d.le_refl) f test body n.le_succ) ?_) s
  rw [Evaluator.loop_eq_turn]
  exact Evaluator.turn_le (hle (by omega)) (hle (by omega)) (Eval.le_refl _)

theorem unrolled_le_loop :
    (m.withTurns n).evaluateWith ((m.withTurns n).evaluator .never d) u f s
      ≤ (m.withTurns (n + 1)).evaluateWith ((m.withTurns (n + 1)).evaluator .never (d + 3)) w f
          s := by
  have hle {d' : Nat} (hd : d' ≤ d + 2) := m.evaluator_withTurns_le .never n.le_succ hd
  refine Outcome.le_trans
    (evaluateWith_le ((m.withTurns n).evaluator_le .never (Nat.le_add_right d 3)) u f s) ?_
  have hloop : (m.withTurns (n + 1)).evaluateWith ((m.withTurns (n + 1)).evaluator .never (d + 3))
      w f s = Eval.guarded m.limit
        (((m.withTurns (n + 1)).evaluator .never (d + 2)).loop f test body (n + 1)) s :=
    evaluateWith_loop _ hw
  rw [evaluateWith_unrolled hm hs hlinked hw hu, hloop, Evaluator.loop_eq_turn]
  refine Eval.guarded_le m.limit ?_ s
  exact Evaluator.turn_le (hle (by omega)) (hle (by omega))
    (Evaluator.loop_le (hle (by omega)) f test body n.le_refl)

end Order

/-- Where no primitive occurs that writes to pairs, a loop `w` and the expression `u` that takes its
first turn and comes to `w` end alike, with the store they leave, or both go on for ever, as long as
neither comes to the end of the stack. A loop that ends with a value ends with nil. The standard
primitives but `set-head` and `set-tail` are such. -/
theorem loop_unrolls (m : Machine) {G : Primitive → Prop} {s : Store} {f : FrameRef}
    {test w u : Value} {body : List Value} (hm : m.library.KeepsTo .pairKeeping G)
    (hs : s.PrimsIn G) (hlinked : s.Linked) (hw : s.Denotes w (.loop test body))
    (hu : s.Denotes u (.unrolled test body w)) :
    (m.StaysWithinStack (fun m ev => m.evaluateWith ev w f s) →
      m.StaysWithinStack (fun m ev => m.evaluateWith ev u f s) →
      ∀ o, m.EndsIn (fun m => m.evaluate w f s) o ↔ m.EndsIn (fun m => m.evaluate u f s) o)
    ∧ (∀ {v t}, m.EndsIn (fun m => m.evaluate w f s) (.done v t) → v = .nil)
    ∧ ∀ limit globals,
      (Library.standard limit globals).KeepsTo .pairKeeping fun p => ¬p.op.WritesPairs := by
  refine ⟨fun hloop hunrolled o => ⟨?_, ?_⟩, ?_, fun limit globals => ?_⟩
  · exact EndsIn.of_le hloop hunrolled fun n =>
      ⟨n, 3, loop_le_unrolled hm hs hlinked hw hu n m.limit⟩
  · exact EndsIn.of_le hunrolled hloop fun n =>
      ⟨n + 1, 3, unrolled_le_loop hm hs hlinked hw hu n m.limit⟩
  · rintro v t ⟨-, n, hn⟩
    exact eq_nil_of_evaluate_loop hw hn
  · exact (Course.pairKeeping_allows globals).standard limit

/-- The loop `(while (< (count v) 2) (push v (cons 1 2)))` on an empty vector, and the expression
that takes its first turn. -/
def filling : Store where
  pairs := #[⟨.symbol "while", .pair 1⟩, ⟨.pair 3, .pair 2⟩, ⟨.pair 8, .nil⟩,
    ⟨.prim ⟨0, "<", .less⟩, .pair 4⟩, ⟨.pair 6, .pair 5⟩, ⟨.int 2, .nil⟩,
    ⟨.prim ⟨1, "count", .count⟩, .pair 7⟩, ⟨.vec 0, .nil⟩,
    ⟨.prim ⟨2, "push", .push⟩, .pair 9⟩, ⟨.vec 0, .pair 10⟩, ⟨.pair 11, .nil⟩,
    ⟨.prim ⟨3, "cons", .cons⟩, .pair 12⟩, ⟨.int 1, .pair 13⟩, ⟨.int 2, .nil⟩,
    ⟨.symbol "if", .pair 15⟩, ⟨.pair 3, .pair 16⟩, ⟨.pair 17, .nil⟩,
    ⟨.symbol "do", .pair 18⟩, ⟨.pair 8, .pair 19⟩, ⟨.pair 0, .nil⟩]
  vecs := #[#[]]
  frames := #[.empty none]
  primitives := 4

/-- The store after the two turns that there are. -/
def filled : Store :=
  { filling with
    pairs := filling.pairs ++ #[⟨.int 1, .int 2⟩, ⟨.int 1, .int 2⟩]
    vecs := #[#[.pair 20, .pair 21]] }

def shallow : Machine := ⟨.standard 6 0, 6, 6, 6⟩

theorem loop_filling :
    shallow.StaysWithinStack fun m ev => m.evaluateWith ev (.pair 0) 0 filling := by
  refine .of_forall ?_
  rintro (_ | _ | _ | n)
  · exact ⟨.unfinished, fun floor => rfl⟩
  · exact ⟨.unfinished, fun floor => rfl⟩
  · exact ⟨.unfinished, fun floor => rfl⟩
  · exact ⟨.done .nil filled, fun floor => rfl⟩

theorem unrolled_filling :
    shallow.StaysWithinStack fun m ev => m.evaluateWith ev (.pair 14) 0 filling := by
  refine .of_forall ?_
  rintro (_ | _ | n)
  · exact ⟨.unfinished, fun floor => rfl⟩
  · exact ⟨.unfinished, fun floor => rfl⟩
  · exact ⟨.done .nil filled, fun floor => rfl⟩

theorem primsIn_filling : filling.PrimsIn fun p => ¬p.op.WritesPairs := by
  refine .of_contents ?_ ?_ ?_ ?_ <;>
    simp [filling, Value.PrimsIn, Value.symbol, Operation.WritesPairs, Frame.empty]

/-- The unrolled expression fills the vector as the loop does. -/
theorem loop_unrolls_filling :
    shallow.EndsIn (fun m => m.evaluate (.pair 0) 0 filling) (.done .nil filled)
      ∧ shallow.EndsIn (fun m => m.evaluate (.pair 14) 0 filling) (.done .nil filled) := by
  have hlinked : filling.Linked :=
    .of_contents (by simp [filling, Value.symbol, or_imp, forall_and])
  have hw : filling.Denotes (.pair 0) (.loop (.pair 3) [.pair 8]) :=
    .cons (.leaf _) (.cons (.leaf _) (.cons (.leaf _) .nil))
  have hu : filling.Denotes (.pair 14) (.unrolled (.pair 3) [.pair 8] (.pair 0)) :=
    .cons (.leaf _) (.cons (.leaf _) (.cons
      (.cons (.leaf _) (.cons (.leaf _) (.cons (.leaf _) .nil))) .nil))
  have hloop : shallow.EndsIn (fun m => m.evaluate (.pair 0) 0 filling) (.done .nil filled) :=
    ⟨fun h => (by cases h), 3, rfl⟩
  obtain ⟨hagree, -, -⟩ := shallow.loop_unrolls (f := 0)
    ((Course.pairKeeping_allows 0).standard 6) primsIn_filling hlinked hw hu
  exact ⟨hloop, (hagree loop_filling unrolled_filling _).1 hloop⟩

end Machine

end LispCore

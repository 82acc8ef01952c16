import LispCore.Proofs.Courses
import LispCore.Proofs.Names
import Mathlib.Logic.Relation

/-!
# Nothing is undone

What a run has bound or recorded stays bound and recorded, and nothing that was there before it is
taken back: not when an operand, a loop or a function's body fails in the middle, and not when the
stack is exhausted. So a name that once meant something in a frame means something there ever after
(`Machine.evaluations_undo_nothing`).
-/

namespace LispCore

namespace Store

/-- What was bound is bound, and what was recorded is recorded, in the order it was. -/
structure Kept (s t : Store) : Prop where
  binds : ∀ {f : FrameRef} {n : Symbol}, (s.frame f).binds n = true → (t.frame f).binds n = true
  effects : s.effects.toList <+: t.effects.toList
  log : s.log.toList <+: t.log.toList

namespace Kept

variable {s t u : Store}

/-- A change that leaves frames and records alone. -/
theorem of_eq (hf : t.frames = s.frames) (he : t.effects = s.effects) (hl : t.log = s.log) :
    s.Kept t where
  binds h := by simpa only [Store.frame, hf] using h
  effects := he ▸ List.prefix_rfl
  log := hl ▸ List.prefix_rfl

theorem refl (s : Store) : s.Kept s := of_eq rfl rfl rfl

theorem trans (h : s.Kept t) (h' : t.Kept u) : s.Kept u where
  binds hb := h'.binds (h.binds hb)
  effects := h.effects.trans h'.effects
  log := h.log.trans h'.log

variable (s)

theorem bind (f : FrameRef) (n : Symbol) (v : Value) : s.Kept (s.bind f n v) where
  binds := binds_bind _ _
  effects := List.prefix_rfl
  log := List.prefix_rfl

theorem addFrame (call : Frame) : s.Kept (s.addFrame call).2 where
  binds {f n} h := by
    rw [frame_addFrame, if_neg (Nat.ne_of_lt (lt_of_binds h))]
    exact h
  effects := List.prefix_rfl
  log := List.prefix_rfl

theorem note (d : Datum) : s.Kept (s.note d) where
  binds h := h
  effects := by simp [Store.note]
  log := List.prefix_rfl

theorem record (r : LogRecord) : s.Kept (s.record r) where
  binds h := h
  effects := List.prefix_rfl
  log := by simp [Store.record]

end Kept

variable {s t : Store} {f : FrameRef} {n : Symbol}

theorem Extended.chain_eq (h : s.Extended t) (hf : f < s.frames.size) : t.chain f = s.chain f := by
  refine chain_congr f fun g hg => ?_
  rw [outer?, outer?, h.outer (Nat.lt_of_le_of_lt hg hf)]

theorem lt_of_find? {g : FrameRef} (h : s.find? f n = some g) : f < s.frames.size := by
  have hsome : (s.lookup? f n).isSome = true := by rw [isSome_lookup?, h, Option.isSome_some]
  obtain ⟨v, hv⟩ := Option.isSome_iff_exists.1 hsome
  exact lt_of_lookup? hv

/-- A name that means something in a frame goes on to mean something there. -/
theorem Kept.find?_isSome (hle : s.Extended t) (h : s.Kept t)
    (hn : (s.find? f n).isSome = true) : (t.find? f n).isSome = true := by
  obtain ⟨g, hg⟩ := Option.isSome_iff_exists.1 hn
  obtain ⟨hb, near, far, hchain, -⟩ := find?_eq_some_iff.1 hg
  rcases ht : t.find? f n with _ | g'
  · -- The frame that bound the name is still on the way outward, and binds it still.
    have hmem : g ∈ t.chain f := by simp [hle.chain_eq (lt_of_find? hg), hchain]
    have hno := find?_eq_none_iff.1 ht g hmem
    rw [h.binds hb] at hno
    cases hno
  · rfl

end Store

/-- Runs of any primitives, in any frames. -/
def Course.growth : Course where
  barred _ := False
  rel := Store.Kept
  refl := .refl
  trans _ := .trans
  define {s f} n v _ := .bind s f n v
  assign {s f n} v _ := .bind s f n v
  lambda _ _ := .of_eq rfl rfl rfl
  enter {s} call _ := .addFrame s call
  record := .record

theorem Course.growth_allows (G : Primitive → Prop) (globals : FrameRef) :
    Course.growth.Allows G globals where
  addPair _ _ := .of_eq rfl rfl rfl
  addVec _ _ := .of_eq rfl rfl rfl
  setHead _ _ _ _ _ := .of_eq rfl rfl rfl
  setTail _ _ _ _ _ := .of_eq rfl rfl rfl
  push _ _ _ _ _ := .of_eq rfl rfl rfl
  note := .note
  globals _ _ := id

namespace Machine

variable {m : Machine} {limit : Nat} {globals : FrameRef} {s t : Store}

theorem evaluate_along_growth (hm : m.library = Library.standard limit globals) {e : Value}
    {f : FrameRef} (ht : (m.evaluate e f s).Leaves t) : Course.growth.Along s t := by
  have hkeeps : m.library.KeepsTo Course.growth fun _ => True := by
    rw [hm]
    exact (Course.growth_allows _ globals).standard limit
  exact (Course.evaluate hkeeps s.primsIn_true (fun _ => False.elim) e.primsIn_true id ht).2

/-- A name evaluates to what it means, if there is room on the stack for one evaluation. -/
theorem evaluate_name {f : FrameRef} {n : Symbol} {v : Value} (h : s.lookup? f n = some v) :
    m.evaluate (.sym n) f s = .done v s
      ∨ m.evaluate (.sym n) f s = .raised (.recursionLimit m.limit) s := by
  rcases hl : m.limit with _ | d
  · right
    simp only [evaluate, evaluateWith, top, hl, evaluator]
    rfl
  · left
    have hstep : m.top.step (.sym n) f .tail s = .done (.value v) s := by
      simp only [top, hl, evaluator, above, stepWith, h]
    simp only [evaluate, evaluateWith, Eval.guarded, Evaluator.complete, Eval.bind_apply, hstep,
      Evaluator.finish_value]
    rfl

/-- One evaluation after another leads from `s` to `t`, however each of them ends. -/
def Evaluations (m : Machine) : Store → Store → Prop :=
  Relation.ReflTransGen fun s t => ∃ e f, (m.evaluate e f s).Leaves t

theorem Evaluations.along_growth (hm : m.library = Library.standard limit globals)
    (h : m.Evaluations s t) : Course.growth.Along s t := by
  induction h with
  | refl => exact .refl s
  | tail _ hlast ih =>
    obtain ⟨e, f, ht⟩ := hlast
    exact ih.trans (evaluate_along_growth hm ht)

/-- Evaluations undo nothing, whatever they end with. Objects stay, frames lead where they led,
closures are what they were, what was bound is bound and what was recorded is recorded. A name that
was visible from a frame can be looked up and assigned from there ever after, and an evaluation of
it does not fail for want of a binding. -/
theorem evaluations_undo_nothing (hm : m.library = Library.standard limit globals)
    (h : m.Evaluations s t) :
    s.Extended t ∧ s.Kept t ∧ ∀ (f : FrameRef) (n : Symbol), s.contains f (.sym n) = true →
      (∀ depth, ∃ v, t.lookup depth f (.sym n) = .ok v)
        ∧ (∀ depth v, ∃ u, Store.assign depth f (.sym n) v t = .done () u)
        ∧ ∀ u, m.evaluate (.sym n) f t ≠ .raised (.unbound (.sym n) n.name) u := by
  obtain ⟨hle, hkept⟩ := h.along_growth hm
  refine ⟨hle, hkept, fun f n hn => ?_⟩
  have hfind : (t.find? f n).isSome = true := hkept.find?_isSome hle hn
  refine ⟨fun depth => (Store.contains_iff_lookup f n).1 hfind, fun depth v => ?_, fun u hu => ?_⟩
  · obtain ⟨g, hg⟩ := Option.isSome_iff_exists.1 hfind
    rw [Store.assign_sym, hg]
    exact ⟨_, rfl⟩
  · rw [← Store.isSome_lookup?] at hfind
    obtain ⟨v, hv⟩ := Option.isSome_iff_exists.1 hfind
    rcases m.evaluate_name hv with heq | heq <;> rw [heq] at hu <;> cases hu

/-- A function, the vector that its parameters were read from, and the code
`(do (push params 1) (note 2) (f))`, which calls the function without an argument. -/
def repushed : Store where
  pairs := #[⟨.symbol "do", .pair 1⟩, ⟨.pair 4, .pair 2⟩, ⟨.pair 7, .pair 3⟩, ⟨.pair 9, .nil⟩,
    ⟨.prim ⟨0, "push", .push⟩, .pair 5⟩, ⟨.vec 0, .pair 6⟩, ⟨.int 1, .nil⟩,
    ⟨.prim ⟨1, "note", .note⟩, .pair 8⟩, ⟨.int 2, .nil⟩, ⟨.closure 0, .nil⟩]
  vecs := #[#[.symbol "a"]]
  closures := #[⟨[⟨"a"⟩], [.symbol "a"], 0⟩]
  frames := #[⟨[(⟨"a"⟩, .int 5)], none⟩]
  primitives := 2
  effects := #[.int 0]

/-- The call fails. The vector has another element and the note is there, but the function has the
parameter it had. -/
theorem evaluations_undo_nothing_repushed :
    ∃ t, (Machine.mk (.standard 9 0) 9 9 9).evaluate (.pair 0) 0 repushed = .raised (.arity 1 0) t
      ∧ t.vec 0 = #[.symbol "a", .int 1] ∧ t.effects = #[.int 0, .int 2]
      ∧ t.closure 0 = repushed.closure 0 ∧ repushed.effects.toList <+: t.effects.toList
      ∧ ∃ v, t.lookup 9 0 (.symbol "a") = .ok v := by
  obtain ⟨t, ht, hv, he⟩ : ∃ t,
      (Machine.mk (.standard 9 0) 9 9 9).evaluate (.pair 0) 0 repushed = .raised (.arity 1 0) t
        ∧ t.vec 0 = #[.symbol "a", .int 1] ∧ t.effects = #[.int 0, .int 2] := ⟨_, rfl, rfl, rfl⟩
  have hvisible : repushed.contains 0 (.symbol "a") = true := by
    change (repushed.find? 0 ⟨"a"⟩).isSome = true
    rw [Store.find?_eq]
    rfl
  have hleaves : ((Machine.mk (.standard 9 0) 9 9 9).evaluate (.pair 0) 0 repushed).Leaves t := by
    rw [ht]
    exact .raised _ t
  obtain ⟨hle, hkept, hnames⟩ := evaluations_undo_nothing rfl (.single ⟨.pair 0, 0, hleaves⟩)
  exact ⟨t, ht, hv, he, hle.closure (by decide), hkept.effects, (hnames 0 ⟨"a"⟩ hvisible).1 9⟩

end Machine

end LispCore

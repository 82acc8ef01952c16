import LispCore.Proofs.Courses

/-!
# Runs that write to no data

Code and data are the same pairs and vectors, and operands, parameter lists, quoted values and
bodies are handed around by reference. The evaluator only reads them. So where no primitive that
writes to pairs or vectors occurs, a run leaves all of them as they were; bindings, records and new
objects are all that differs afterwards (`Machine.runs_spare_data`).
-/

namespace LispCore

namespace Store

/-- Pairs and vectors hold what they held, no primitive was made and no expression traced. -/
structure Spared (s t : Store) : Prop where
  pair : ∀ {r : PairRef}, r < s.pairs.size → t.pair r = s.pair r
  vec : ∀ {r : VecRef}, r < s.vecs.size → t.vec r = s.vec r
  primitives : t.primitives = s.primitives
  trace : t.trace = s.trace

namespace Spared

variable {s t u : Store}

theorem of_eq (hp : t.pairs = s.pairs) (hv : t.vecs = s.vecs)
    (hprims : t.primitives = s.primitives) (htrace : t.trace = s.trace) : s.Spared t where
  pair _ := by simp only [Store.pair, hp]
  vec _ := by simp only [Store.vec, hv]
  primitives := hprims
  trace := htrace

theorem trans (hle : s.Extended t) (h : s.Spared t) (h' : t.Spared u) : s.Spared u where
  pair hr := (h'.pair (Nat.lt_of_lt_of_le hr hle.pairs)).trans (h.pair hr)
  vec hr := (h'.vec (Nat.lt_of_lt_of_le hr hle.vecs)).trans (h.vec hr)
  primitives := h'.primitives.trans h.primitives
  trace := h'.trace.trans h.trace

theorem addPair (s : Store) (c : Cell) : s.Spared (s.addPair c).2 where
  pair hr := by rw [pair_addPair, if_neg (Nat.ne_of_lt hr)]
  vec _ := rfl
  primitives := rfl
  trace := rfl

theorem addVec (s : Store) (items : Array Value) : s.Spared (s.addVec items).2 where
  pair _ := rfl
  vec hr := by rw [vec_addVec, if_neg (Nat.ne_of_lt hr)]
  primitives := rfl
  trace := rfl

end Spared

end Store

/-- Runs that write to no pair and no vector that was there. -/
def Course.sparing : Course where
  barred _ := False
  rel := Store.Spared
  refl _ := .of_eq rfl rfl rfl rfl
  trans := .trans
  define _ _ _ := .of_eq rfl rfl rfl rfl
  assign _ _ := .of_eq rfl rfl rfl rfl
  lambda _ _ := .of_eq rfl rfl rfl rfl
  enter _ _ := .of_eq rfl rfl rfl rfl
  record _ _ := .of_eq rfl rfl rfl rfl

/-- The operation writes to a pair or a vector that it is given. -/
def Operation.Writes (op : Operation) : Prop := op = .setHead ∨ op = .setTail ∨ op = .push

theorem Course.sparing_allows (globals : FrameRef) :
    Course.sparing.Allows (fun p => ¬p.op.Writes) globals where
  addPair := .addPair
  addVec := .addVec
  setHead hp hop := absurd (.inl hop) hp
  setTail hp hop := absurd (.inr (.inl hop)) hp
  push hp hop := absurd (.inr (.inr hop)) hp
  note _ _ := .of_eq rfl rfl rfl rfl
  globals _ _ := id

namespace Machine

variable {m : Machine} {G : Primitive → Prop} {s : Store}

/-- Where only primitives occur that write to no pair and no vector, evaluation and application
write to none either, whatever they end with: only bindings, records and new objects differ. The
standard primitives but `set-head`, `set-tail` and `push` are such. -/
theorem runs_spare_data (h : m.library.KeepsTo .sparing G) (hs : s.PrimsIn G) :
    (∀ (e : Value) (f : FrameRef) (t : Store), e.PrimsIn G → (m.evaluate e f s).Leaves t →
      s.Extended t ∧ s.Spared t)
    ∧ (∀ (fn : Value) (args : List Value) (t : Store), fn.PrimsIn G → (∀ a ∈ args, a.PrimsIn G) →
      (m.apply fn args s).Leaves t → s.Extended t ∧ s.Spared t)
    ∧ ∀ limit globals,
      (Library.standard limit globals).KeepsTo .sparing fun p => ¬p.op.Writes := by
  have hfree : Course.sparing.Guards s := fun _ => False.elim
  refine ⟨fun e f t he ht => ?_, fun fn args t hfn ha ht => ?_, fun limit globals => ?_⟩
  · exact (Course.evaluate h hs hfree he id ht).2
  · exact (Course.apply h hs hfree hfn ha ht).2
  · exact (Course.sparing_allows globals).standard limit

/-- The code `(do (def x (cons 1 '(2))) (note 5) ((fn [a] a)))`, whose last form calls a function
without an argument. -/
def consing : Store where
  pairs := #[⟨.symbol "do", .pair 1⟩, ⟨.pair 4, .pair 2⟩, ⟨.pair 13, .pair 3⟩, ⟨.pair 15, .nil⟩,
    ⟨.symbol "def", .pair 5⟩, ⟨.symbol "x", .pair 6⟩, ⟨.pair 7, .nil⟩,
    ⟨.prim ⟨0, "cons", .cons⟩, .pair 8⟩, ⟨.int 1, .pair 9⟩, ⟨.pair 10, .nil⟩,
    ⟨.symbol "quote", .pair 11⟩, ⟨.pair 12, .nil⟩, ⟨.int 2, .nil⟩,
    ⟨.prim ⟨1, "note", .note⟩, .pair 14⟩, ⟨.int 5, .nil⟩,
    ⟨.pair 16, .nil⟩, ⟨.symbol "fn", .pair 17⟩, ⟨.vec 0, .pair 18⟩, ⟨.symbol "a", .nil⟩]
  vecs := #[#[.symbol "a"]]
  frames := #[.empty none]
  primitives := 2

theorem primsIn_consing : consing.PrimsIn fun p => ¬p.op.Writes := by
  refine .of_contents ?_ ?_ ?_ ?_ <;>
    simp [consing, Value.PrimsIn, Value.symbol, Operation.Writes, Frame.empty]

/-- The list that was quoted is the tail of a new pair now, and holds what it held. -/
theorem runs_spare_data_consing :
    ∃ t, (Machine.mk (.standard 9 0) 9 9 9).evaluate (.pair 0) 0 consing = .raised (.arity 1 0) t
      ∧ (t.frame 0).get? ⟨"x"⟩ = some (.pair 19) ∧ t.pair 19 = ⟨.int 1, .pair 12⟩
      ∧ t.effects = #[.int 5] ∧ t.pair 12 = consing.pair 12 ∧ t.vec 0 = consing.vec 0
      ∧ t.primitives = 2 := by
  obtain ⟨t, ht, hx, hnew, he⟩ : ∃ t,
      (Machine.mk (.standard 9 0) 9 9 9).evaluate (.pair 0) 0 consing = .raised (.arity 1 0) t
        ∧ (t.frame 0).get? ⟨"x"⟩ = some (.pair 19) ∧ t.pair 19 = ⟨.int 1, .pair 12⟩
        ∧ t.effects = #[.int 5] := ⟨_, rfl, rfl, rfl, rfl⟩
  have hleaves : ((Machine.mk (.standard 9 0) 9 9 9).evaluate (.pair 0) 0 consing).Leaves t := by
    rw [ht]
    exact .raised _ t
  obtain ⟨-, hspared⟩ := (runs_spare_data ((Course.sparing_allows 0).standard 9) primsIn_consing).1
    (.pair 0) 0 t trivial hleaves
  exact ⟨t, ht, hx, hnew, he, hspared.pair (by decide), hspared.vec (by decide),
    hspared.primitives⟩

end Machine

end LispCore

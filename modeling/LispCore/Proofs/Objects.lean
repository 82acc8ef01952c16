import LispCore.Proofs.Changes

/-!
# Objects of a store

Pairs, vectors, closures and frames under one name, what it means that two stores hold the same
there, and which of them a run has made. A change touches the one object it is made to, and a new
object has the next number of its kind.
-/

namespace LispCore

/-- What code can refer to. -/
inductive Object
  | value (v : Value)
  | frame (f : FrameRef)

namespace Object

/-- Two stores hold the same there. There is nothing to hold for most values. -/
def Same (s t : Store) : Object → Prop
  | .value (.pair r) => s.pair r = t.pair r
  | .value (.vec r) => s.vec r = t.vec r
  | .value (.closure r) => s.closure r = t.closure r
  | .value _ => True
  | .frame f => s.frame f = t.frame f

/-- Allocated between the store `s` and the later store `t`. -/
def New (s t : Store) : Object → Prop
  | .value (.pair r) => s.pairs.size ≤ r ∧ r < t.pairs.size
  | .value (.vec r) => s.vecs.size ≤ r ∧ r < t.vecs.size
  | .value (.closure r) => s.closures.size ≤ r ∧ r < t.closures.size
  | .value _ => False
  | .frame f => s.frames.size ≤ f ∧ f < t.frames.size

end Object

namespace Store

/-- As many objects of each kind. -/
structure SameCounts (s t : Store) : Prop where
  pairs : s.pairs.size = t.pairs.size
  vecs : s.vecs.size = t.vecs.size
  closures : s.closures.size = t.closures.size
  frames : s.frames.size = t.frames.size

/-- No fewer objects of any kind. -/
structure Grown (s t : Store) : Prop where
  pairs : s.pairs.size ≤ t.pairs.size
  vecs : s.vecs.size ≤ t.vecs.size
  closures : s.closures.size ≤ t.closures.size
  frames : s.frames.size ≤ t.frames.size

theorem Grown.refl (s : Store) : s.Grown s :=
  ⟨Nat.le_refl _, Nat.le_refl _, Nat.le_refl _, Nat.le_refl _⟩

theorem Grown.trans {s t u : Store} (h : s.Grown t) (h' : t.Grown u) : s.Grown u :=
  ⟨Nat.le_trans h.pairs h'.pairs, Nat.le_trans h.vecs h'.vecs,
    Nat.le_trans h.closures h'.closures, Nat.le_trans h.frames h'.frames⟩

theorem Grown.addPair (s : Store) (c : Cell) : s.Grown (s.addPair c).2 :=
  ⟨by simp [Store.addPair], Nat.le_refl _, Nat.le_refl _, Nat.le_refl _⟩

theorem Grown.addVec (s : Store) (items : Array Value) : s.Grown (s.addVec items).2 :=
  ⟨Nat.le_refl _, by simp [Store.addVec], Nat.le_refl _, Nat.le_refl _⟩

theorem Grown.addClosure (s : Store) (c : Closure) : s.Grown (s.addClosure c).2 :=
  ⟨Nat.le_refl _, Nat.le_refl _, by simp [Store.addClosure], Nat.le_refl _⟩

theorem Grown.addFrame (s : Store) (f : Frame) : s.Grown (s.addFrame f).2 :=
  ⟨Nat.le_refl _, Nat.le_refl _, Nat.le_refl _, by simp [Store.addFrame]⟩

theorem SameCounts.grown {s t : Store} (h : s.SameCounts t) : s.Grown t :=
  ⟨Nat.le_of_eq h.pairs, Nat.le_of_eq h.vecs, Nat.le_of_eq h.closures, Nat.le_of_eq h.frames⟩

end Store

namespace Object

variable {s t u : Store} {o : Object}

theorem Same.refl : ∀ o : Object, o.Same s s
  | .value v => by cases v <;> first | rfl | trivial
  | .frame _ => rfl

theorem Same.trans (h : o.Same s t) (h' : o.Same t u) : o.Same s u := by
  rcases o with v | f
  · cases v <;> first | exact Eq.trans h h' | trivial
  · exact Eq.trans h h'

theorem New.mono {s₀ : Store} (hle : s.Grown t) (h : o.New s₀ s) : o.New s₀ t := by
  rcases o with v | f
  · cases v with
    | pair r => exact ⟨h.1, Nat.lt_of_lt_of_le h.2 hle.pairs⟩
    | vec r => exact ⟨h.1, Nat.lt_of_lt_of_le h.2 hle.vecs⟩
    | closure r => exact ⟨h.1, Nat.lt_of_lt_of_le h.2 hle.closures⟩
    | _ => exact h.elim
  · exact ⟨h.1, Nat.lt_of_lt_of_le h.2 hle.frames⟩

theorem Same.intro (hp : ∀ r, o = .value (.pair r) → s.pair r = t.pair r)
    (hv : ∀ r, o = .value (.vec r) → s.vec r = t.vec r)
    (hc : ∀ r, o = .value (.closure r) → s.closure r = t.closure r)
    (hf : ∀ f, o = .frame f → s.frame f = t.frame f) : o.Same s t := by
  rcases o with v | f
  · cases v with
    | pair r => exact hp r rfl
    | vec r => exact hv r rfl
    | closure r => exact hc r rfl
    | _ => trivial
  · exact hf f rfl

/-! What a change leaves as it is. -/

theorem same_setHead {r : PairRef} (v : Value) (ho : o ≠ .value (.pair r)) :
    o.Same s (s.setHead r v) := by
  refine .intro (fun q hq => ?_) (fun _ _ => rfl) (fun _ _ => rfl) fun _ _ => rfl
  rw [Store.pair_setHead, if_neg]
  rintro ⟨rfl, -⟩
  exact ho hq

theorem same_setTail {r : PairRef} (v : Value) (ho : o ≠ .value (.pair r)) :
    o.Same s (s.setTail r v) := by
  refine .intro (fun q hq => ?_) (fun _ _ => rfl) (fun _ _ => rfl) fun _ _ => rfl
  rw [Store.pair_setTail, if_neg]
  rintro ⟨rfl, -⟩
  exact ho hq

theorem same_push {r : VecRef} (v : Value) (ho : o ≠ .value (.vec r)) :
    o.Same s (s.push r v) := by
  refine .intro (fun _ _ => rfl) (fun q hq => ?_) (fun _ _ => rfl) fun _ _ => rfl
  rw [Store.vec_push, if_neg]
  rintro ⟨rfl, -⟩
  exact ho hq

theorem same_bind {g : FrameRef} (n : Symbol) (v : Value) (ho : o ≠ .frame g) :
    o.Same s (s.bind g n v) := by
  refine .intro (fun _ _ => rfl) (fun _ _ => rfl) (fun _ _ => rfl) fun f hf => ?_
  rw [Store.frame_bind, if_neg]
  rintro ⟨rfl, -⟩
  exact ho hf

theorem same_addPair (c : Cell) (ho : o ≠ .value (.pair s.pairs.size)) :
    o.Same s (s.addPair c).2 := by
  refine .intro (fun q hq => ?_) (fun _ _ => rfl) (fun _ _ => rfl) fun _ _ => rfl
  rw [Store.pair_addPair, if_neg]
  rintro rfl
  exact ho hq

theorem same_addVec (items : Array Value) (ho : o ≠ .value (.vec s.vecs.size)) :
    o.Same s (s.addVec items).2 := by
  refine .intro (fun _ _ => rfl) (fun q hq => ?_) (fun _ _ => rfl) fun _ _ => rfl
  rw [Store.vec_addVec, if_neg]
  rintro rfl
  exact ho hq

theorem same_addClosure (c : Closure) (ho : o ≠ .value (.closure s.closures.size)) :
    o.Same s (s.addClosure c).2 := by
  refine .intro (fun _ _ => rfl) (fun _ _ => rfl) (fun q hq => ?_) fun _ _ => rfl
  rw [Store.closure_addClosure, if_neg]
  rintro rfl
  exact ho hq

theorem same_addFrame (call : Frame) (ho : o ≠ .frame s.frames.size) :
    o.Same s (s.addFrame call).2 := by
  refine .intro (fun _ _ => rfl) (fun _ _ => rfl) (fun _ _ => rfl) fun f hf => ?_
  rw [Store.frame_addFrame, if_neg]
  rintro rfl
  exact ho hf

/-! What is new after one more object. -/

theorem within_succ {lo n : Nat} (h : lo ≤ n) (r : Nat) :
    lo ≤ r ∧ r < n + 1 ↔ (lo ≤ r ∧ r < n) ∨ r = n := by omega

theorem new_addPair {s₀ : Store} (c : Cell) (hle : s₀.Grown s) :
    o.New s₀ (s.addPair c).2 ↔ o.New s₀ s ∨ o = .value (.pair s.pairs.size) := by
  rcases o with v | f
  · cases v with
    | pair r =>
      simp only [New, Store.addPair, Array.size_push, value.injEq, Value.pair.injEq]
      exact within_succ hle.pairs r
    | _ => simp [New, Store.addPair]
  · simp [New, Store.addPair]

theorem new_addVec {s₀ : Store} (items : Array Value) (hle : s₀.Grown s) :
    o.New s₀ (s.addVec items).2 ↔ o.New s₀ s ∨ o = .value (.vec s.vecs.size) := by
  rcases o with v | f
  · cases v with
    | vec r =>
      simp only [New, Store.addVec, Array.size_push, value.injEq, Value.vec.injEq]
      exact within_succ hle.vecs r
    | _ => simp [New, Store.addVec]
  · simp [New, Store.addVec]

theorem new_addClosure {s₀ : Store} (c : Closure) (hle : s₀.Grown s) :
    o.New s₀ (s.addClosure c).2 ↔ o.New s₀ s ∨ o = .value (.closure s.closures.size) := by
  rcases o with v | f
  · cases v with
    | closure r =>
      simp only [New, Store.addClosure, Array.size_push, value.injEq, Value.closure.injEq]
      exact within_succ hle.closures r
    | _ => simp [New, Store.addClosure]
  · simp [New, Store.addClosure]

theorem new_addFrame {s₀ : Store} (call : Frame) (hle : s₀.Grown s) :
    o.New s₀ (s.addFrame call).2 ↔ o.New s₀ s ∨ o = .frame s.frames.size := by
  rcases o with v | f
  · cases v <;> simp [New, Store.addFrame]
  · simp only [New, Store.addFrame, Array.size_push, frame.injEq]
    exact within_succ hle.frames f
end Object

end LispCore

import LispCore.Proofs.Agreement

/-!
# Changes of stores that agree

What a store holds after each change that a run makes, and that stores which agree still do so after
the same change in both. A change in place puts known values where it likes; a new object of known
content may become known.
-/

namespace LispCore

theorem getD_push {α : Type} (xs : Array α) (a d : α) (i : Nat) :
    (xs.push a).getD i d = if i = xs.size then a else xs.getD i d := by
  simp only [Array.getD_eq_getD_getElem?, Array.getElem?_push]
  split <;> rfl

theorem getD_modify {α : Type} (xs : Array α) (g : α → α) (d : α) (i j : Nat) :
    (xs.modify i g).getD j d = if i = j ∧ j < xs.size then g (xs.getD j d) else xs.getD j d := by
  simp only [Array.getD_eq_getD_getElem?, Array.getElem?_modify]
  by_cases hj : j < xs.size
  · split <;> simp_all
  · rw [Array.getElem?_eq_none (Nat.le_of_not_lt hj)]
    simp [hj]

theorem Bindings.mem_put {α β : Type} {same : α → α → Bool} {k : α} {v : β} {b : α × β} :
    ∀ {bs : List (α × β)}, b ∈ Bindings.put same k v bs → b ∈ bs ∨ b.2 = v
  | [], hb => by
    rw [Bindings.put, List.mem_singleton] at hb
    exact .inr (congrArg Prod.snd hb)
  | (m, w) :: bs, hb => by
    rw [Bindings.put] at hb
    split at hb <;> rcases List.mem_cons.1 hb with rfl | hb
    · exact .inr rfl
    · exact .inl (List.mem_cons_of_mem _ hb)
    · exact .inl List.mem_cons_self
    · exact (mem_put hb).imp_left (List.mem_cons_of_mem _)

namespace Store

variable (s : Store)

theorem pair_addPair (c : Cell) (r : PairRef) :
    (s.addPair c).2.pair r = if r = s.pairs.size then c else s.pair r := getD_push ..

theorem vec_addVec (items : Array Value) (r : VecRef) :
    (s.addVec items).2.vec r = if r = s.vecs.size then items else s.vec r := getD_push ..

theorem closure_addClosure (c : Closure) (r : ClosureRef) :
    (s.addClosure c).2.closure r = if r = s.closures.size then c else s.closure r := getD_push ..

theorem frame_addFrame (f : Frame) (r : FrameRef) :
    (s.addFrame f).2.frame r = if r = s.frames.size then f else s.frame r := getD_push ..

theorem pair_setHead (p : PairRef) (v : Value) (r : PairRef) :
    (s.setHead p v).pair r =
      if p = r ∧ r < s.pairs.size then { s.pair r with head := v } else s.pair r := getD_modify ..

theorem pair_setTail (p : PairRef) (v : Value) (r : PairRef) :
    (s.setTail p v).pair r =
      if p = r ∧ r < s.pairs.size then { s.pair r with tail := v } else s.pair r := getD_modify ..

theorem vec_push (p : VecRef) (v : Value) (r : VecRef) :
    (s.push p v).vec r = if p = r ∧ r < s.vecs.size then (s.vec r).push v else s.vec r :=
  getD_modify ..

theorem frame_bind (g : FrameRef) (n : Symbol) (v : Value) (f : FrameRef) :
    (s.bind g n v).frame f = if g = f ∧ f < s.frames.size then (s.frame f).set n v else s.frame f :=
  getD_modify ..

theorem outer_bind (g : FrameRef) (n : Symbol) (v : Value) (f : FrameRef) :
    ((s.bind g n v).frame f).outer = (s.frame f).outer := by
  rw [frame_bind]
  split <;> rfl

/-! ## Names and new frames -/

theorem lookup?_eq (f : FrameRef) (n : Symbol) :
    s.lookup? f n = if (s.frame f).binds n then (s.frame f).get? n
      else (s.outer? f).bind fun o => s.lookup? o n := by
  rw [lookup?, find?_eq]
  split
  · rfl
  · cases s.outer? f <;> rfl

variable {s} {f : FrameRef} {n : Symbol}

/-- A name means nothing in a frame that is not there. -/
theorem lt_of_lookup? {v : Value} (h : s.lookup? f n = some v) : f < s.frames.size := by
  refine Decidable.byContradiction fun hf => ?_
  have hframe : s.frame f = default := by simp only [frame, Array.getD, dif_neg hf]
  rw [lookup?_eq, outer?, hframe] at h
  cases h

/-- A new frame changes no name in the frames that are there. -/
theorem lookup?_addFrame (call : Frame) (hf : f < s.frames.size) :
    (s.addFrame call).2.lookup? f n = s.lookup? f n := by
  induction f using Nat.strongRecOn with
  | ind f ih =>
    have hframe : (s.addFrame call).2.frame f = s.frame f := by
      rw [frame_addFrame, if_neg (Nat.ne_of_lt hf)]
    have houter : (s.addFrame call).2.outer? f = s.outer? f := by rw [outer?, outer?, hframe]
    rw [lookup?_eq, s.lookup?_eq, hframe, houter]
    split
    · rfl
    · rcases ho : s.outer? f with _ | o
      · rfl
      · have hlt := lt_of_outer? ho
        exact ih o hlt (Nat.lt_trans hlt hf)

theorem frame_newFrame (call : Frame) : (s.addFrame call).2.frame s.frames.size = call := by
  rw [frame_addFrame, if_pos rfl]

theorem outer?_newFrame {vars : List (Symbol × Value)} (hf : f < s.frames.size) :
    (s.addFrame ⟨vars, some f⟩).2.outer? s.frames.size = some f := by
  rw [outer?, frame_newFrame]
  simpa [Option.filter] using hf

/-- In a new frame a name means what the frame binds it to, or else what it means around. -/
theorem lookup?_newFrame {vars : List (Symbol × Value)} (hf : f < s.frames.size) :
    (s.addFrame ⟨vars, some f⟩).2.lookup? s.frames.size n
      = if vars.any (·.1 == n) then vars.lookup n else s.lookup? f n := by
  rw [lookup?_eq, frame_newFrame, outer?_newFrame hf]
  simp only [Frame.binds, Frame.get?, Option.bind_some, lookup?_addFrame _ hf]

end Store

namespace Agreement

variable {V W : Value → Prop} {F G : FrameRef → Prop} {s s' : Store} (h : Agreement V F s s')

include h

theorem setHead {v : Value} (hv : V v) (r : PairRef) :
    Agreement V F (s.setHead r v) (s'.setHead r v) where
  pairs_size := by simp [Store.setHead, h.pairs_size]
  vecs_size := h.vecs_size
  closures_size := h.closures_size
  frames_size := h.frames_size
  plain := h.plain
  pair {q} hq := by
    obtain ⟨heq, hh, ht⟩ := h.pair hq
    rw [Store.pair_setHead, Store.pair_setHead, ← h.pairs_size, ← heq]
    split
    · exact ⟨rfl, hv, ht⟩
    · exact ⟨rfl, hh, ht⟩
  vec := h.vec
  closure := h.closure
  frame := h.frame

theorem setTail {v : Value} (hv : V v) (r : PairRef) :
    Agreement V F (s.setTail r v) (s'.setTail r v) where
  pairs_size := by simp [Store.setTail, h.pairs_size]
  vecs_size := h.vecs_size
  closures_size := h.closures_size
  frames_size := h.frames_size
  plain := h.plain
  pair {q} hq := by
    obtain ⟨heq, hh, ht⟩ := h.pair hq
    rw [Store.pair_setTail, Store.pair_setTail, ← h.pairs_size, ← heq]
    split
    · exact ⟨rfl, hh, hv⟩
    · exact ⟨rfl, hh, ht⟩
  vec := h.vec
  closure := h.closure
  frame := h.frame

theorem push {v : Value} (hv : V v) (r : VecRef) :
    Agreement V F (s.push r v) (s'.push r v) where
  pairs_size := h.pairs_size
  vecs_size := by simp [Store.push, h.vecs_size]
  closures_size := h.closures_size
  frames_size := h.frames_size
  plain := h.plain
  pair := h.pair
  vec {q} hq := by
    obtain ⟨heq, hvs⟩ := h.vec hq
    rw [Store.vec_push, Store.vec_push, ← h.vecs_size, ← heq]
    refine ⟨rfl, ?_⟩
    split
    · intro w hw
      rcases Array.mem_push.1 (Array.mem_toList_iff.1 hw) with hw | rfl
      · exact hvs w (Array.mem_toList_iff.2 hw)
      · exact hv
    · exact hvs
  closure := h.closure
  frame := h.frame

theorem bind {v : Value} (hv : V v) (g : FrameRef) (n : Symbol) :
    Agreement V F (s.bind g n v) (s'.bind g n v) where
  pairs_size := h.pairs_size
  vecs_size := h.vecs_size
  closures_size := h.closures_size
  frames_size := by simp [Store.bind, h.frames_size]
  plain := h.plain
  pair := h.pair
  vec := h.vec
  closure := h.closure
  frame {f} hf := by
    obtain ⟨heq, hb, ho⟩ := h.frame hf
    rw [Store.outer_bind, Store.frame_bind, Store.frame_bind, ← h.frames_size, ← heq]
    refine ⟨rfl, ?_, ho⟩
    split
    · intro b hmem
      rcases Bindings.mem_put hmem with hmem | rfl
      · exact hb b hmem
      · exact hv
    · exact hb

/-! ## New objects

The values that are known become more, and `W` or `G` says which are then. -/

theorem pair_mono {r : PairRef} (hVW : ∀ {v : Value}, V v → W v) (hr : V (.pair r)) :
    s.pair r = s'.pair r ∧ W (s.pair r).head ∧ W (s.pair r).tail := by
  obtain ⟨heq, hh, ht⟩ := h.pair hr
  exact ⟨heq, hVW hh, hVW ht⟩

theorem vec_mono {r : VecRef} (hVW : ∀ {v : Value}, V v → W v) (hr : V (.vec r)) :
    s.vec r = s'.vec r ∧ ∀ v ∈ (s.vec r).toList, W v := by
  obtain ⟨heq, hvs⟩ := h.vec hr
  exact ⟨heq, fun v hv => hVW (hvs v hv)⟩

theorem closure_mono {r : ClosureRef} (hVW : ∀ {v : Value}, V v → W v) (hr : V (.closure r)) :
    s.closure r = s'.closure r ∧ ∀ e ∈ (s.closure r).body, W e := by
  obtain ⟨heq, hb⟩ := h.closure hr
  exact ⟨heq, fun e he => hVW (hb e he)⟩

theorem frame_mono {f : FrameRef} (hVW : ∀ {v : Value}, V v → W v)
    (hFG : ∀ {g : FrameRef}, F g → G g) (hf : F f) :
    s.frame f = s'.frame f ∧ (∀ b ∈ (s.frame f).vars, W b.2)
      ∧ ∀ o, (s.frame f).outer = some o → G o := by
  obtain ⟨heq, hb, ho⟩ := h.frame hf
  exact ⟨heq, fun b hm => hVW (hb b hm), fun o he => hFG (ho o he)⟩

theorem addPair {c : Cell} (hVW : ∀ {v : Value}, V v → W v)
    (hWV : ∀ {v : Value}, W v → V v ∨ v = .pair s.pairs.size) (hh : V c.head) (ht : V c.tail) :
    Agreement W F (s.addPair c).2 (s'.addPair c).2 where
  pairs_size := by simp [Store.addPair, h.pairs_size]
  vecs_size := h.vecs_size
  closures_size := h.closures_size
  frames_size := h.frames_size
  plain hv := hVW (h.plain hv)
  pair {r} hr := by
    rw [Store.pair_addPair, Store.pair_addPair, ← h.pairs_size]
    split
    · exact ⟨rfl, hVW hh, hVW ht⟩
    · rename_i hne
      exact h.pair_mono hVW ((hWV hr).resolve_right (by simpa using hne))
  vec hr := h.vec_mono hVW ((hWV hr).resolve_right nofun)
  closure hr := h.closure_mono hVW ((hWV hr).resolve_right nofun)
  frame hf := h.frame_mono hVW (fun hg => hg) hf

theorem addVec {items : Array Value} (hVW : ∀ {v : Value}, V v → W v)
    (hWV : ∀ {v : Value}, W v → V v ∨ v = .vec s.vecs.size) (hi : ∀ v ∈ items.toList, V v) :
    Agreement W F (s.addVec items).2 (s'.addVec items).2 where
  pairs_size := h.pairs_size
  vecs_size := by simp [Store.addVec, h.vecs_size]
  closures_size := h.closures_size
  frames_size := h.frames_size
  plain hv := hVW (h.plain hv)
  pair hr := h.pair_mono hVW ((hWV hr).resolve_right nofun)
  vec {r} hr := by
    rw [Store.vec_addVec, Store.vec_addVec, ← h.vecs_size]
    split
    · exact ⟨rfl, fun v hv => hVW (hi v hv)⟩
    · rename_i hne
      exact h.vec_mono hVW ((hWV hr).resolve_right (by simpa using hne))
  closure hr := h.closure_mono hVW ((hWV hr).resolve_right nofun)
  frame hf := h.frame_mono hVW (fun hg => hg) hf

theorem addClosure {c : Closure} (hVW : ∀ {v : Value}, V v → W v)
    (hWV : ∀ {v : Value}, W v → V v ∨ v = .closure s.closures.size) (hc : ∀ e ∈ c.body, V e) :
    Agreement W F (s.addClosure c).2 (s'.addClosure c).2 where
  pairs_size := h.pairs_size
  vecs_size := h.vecs_size
  closures_size := by simp [Store.addClosure, h.closures_size]
  frames_size := h.frames_size
  plain hv := hVW (h.plain hv)
  pair hr := h.pair_mono hVW ((hWV hr).resolve_right nofun)
  vec hr := h.vec_mono hVW ((hWV hr).resolve_right nofun)
  closure {r} hr := by
    rw [Store.closure_addClosure, Store.closure_addClosure, ← h.closures_size]
    split
    · exact ⟨rfl, fun e he => hVW (hc e he)⟩
    · rename_i hne
      exact h.closure_mono hVW ((hWV hr).resolve_right (by simpa using hne))
  frame hf := h.frame_mono hVW (fun hg => hg) hf

theorem addFrame {f : Frame} (hFG : ∀ {g : FrameRef}, F g → G g)
    (hGF : ∀ {g : FrameRef}, G g → F g ∨ g = s.frames.size) (hb : ∀ b ∈ f.vars, V b.2)
    (ho : ∀ o, f.outer = some o → F o) :
    Agreement V G (s.addFrame f).2 (s'.addFrame f).2 where
  pairs_size := h.pairs_size
  vecs_size := h.vecs_size
  closures_size := h.closures_size
  frames_size := by simp [Store.addFrame, h.frames_size]
  plain := h.plain
  pair := h.pair
  vec := h.vec
  closure := h.closure
  frame {g} hg := by
    rw [Store.frame_addFrame, Store.frame_addFrame, ← h.frames_size]
    split
    · exact ⟨rfl, hb, fun o he => hFG (ho o he)⟩
    · rename_i hne
      exact h.frame_mono (fun hv => hv) hFG ((hGF hg).resolve_right hne)

theorem note (d : Datum) : Agreement V F (s.note d) (s'.note d) := { h with }

theorem record (x : LogRecord) : Agreement V F (s.record x) (s'.record x) := { h with }

end Agreement

end LispCore

import LispCore.Interpreter
import LispCore.Proofs.Objects
import LispCore.Proofs.Standard
import LispCore.Proofs.Unshown

/-!
# Well-formed stores

A store is well formed if whatever is referred to in it exists, frames lead outward to earlier ones,
no frame binds a name twice and no function has a parameter twice. Every change that a run makes
keeps this, and so does every run (`Simulation.wellFormed`), with a value or with a failure at its
end. In a well-formed store the walk outward from a frame follows the links that are stored and
ends (`WellFormed.outward_chain`).
-/

namespace LispCore

/-- The values that a failure holds. -/
def Failure.values : Failure → List Value
  | .unbound name _ => [name]
  | .notCallable v _ => [v]
  | .malformed _ expr => expr.toList
  | .primitive _ cause => cause.values
  | _ => []

/-- The values that a record holds. -/
def LogRecord.values : LogRecord → List Value
  | .failed x => x.values
  | .primitiveRaised _ cause => cause.values
  | _ => []

namespace Store

/-- What a value refers to exists. -/
def Has (s : Store) : Value → Prop
  | .pair r => r < s.pairs.size
  | .vec r => r < s.vecs.size
  | .closure r => r < s.closures.size
  | _ => True

structure WellFormed (s : Store) : Prop where
  pair : ∀ {r : PairRef}, r < s.pairs.size → s.Has (s.pair r).head ∧ s.Has (s.pair r).tail
  vec : ∀ {r : VecRef}, r < s.vecs.size → ∀ v ∈ (s.vec r).toList, s.Has v
  body : ∀ {r : ClosureRef}, r < s.closures.size → ∀ e ∈ (s.closure r).body, s.Has e
  captured : ∀ {r : ClosureRef}, r < s.closures.size → (s.closure r).env < s.frames.size
  params : ∀ r : ClosureRef, (s.closure r).params.Nodup
  vars : ∀ {f : FrameRef}, f < s.frames.size → ∀ b ∈ (s.frame f).vars, s.Has b.2
  names : ∀ f : FrameRef, ((s.frame f).vars.map Prod.fst).Nodup
  outer : ∀ {f o : FrameRef}, (s.frame f).outer = some o → o < f
  log : ∀ r ∈ s.log.toList, ∀ v ∈ r.values, s.Has v

/-- The frames met when the links that are stored are followed from a frame to the end. -/
inductive Outward (s : Store) : FrameRef → List FrameRef → Prop
  | last {f : FrameRef} (h : (s.frame f).outer = none) : Outward s f [f]
  | next {f o : FrameRef} {fs : List FrameRef} (h : (s.frame f).outer = some o)
    (rest : Outward s o fs) : Outward s f (f :: fs)

variable {s t : Store} {v : Value}

theorem Has.mono (hle : s.Grown t) (hv : s.Has v) : t.Has v := by
  cases v with
  | pair r => exact Nat.lt_of_lt_of_le hv hle.pairs
  | vec r => exact Nat.lt_of_lt_of_le hv hle.vecs
  | closure r => exact Nat.lt_of_lt_of_le hv hle.closures
  | _ => trivial

theorem has_congr (h : s.SameCounts t) : s.Has = t.Has := by
  funext v
  cases v <;> simp only [Has, h.pairs, h.vecs, h.closures]

theorem has_addPair {c : Cell} (hv : (s.addPair c).2.Has v) : s.Has v ∨ v = .pair s.pairs.size := by
  cases v <;> simp only [Has, addPair, Array.size_push] at hv ⊢ <;> simp [hv]
  exact Nat.lt_succ_iff_lt_or_eq.1 hv

theorem has_addVec {items : Array Value} (hv : (s.addVec items).2.Has v) :
    s.Has v ∨ v = .vec s.vecs.size := by
  cases v <;> simp only [Has, addVec, Array.size_push] at hv ⊢ <;> simp [hv]
  exact Nat.lt_succ_iff_lt_or_eq.1 hv

theorem has_addClosure {c : Closure} (hv : (s.addClosure c).2.Has v) :
    s.Has v ∨ v = .closure s.closures.size := by
  cases v <;> simp only [Has, addClosure, Array.size_push] at hv ⊢ <;> simp [hv]
  exact Nat.lt_succ_iff_lt_or_eq.1 hv

end Store

theorem Bindings.mem_keys_put {α β : Type} [BEq α] [LawfulBEq α] {k m : α} {v : β} :
    ∀ {bs : List (α × β)}, m ∈ (Bindings.put (· == ·) k v bs).map Prod.fst →
      m ∈ bs.map Prod.fst ∨ m = k
  | [], hm => by simpa [Bindings.put] using hm
  | (l, w) :: bs, hm => by
    rw [Bindings.put] at hm
    split at hm
    · exact .inl hm
    · rcases List.mem_cons.1 hm with rfl | hm
      · exact .inl List.mem_cons_self
      · exact (mem_keys_put hm).imp_left (List.mem_cons_of_mem _)

theorem Bindings.nodup_put {α β : Type} [BEq α] [LawfulBEq α] {k : α} {v : β} :
    ∀ {bs : List (α × β)}, (bs.map Prod.fst).Nodup →
      ((Bindings.put (· == ·) k v bs).map Prod.fst).Nodup
  | [], _ => by simp [Bindings.put]
  | (l, w) :: bs, h => by
    rw [List.map_cons, List.nodup_cons] at h
    rw [Bindings.put]
    split
    · exact List.nodup_cons.2 h
    · rename_i hne
      refine List.nodup_cons.2 ⟨fun hm => ?_, nodup_put h.2⟩
      rcases mem_keys_put hm with hm | hm
      · exact h.1 hm
      · exact hne (beq_iff_eq.2 hm)

namespace Store

variable {s : Store} (h : ∀ {f o : FrameRef}, (s.frame f).outer = some o → o < f)

include h

theorem outer?_of_earlier (f : FrameRef) : s.outer? f = (s.frame f).outer := by
  simp only [Store.outer?]
  rcases ho : (s.frame f).outer with _ | o
  · rfl
  · simp [h ho]

theorem outward_chain_of_earlier (f : FrameRef) : s.Outward f (s.chain f) := by
  rw [chain_eq, outer?_of_earlier h]
  rcases ho : (s.frame f).outer with _ | o
  · exact .last ho
  · have hlt := h ho
    exact .next ho (outward_chain_of_earlier o)
termination_by f

end Store

namespace Store.WellFormed

variable {s t : Store}

theorem agreement (h : s.WellFormed) : Agreement s.Has (· < s.frames.size) s s where
  pairs_size := rfl
  vecs_size := rfl
  closures_size := rfl
  frames_size := rfl
  plain {v} hv := by cases v <;> trivial
  pair hr := ⟨rfl, h.pair hr⟩
  vec hr := ⟨rfl, h.vec hr⟩
  closure hr := ⟨rfl, h.body hr⟩
  frame hf := ⟨rfl, h.vars hf, fun _ ho => Nat.lt_trans (h.outer ho) hf⟩

/-- What is left to check after a change that kept everything referred to in place. -/
theorem of_agreement (hs : s.WellFormed) (hA : Agreement t.Has (· < t.frames.size) t t)
    (hle : s.Grown t) (hlog : t.log = s.log)
    (hcaptured : ∀ {r : ClosureRef}, r < t.closures.size → (t.closure r).env < t.frames.size)
    (hparams : ∀ r : ClosureRef, (t.closure r).params.Nodup)
    (hnames : ∀ f : FrameRef, ((t.frame f).vars.map Prod.fst).Nodup)
    (houter : ∀ {f o : FrameRef}, (t.frame f).outer = some o → o < f) :
    t.WellFormed ∧ s.Grown t where
  left :=
    { pair := fun hr => (hA.pair hr).2
      vec := fun hr => (hA.vec hr).2
      body := fun hr => (hA.closure hr).2
      captured := hcaptured
      params := hparams
      vars := fun hf => (hA.frame hf).2.1
      names := hnames
      outer := houter
      log := fun r hr v hv => (hs.log r (hlog ▸ hr) v hv).mono hle }
  right := hle

variable (h : s.WellFormed) {v : Value}

include h

theorem setHead (hv : s.Has v) (r : PairRef) :
    (s.setHead r v).WellFormed ∧ s.Grown (s.setHead r v) := by
  have hcounts : s.SameCounts (s.setHead r v) := ⟨by simp [Store.setHead], rfl, rfl, rfl⟩
  refine h.of_agreement ?_ hcounts.grown rfl h.captured h.params h.names h.outer
  rw [← has_congr hcounts]
  exact h.agreement.setHead hv r

theorem setTail (hv : s.Has v) (r : PairRef) :
    (s.setTail r v).WellFormed ∧ s.Grown (s.setTail r v) := by
  have hcounts : s.SameCounts (s.setTail r v) := ⟨by simp [Store.setTail], rfl, rfl, rfl⟩
  refine h.of_agreement ?_ hcounts.grown rfl h.captured h.params h.names h.outer
  rw [← has_congr hcounts]
  exact h.agreement.setTail hv r

theorem push (hv : s.Has v) (r : VecRef) :
    (s.push r v).WellFormed ∧ s.Grown (s.push r v) := by
  have hcounts : s.SameCounts (s.push r v) := ⟨rfl, by simp [Store.push], rfl, rfl⟩
  refine h.of_agreement ?_ hcounts.grown rfl h.captured h.params h.names h.outer
  rw [← has_congr hcounts]
  exact h.agreement.push hv r

theorem bind (hv : s.Has v) (f : FrameRef) (n : Symbol) :
    (s.bind f n v).WellFormed ∧ s.Grown (s.bind f n v) := by
  have hcounts : s.SameCounts (s.bind f n v) := ⟨rfl, rfl, rfl, by simp [Store.bind]⟩
  refine h.of_agreement ?_ hcounts.grown rfl ?_ h.params (fun g => ?_) fun {g o} ho => ?_
  · rw [← has_congr hcounts, ← hcounts.frames]
    exact h.agreement.bind hv f n
  · rw [← hcounts.frames]
    exact h.captured
  · rw [frame_bind]
    split
    · exact Bindings.nodup_put (h.names g)
    · exact h.names g
  · rw [outer_bind] at ho
    exact h.outer ho

theorem addPair {c : Cell} (hh : s.Has c.head) (ht : s.Has c.tail) :
    (s.addPair c).2.WellFormed ∧ s.Grown (s.addPair c).2 := by
  have hle : s.Grown (s.addPair c).2 := .addPair s c
  refine h.of_agreement ?_ hle rfl h.captured h.params h.names h.outer
  exact h.agreement.addPair (.mono hle) has_addPair hh ht

theorem addVec {items : Array Value} (hi : ∀ v ∈ items.toList, s.Has v) :
    (s.addVec items).2.WellFormed ∧ s.Grown (s.addVec items).2 := by
  have hle : s.Grown (s.addVec items).2 := .addVec s items
  refine h.of_agreement ?_ hle rfl h.captured h.params h.names h.outer
  exact h.agreement.addVec (.mono hle) has_addVec hi

theorem addClosure {c : Closure} (henv : c.env < s.frames.size) (hp : c.params.Nodup)
    (hb : ∀ e ∈ c.body, s.Has e) :
    (s.addClosure c).2.WellFormed ∧ s.Grown (s.addClosure c).2 := by
  have hle : s.Grown (s.addClosure c).2 := .addClosure s c
  refine h.of_agreement ?_ hle rfl (fun {r} hr => ?_) (fun r => ?_) h.names h.outer
  · exact h.agreement.addClosure (.mono hle) has_addClosure hb
  · rw [closure_addClosure]
    split
    · exact henv
    · rename_i hne
      rw [Store.addClosure, Array.size_push] at hr
      exact h.captured ((Nat.lt_succ_iff_lt_or_eq.1 hr).resolve_right hne)
  · rw [closure_addClosure]
    split
    · exact hp
    · exact h.params r

theorem addFrame {f : Frame} (hb : ∀ b ∈ f.vars, s.Has b.2) (hn : (f.vars.map Prod.fst).Nodup)
    (ho : ∀ o, f.outer = some o → o < s.frames.size) :
    (s.addFrame f).2.WellFormed ∧ s.Grown (s.addFrame f).2 := by
  have hle : s.Grown (s.addFrame f).2 := .addFrame s f
  have hsize : (s.addFrame f).2.frames.size = s.frames.size + 1 := Array.size_push ..
  refine h.of_agreement ?_ hle rfl (fun hr => ?_) h.params (fun g => ?_) fun {g o} hg => ?_
  · rw [hsize]
    exact h.agreement.addFrame (fun hg => Nat.lt_succ_of_lt hg) Nat.lt_succ_iff_lt_or_eq.1 hb ho
  · exact Nat.lt_of_lt_of_le (h.captured hr) hle.frames
  · rw [frame_addFrame]
    split
    · exact hn
    · exact h.names g
  · rw [frame_addFrame] at hg
    split at hg
    · rename_i heq
      exact heq ▸ ho o hg
    · exact h.outer hg

theorem note (d : Datum) : (s.note d).WellFormed ∧ s.Grown (s.note d) :=
  ⟨{ h with }, { Grown.refl s with }⟩

theorem traced (text : String) : (s.traced text).WellFormed ∧ s.Grown (s.traced text) :=
  ⟨{ h with }, { Grown.refl s with }⟩

theorem record {r : LogRecord} (hr : ∀ v ∈ r.values, s.Has v) :
    (s.record r).WellFormed ∧ s.Grown (s.record r) := by
  refine ⟨{ h with log := fun q hq => ?_ }, { Grown.refl s with }⟩
  rw [Store.record, Array.toList_push] at hq
  rcases List.mem_append.1 hq with hq | hq
  · exact h.log q hq
  · rw [List.mem_singleton.1 hq]
    exact hr

/-! ## The way outward -/

theorem outer?_eq (f : FrameRef) : s.outer? f = (s.frame f).outer :=
  outer?_of_earlier h.outer f

theorem outward_chain (f : FrameRef) : s.Outward f (s.chain f) :=
  outward_chain_of_earlier h.outer f

theorem chain_lt (f : FrameRef) (hf : f < s.frames.size) : ∀ g ∈ s.chain f, g < s.frames.size := by
  intro g hg
  rw [chain_eq, h.outer?_eq] at hg
  rcases ho : (s.frame f).outer with _ | o <;> rw [ho] at hg <;>
    rcases List.mem_cons.1 hg with rfl | hg
  · exact hf
  · cases hg
  · exact hf
  · have hlt := h.outer ho
    exact chain_lt o (Nat.lt_trans hlt hf) g hg
termination_by f

end Store.WellFormed

namespace Store

variable (s : Store)

theorem getLast?_chain (f : FrameRef) : (s.chain f).getLast? = some (s.root f) := by
  rw [chain_eq, root_eq]
  rcases ho : s.outer? f with _ | o
  · rfl
  · have hlt := lt_of_outer? ho
    have ih := getLast?_chain o
    rcases hc : s.chain o with _ | ⟨g, gs⟩
    · rw [hc] at ih
      cases ih
    · simp only [Option.map_some, Option.getD_some, hc, List.getLast?_cons_cons]
      rw [← hc]
      exact ih
termination_by f

theorem find?_chain (n : Symbol) (f : FrameRef) :
    s.find? f n = (s.chain f).find? fun g => (s.frame g).binds n := by
  rw [find?_eq, chain_eq, List.find?_cons]
  rcases hb : (s.frame f).binds n with _ | _
  · rcases ho : s.outer? f with _ | o
    · rfl
    · have hlt := lt_of_outer? ho
      exact find?_chain n o
  · rfl
termination_by f

end Store

theorem Failure.IsUnshown.values_eq {x : Failure} (h : x.IsUnshown) : x.values = [] := by
  rcases h with rfl | ⟨f, rfl⟩ <;> rfl

theorem Refusal.has {s : Store} {x : Failure} (hx : Refusal s.Has x) :
    ∀ v ∈ x.values, s.Has v := by
  cases hx with
  | unbound n => simp [Failure.values, Store.Has]
  | arity _ _ => simp [Failure.values]
  | malformed reason expr h => simpa [Failure.values] using h
  | notCallable w shown h => simpa [Failure.values] using h
  | unshown hx => simp [hx.values_eq]

/-- Runs in which the store is well formed at every moment. -/
def Simulation.wellFormed (globals : FrameRef) : Simulation where
  stores s s' := s = s' ∧ s.WellFormed ∧ globals < s.frames.size
  le := Store.Grown
  value := Store.Has
  frame s f := f < s.frames.size
  scope s f := f < s.frames.size
  failure s x := ∀ v ∈ x.values, s.Has v
  cause s x := ∀ v ∈ x.values, s.Has v
  le_refl := .refl
  le_trans := .trans
  value_mono := .mono
  frame_mono hle hf := Nat.lt_of_lt_of_le hf hle.frames
  scope_mono hle hf := Nat.lt_of_lt_of_le hf hle.frames
  cause_mono hle hx v hv := (hx v hv).mono hle
  frame_of_scope hf := hf
  agree := by
    rintro s _ ⟨rfl, h, -⟩
    exact h.agreement
  define := by
    rintro s _ f v n ⟨rfl, h, hg⟩ hf hv
    obtain ⟨h', hle⟩ := h.bind hv f n
    exact ⟨⟨rfl, h', Nat.lt_of_lt_of_le hg hle.frames⟩, hle⟩
  assign := by
    rintro s _ f v n ⟨rfl, h, hg⟩ - - hv
    obtain ⟨h', hle⟩ := h.bind hv f n
    exact ⟨⟨rfl, h', Nat.lt_of_lt_of_le hg hle.frames⟩, hle⟩
  lambda := by
    rintro s _ c ⟨rfl, h, hg⟩ henv hp hb
    obtain ⟨h', hle⟩ := h.addClosure henv hp hb
    exact ⟨⟨rfl, h', Nat.lt_of_lt_of_le hg hle.frames⟩, hle, by simp [Store.addClosure, Store.Has]⟩
  enter := by
    rintro s _ c args ⟨rfl, h, hg⟩ hc ha hn
    have hnames : (((s.closure c).params.zip args).map Prod.fst).Nodup := by
      rw [List.map_fst_zip (Nat.le_of_eq hn.symm)]
      exact h.params c
    obtain ⟨h', hle⟩ := h.addFrame (f := ⟨(s.closure c).params.zip args, some (s.closure c).env⟩)
      (fun b hb => ha b.2 (List.of_mem_zip hb).2) hnames (by rintro o ⟨⟩; exact h.captured hc)
    exact ⟨⟨rfl, h', Nat.lt_of_lt_of_le hg hle.frames⟩, hle, by simp [Store.addFrame]⟩
  record := by
    rintro s _ x name ⟨rfl, h, hg⟩ hx
    obtain ⟨h', hle⟩ := h.record (r := .primitiveRaised name x) hx
    exact ⟨⟨rfl, h', hg⟩, hle⟩
  refusal _ hx := hx.has
  recursionLimit s n v hv := by cases hv
  primitive name hx _ _ := hx
  cause_of_failure hx := hx

theorem Simulation.wellFormed_data (globals : FrameRef) :
    (Simulation.wellFormed globals).Data globals where
  addPair := by
    rintro s _ head tail ⟨rfl, h, hg⟩ hh ht
    obtain ⟨h', hle⟩ := h.addPair (c := ⟨head, tail⟩) hh ht
    exact ⟨⟨rfl, h', hg⟩, hle, by simp [wellFormed, Store.addPair, Store.Has]⟩
  addVec := by
    rintro s _ items ⟨rfl, h, hg⟩ hi
    obtain ⟨h', hle⟩ := h.addVec hi
    exact ⟨⟨rfl, h', hg⟩, hle, by simp [wellFormed, Store.addVec, Store.Has]⟩
  setHead := by
    rintro s _ p r v ⟨rfl, h, hg⟩ - - - hv
    obtain ⟨h', hle⟩ := h.setHead hv r
    exact ⟨⟨rfl, h', hg⟩, hle⟩
  setTail := by
    rintro s _ p r v ⟨rfl, h, hg⟩ - - - hv
    obtain ⟨h', hle⟩ := h.setTail hv r
    exact ⟨⟨rfl, h', hg⟩, hle⟩
  push := by
    rintro s _ p r v ⟨rfl, h, hg⟩ - - - hv
    obtain ⟨h', hle⟩ := h.push hv r
    exact ⟨⟨rfl, h', hg⟩, hle⟩
  note := by
    rintro s _ d ⟨rfl, h, hg⟩
    obtain ⟨h', hle⟩ := h.note d
    exact ⟨⟨rfl, h', hg⟩, hle⟩
  globals hs _ _ := hs.2.2
  fault s f v hv := by cases hv

end LispCore

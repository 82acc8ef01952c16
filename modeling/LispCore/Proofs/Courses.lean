import LispCore.Proofs.Catching
import LispCore.Proofs.Code
import LispCore.Proofs.Objects

/-!
# The course of a run

Whatever a run does and however it ends, no object is gone afterwards, every closure is what it was
and every frame leads where it led (`Store.Extended`). What else holds between the stores before and
after depends on the primitives that occur. A `Course` is such a relation: the changes that the
evaluator makes by itself keep to it, as long as no code runs in the frames that it bars. If the
primitives keep to it as well (`Library.KeepsTo`), so do whole runs (`Course.evaluate`,
`Course.apply`). Of the standard library only those changes need a look that its primitives can make
(`Course.Allows`).
-/

namespace LispCore

/-- A run ended and left the store behind. -/
inductive Outcome.Leaves {α : Type} : Outcome α → Store → Prop
  | done (a : α) (s : Store) : Leaves (.done a s) s
  | raised (x : Failure) (s : Store) : Leaves (.raised x s) s

namespace Store

/-- No object is gone, closures are what they were and frames lead where they led. -/
structure Extended (s t : Store) : Prop extends s.Grown t where
  closure : ∀ {r : ClosureRef}, r < s.closures.size → t.closure r = s.closure r
  outer : ∀ {f : FrameRef}, f < s.frames.size → (t.frame f).outer = (s.frame f).outer

namespace Extended

variable {s t u : Store}

/-- A change that leaves closures and frames alone. -/
theorem of_grown (hle : s.Grown t) (hc : t.closures = s.closures) (hf : t.frames = s.frames) :
    s.Extended t where
  toGrown := hle
  closure _ := by simp only [Store.closure, hc]
  outer _ := by simp only [Store.frame, hf]

theorem refl (s : Store) : s.Extended s := of_grown (.refl s) rfl rfl

theorem trans (h : s.Extended t) (h' : t.Extended u) : s.Extended u where
  toGrown := h.toGrown.trans h'.toGrown
  closure hr := (h'.closure (Nat.lt_of_lt_of_le hr h.closures)).trans (h.closure hr)
  outer hf := (h'.outer (Nat.lt_of_lt_of_le hf h.frames)).trans (h.outer hf)

variable (s)

theorem addPair (c : Cell) : s.Extended (s.addPair c).2 := of_grown (.addPair s c) rfl rfl

theorem addVec (items : Array Value) : s.Extended (s.addVec items).2 :=
  of_grown (.addVec s items) rfl rfl

theorem setHead (r : PairRef) (v : Value) : s.Extended (s.setHead r v) :=
  of_grown (SameCounts.grown ⟨by simp [Store.setHead], rfl, rfl, rfl⟩) rfl rfl

theorem setTail (r : PairRef) (v : Value) : s.Extended (s.setTail r v) :=
  of_grown (SameCounts.grown ⟨by simp [Store.setTail], rfl, rfl, rfl⟩) rfl rfl

theorem push (r : VecRef) (v : Value) : s.Extended (s.push r v) :=
  of_grown (SameCounts.grown ⟨rfl, by simp [Store.push], rfl, rfl⟩) rfl rfl

theorem note (d : Datum) : s.Extended (s.note d) := of_grown { Grown.refl s with } rfl rfl

theorem record (r : LogRecord) : s.Extended (s.record r) := of_grown { Grown.refl s with } rfl rfl

theorem traced (text : String) : s.Extended (s.traced text) :=
  of_grown { Grown.refl s with } rfl rfl

theorem bind (f : FrameRef) (n : Symbol) (v : Value) : s.Extended (s.bind f n v) where
  toGrown := SameCounts.grown ⟨rfl, rfl, rfl, by simp [Store.bind]⟩
  closure _ := rfl
  outer _ := outer_bind ..

theorem addClosure (c : Closure) : s.Extended (s.addClosure c).2 where
  toGrown := .addClosure s c
  closure hr := by rw [closure_addClosure, if_neg (Nat.ne_of_lt hr)]
  outer _ := rfl

theorem addFrame (f : Frame) : s.Extended (s.addFrame f).2 where
  toGrown := .addFrame s f
  closure _ := rfl
  outer hf := by rw [frame_addFrame, if_neg (Nat.ne_of_lt hf)]

end Extended

end Store

theorem getD_mem {α : Type} (xs : Array α) (d : α) (i : Nat) :
    xs.getD i d ∈ xs.toList ∨ xs.getD i d = d := by
  rw [Array.getD]
  split
  · exact .inl (Array.getElem_mem_toList _)
  · exact .inr rfl

/-- It is enough to look at the objects that are there. -/
theorem Store.PrimsIn.of_contents {s : Store} {G : Primitive → Prop}
    (hp : ∀ c ∈ s.pairs.toList, c.head.PrimsIn G ∧ c.tail.PrimsIn G)
    (hv : ∀ items ∈ s.vecs.toList, ∀ v ∈ items.toList, v.PrimsIn G)
    (hc : ∀ c ∈ s.closures.toList, ∀ e ∈ c.body, e.PrimsIn G)
    (hf : ∀ f ∈ s.frames.toList, ∀ b ∈ f.vars, b.2.PrimsIn G) : s.PrimsIn G where
  pair r := by
    rcases getD_mem s.pairs default r with h | h
    · exact hp _ h
    · rw [Store.pair, h]
      exact ⟨trivial, trivial⟩
  vec r v hm := by
    rcases getD_mem s.vecs default r with h | h
    · exact hv _ h v hm
    · rw [Store.vec, h] at hm
      cases hm
  closure r e hm := by
    rcases getD_mem s.closures default r with h | h
    · exact hc _ h e hm
    · rw [Store.closure, h] at hm
      cases hm
  frame f b hm := by
    rcases getD_mem s.frames default f with h | h
    · exact hf _ h b hm
    · rw [Store.frame, h] at hm
      cases hm

theorem Store.Linked.of_contents {s : Store}
    (h : ∀ c ∈ s.pairs.toList, ∀ q, c.head = .pair q ∨ c.tail = .pair q → q < s.pairs.size) :
    s.Linked := by
  intro r q hq
  rcases getD_mem s.pairs default r with hr | hr
  · exact h _ hr q hq
  · rw [Store.pair, hr] at hq
    rcases hq with hq | hq <;> cases hq

theorem Value.primsIn_true (v : Value) : v.PrimsIn fun _ => True := by
  cases v <;> trivial

theorem Store.primsIn_true (s : Store) : s.PrimsIn fun _ => True where
  pair _ := ⟨Value.primsIn_true _, Value.primsIn_true _⟩
  vec _ v _ := v.primsIn_true
  closure _ e _ := e.primsIn_true
  frame _ b _ := b.2.primsIn_true

/-- What may become of a store in a run, beside that it is extended. -/
structure Course where
  /-- The frames that no code runs in. -/
  barred : FrameRef → Prop
  rel : Store → Store → Prop
  refl : ∀ s, rel s s
  trans : ∀ {s t u}, s.Extended t → rel s t → rel t u → rel s u
  define : ∀ {s f} (n : Symbol) (v : Value), ¬barred f → rel s (s.bind f n v)
  assign : ∀ {s f n} (v : Value), (s.frame f).binds n = true → rel s (s.bind f n v)
  lambda : ∀ s c, rel s (s.addClosure c).2
  enter : ∀ {s} (call : Frame), (∀ b, barred b → b < s.frames.size) → rel s (s.addFrame call).2
  record : ∀ s r, rel s (s.record r)

namespace Course

variable (C : Course) (G : Primitive → Prop)

/-- The frames that are barred are there, so none of them is made for a call. -/
def Guards (s : Store) : Prop := ∀ b, C.barred b → b < s.frames.size

/-- From `s` the run has come to `t`. -/
def Along (s t : Store) : Prop := s.Extended t ∧ C.rel s t

variable {C G} {s t u : Store}

theorem Guards.mono (h : C.Guards s) (hle : s.Extended t) : C.Guards t :=
  fun b hb => Nat.lt_of_lt_of_le (h b hb) hle.frames

theorem Along.refl (s : Store) : C.Along s s := ⟨.refl s, C.refl s⟩

theorem Along.trans (h : C.Along s t) (h' : C.Along t u) : C.Along s u :=
  ⟨h.1.trans h'.1, C.trans h.1 h.2 h'.2⟩

/-- A change that is on course, made to related stores. -/
theorem Guards.step {t' : Store} (hC : C.Guards s) (ht : (Simulation.primsIn G).stores t t')
    (hle : C.Along s t) : ((Simulation.primsIn G).stores t t' ∧ C.Guards t) ∧ C.Along s t :=
  ⟨⟨ht, hC.mono hle.1⟩, hle⟩

variable (C G)

/-- Runs that keep to a course, with no primitives but those in `G`. -/
def simulation : Simulation where
  stores s s' := (Simulation.primsIn G).stores s s' ∧ C.Guards s
  le := C.Along
  value _ v := v.PrimsIn G
  frame _ _ := True
  scope _ f := ¬C.barred f
  failure _ _ := True
  cause _ _ := True
  le_refl := .refl
  le_trans := .trans
  value_mono _ hv := hv
  frame_mono _ _ := trivial
  scope_mono _ hf := hf
  cause_mono _ _ := trivial
  frame_of_scope _ := trivial
  agree hs := (Simulation.primsIn G).agree hs.1
  define {s s' f v} n hs hf hv :=
    hs.2.step ((Simulation.primsIn G).define n hs.1 trivial hv).1 ⟨.bind s f n v, C.define n v hf⟩
  assign {s s' f v n} hs _ hn hv :=
    hs.2.step ((Simulation.primsIn G).assign hs.1 trivial hn hv).1 ⟨.bind s f n v, C.assign v hn⟩
  lambda {s s' c} hs _ hp hb := by
    obtain ⟨hs', hle⟩ := hs.2.step ((Simulation.primsIn G).lambda hs.1 trivial hp hb).1
      ⟨.addClosure s c, C.lambda s c⟩
    exact ⟨hs', hle, trivial⟩
  enter {s s' c args} hs hc ha hn := by
    obtain ⟨hs', hle⟩ := hs.2.step ((Simulation.primsIn G).enter hs.1 hc ha hn).1
      ⟨.addFrame s _, C.enter _ hs.2⟩
    exact ⟨hs', hle, fun hb => Nat.lt_irrefl _ (hs.2 _ hb)⟩
  record {s s' x} name hs _ :=
    hs.2.step ((Simulation.primsIn G).record name hs.1 trivial).1 ⟨.record s _, C.record s _⟩
  refusal _ _ := trivial
  recursionLimit _ _ := trivial
  primitive _ _ _ _ := trivial
  cause_of_failure _ := trivial

/-- The changes that the standard operations of the primitives in `G` make keep to the course, and
there is no `eval` among them if the global frame is barred. -/
structure Allows (globals : FrameRef) : Prop where
  addPair : ∀ s c, C.rel s (s.addPair c).2
  addVec : ∀ s items, C.rel s (s.addVec items).2
  setHead : ∀ {p : Primitive}, G p → p.op = .setHead → ∀ s r v, C.rel s (s.setHead r v)
  setTail : ∀ {p : Primitive}, G p → p.op = .setTail → ∀ s r v, C.rel s (s.setTail r v)
  push : ∀ {p : Primitive}, G p → p.op = .push → ∀ s r v, C.rel s (s.push r v)
  note : ∀ s d, C.rel s (s.note d)
  globals : ∀ {p : Primitive}, G p → p.op = .eval → ¬C.barred globals

variable {C G}

theorem Allows.data {globals : FrameRef} (h : C.Allows G globals) :
    (C.simulation G).Data globals where
  addPair {s s' head tail} hs hh ht := by
    obtain ⟨hs', hle⟩ := hs.2.step ((Simulation.primsIn_data globals).addPair hs.1 hh ht).1
      ⟨.addPair s _, h.addPair s _⟩
    exact ⟨hs', hle, trivial⟩
  addVec {s s' items} hs hi := by
    obtain ⟨hs', hle⟩ := hs.2.step ((Simulation.primsIn_data globals).addVec hs.1 hi).1
      ⟨.addVec s items, h.addVec s items⟩
    exact ⟨hs', hle, trivial⟩
  setHead {s s' p r v} hs hp hop hr hv :=
    hs.2.step ((Simulation.primsIn_data globals).setHead hs.1 hp hop hr hv).1
      ⟨.setHead s r v, h.setHead hp hop s r v⟩
  setTail {s s' p r v} hs hp hop hr hv :=
    hs.2.step ((Simulation.primsIn_data globals).setTail hs.1 hp hop hr hv).1
      ⟨.setTail s r v, h.setTail hp hop s r v⟩
  push {s s' p r v} hs hp hop hr hv :=
    hs.2.step ((Simulation.primsIn_data globals).push hs.1 hp hop hr hv).1
      ⟨.push s r v, h.push hp hop s r v⟩
  note {s s'} d hs :=
    hs.2.step ((Simulation.primsIn_data globals).note d hs.1).1 ⟨.note s d, h.note s d⟩
  globals _ hp hop := h.globals hp hop
  fault _ _ := trivial

end Course

/-- Where there are no primitives but those of `G`, these keep to the course and bring in no
others. -/
def Library.KeepsTo (library : Library) (C : Course) (G : Primitive → Prop) : Prop :=
  ∀ {s : Store} {p : Primitive} {args : List Value}, s.PrimsIn G → C.Guards s → G p →
    (∀ a ∈ args, a.PrimsIn G) → (C.simulation G).Routines s s (library p args) (library p args)

namespace Course

variable {C : Course} {G : Primitive → Prop} {s t : Store}

theorem Allows.standard {globals : FrameRef} (h : C.Allows G globals) (limit : Nat) :
    (Library.standard limit globals).KeepsTo C G :=
  fun hs hC hp ha => h.data.operate limit ⟨⟨rfl, hs.agreement⟩, hC⟩ hp ha

/-! ## Whole runs -/

theorem along_of_ends {α : Type} {A : Store → α → Prop} {X : Store → Failure → Prop}
    {o o' : Outcome α} (h : (C.simulation G).Ends s A X o o') (ht : o.Leaves t) :
    t.PrimsIn G ∧ C.Along s t := by
  cases h with
  | unfinished => cases ht
  | done h =>
    cases ht
    exact ⟨h.1.1.2.primsIn, h.2.1⟩
  | raised h =>
    cases ht
    exact ⟨h.1.1.2.primsIn, h.2.1⟩

variable {m : Machine} (hm : m.library.KeepsTo C G)

include hm

theorem machines : (C.simulation G).Machines m m where
  turns := Nat.le_refl _
  limit := rfl
  depth := rfl
  library := by
    rintro s _ p args ⟨⟨rfl, hs⟩, hC⟩ hp ha
    exact hm hs.primsIn hC hp ha

theorem evaluate {e : Value} {f : FrameRef} (hs : s.PrimsIn G) (hC : C.Guards s)
    (he : e.PrimsIn G) (hf : ¬C.barred f) (ht : (m.evaluate e f s).Leaves t) :
    t.PrimsIn G ∧ C.Along s t :=
  along_of_ends ((machines hm).evaluate ⟨⟨rfl, hs.agreement⟩, hC⟩ he hf) ht

theorem apply {fn : Value} {args : List Value} (hs : s.PrimsIn G) (hC : C.Guards s)
    (hfn : fn.PrimsIn G) (ha : ∀ a ∈ args, a.PrimsIn G) (ht : (m.apply fn args s).Leaves t) :
    t.PrimsIn G ∧ C.Along s t :=
  along_of_ends ((machines hm).apply ⟨⟨rfl, hs.agreement⟩, hC⟩ hfn ha) ht

end Course

end LispCore

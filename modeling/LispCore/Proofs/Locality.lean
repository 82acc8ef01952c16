import LispCore.Interpreter
import LispCore.Proofs.Objects
import LispCore.Proofs.Standard

/-!
# Locality of evaluation

An evaluation sees and changes only what can be reached from its expression and its frame, and what
it makes itself. `Store.Reaches` says what can be reached; it is fixed when the evaluation starts,
while the ways through the store change with every step. What carries over from step to step is
`Confined`: the runs know what was reached at the start and what they have made since, everything
they know leads to known things only and is the same in both stores, and nothing else has changed.
`Machine.evaluate_local` is the result for two runs from the start to the end.
-/

namespace LispCore

namespace Store

/-- What can be reached from an expression and a frame in a program with the frame `globals`. -/
inductive Reaches (s : Store) (globals : FrameRef) (e : Value) (env : FrameRef) : Object → Prop
  | expr : Reaches s globals e env (.value e)
  | env : Reaches s globals e env (.frame env)
  | head {r : PairRef} (h : Reaches s globals e env (.value (.pair r))) :
    Reaches s globals e env (.value (s.pair r).head)
  | tail {r : PairRef} (h : Reaches s globals e env (.value (.pair r))) :
    Reaches s globals e env (.value (s.pair r).tail)
  | item {r : VecRef} {v : Value} (h : Reaches s globals e env (.value (.vec r)))
    (hv : v ∈ (s.vec r).toList) : Reaches s globals e env (.value v)
  | body {c : ClosureRef} {v : Value} (h : Reaches s globals e env (.value (.closure c)))
    (hv : v ∈ (s.closure c).body) : Reaches s globals e env (.value v)
  | captured {c : ClosureRef} (h : Reaches s globals e env (.value (.closure c))) :
    Reaches s globals e env (.frame (s.closure c).env)
  | binding {f : FrameRef} {b : Symbol × Value} (h : Reaches s globals e env (.frame f))
    (hb : b ∈ (s.frame f).vars) : Reaches s globals e env (.value b.2)
  | outer {f o : FrameRef} (h : Reaches s globals e env (.frame f))
    (ho : (s.frame f).outer = some o) : Reaches s globals e env (.frame o)
  | globals {p : Primitive} (h : Reaches s globals e env (.value (.prim p)))
    (hp : p.op = .eval) : Reaches s globals e env (.frame globals)

/-- What two runs from `s` and `s'` have left behind in `t` and `t'`: they agree on what was in
`reached` at the start and on what is new, have not touched anything else, and have recorded the
same. -/
structure LocalTo (reached : Object → Prop) (s s' t t' : Store) : Prop where
  counts : t.SameCounts t'
  same : ∀ o : Object, reached o ∨ o.New s t → o.Same t t'
  kept : ∀ o : Object, ¬reached o → ¬o.New s t → o.Same s t ∧ o.Same s' t'
  effects : ∃ ds, t.effects = s.effects ++ ds ∧ t'.effects = s'.effects ++ ds
  log : ∃ rs, t.log = s.log ++ rs ∧ t'.log = s'.log ++ rs

end Store

/-- Two runs end alike, in stores that `R` relates, or none of them ends. -/
inductive Outcome.Alike {α : Type} (R : Store → Store → Prop) : Outcome α → Outcome α → Prop
  | done {a : α} {t t' : Store} (h : R t t') : Alike R (.done a t) (.done a t')
  | raised {x : Failure} {t t' : Store} (h : R t t') : Alike R (.raised x t) (.raised x t')
  | unfinished : Alike R .unfinished .unfinished

namespace Object

variable {s t : Store} {o : Object}

/-- What a run that began with `s₀` knows: what `K` says, and what it has made since. -/
def Known (K : Object → Prop) (s₀ s : Store) (o : Object) : Prop := K o ∨ o.New s₀ s

theorem Known.mono {K : Object → Prop} {s₀ : Store} (hle : s.Grown t) (h : o.Known K s₀ s) :
    o.Known K s₀ t := h.imp_right (.mono hle)

theorem Known.of_new {K : Object → Prop} {s₀ : Store} {o' : Object}
    (hnew : o.New s₀ t ↔ o.New s₀ s ∨ o = o') (h : o.Known K s₀ t) : o.Known K s₀ s ∨ o = o' := by
  rcases h with hk | hn
  · exact .inl (.inl hk)
  · exact (hnew.1 hn).imp_left .inr

theorem known_self {K : Object → Prop} : Known K s s = K := by
  funext o
  refine propext ⟨fun h => h.resolve_right ?_, .inl⟩
  rcases o with v | f
  · cases v <;> simp [New]
  · simp [New]

theorem known_congr {K : Object → Prop} {s₀ : Store} (h : s.SameCounts t) :
    Known K s₀ s = Known K s₀ t := by
  funext o
  rcases o with v | f
  · cases v <;> simp only [Known, New, h.pairs, h.vecs, h.closures]
  · simp only [Known, New, h.frames]

end Object

/-- Two runs that began with `s₀` and `s₀'`, knowing what `K` says, and have come to `s` and
`s'`. -/
structure Confined (K : Object → Prop) (s₀ s₀' s s' : Store) : Prop where
  grown : s₀.Grown s
  agreement : Agreement (fun v => Object.Known K s₀ s (.value v))
    (fun f => Object.Known K s₀ s (.frame f)) s s'
  captured : ∀ {c : ClosureRef}, Object.Known K s₀ s (.value (.closure c)) →
    Object.Known K s₀ s (.frame (s.closure c).env)
  kept : ∀ {o : Object}, ¬o.Known K s₀ s → o.Same s₀ s ∧ o.Same s₀' s'
  effects : ∃ ds, s.effects = s₀.effects ++ ds ∧ s'.effects = s₀'.effects ++ ds
  log : ∃ rs, s.log = s₀.log ++ rs ∧ s'.log = s₀'.log ++ rs

namespace Confined

variable {K : Object → Prop} {s₀ s₀' s s' : Store} (h : Confined K s₀ s₀' s s')

include h

theorem update {t t' : Store} (hle : s.Grown t)
    (hA : Agreement (fun v => Object.Known K s₀ t (.value v))
      (fun f => Object.Known K s₀ t (.frame f)) t t')
    (hcap : ∀ {c : ClosureRef}, Object.Known K s₀ t (.value (.closure c)) →
      Object.Known K s₀ t (.frame (t.closure c).env))
    (hsame : ∀ {o : Object}, ¬o.Known K s₀ t → o.Same s t ∧ o.Same s' t')
    (heffects : t.effects = s.effects ∧ t'.effects = s'.effects)
    (hlog : t.log = s.log ∧ t'.log = s'.log) :
    Confined K s₀ s₀' t t' ∧ s.Grown t := by
  refine ⟨⟨h.grown.trans hle, hA, hcap, fun {o} ho => ?_, ?_, ?_⟩, hle⟩
  · obtain ⟨hk, hk'⟩ := h.kept fun hs => ho (hs.mono hle)
    exact ⟨hk.trans (hsame ho).1, hk'.trans (hsame ho).2⟩
  · rw [heffects.1, heffects.2]
    exact h.effects
  · rw [hlog.1, hlog.2]
    exact h.log

/-- A change in place of a known object. -/
theorem change {t t' : Store} {o : Object} (ho : o.Known K s₀ s) (hcounts : s.SameCounts t)
    (hA : Agreement (fun v => Object.Known K s₀ s (.value v))
      (fun f => Object.Known K s₀ s (.frame f)) t t')
    (hclosures : t.closures = s.closures) (hsame : ∀ o' ≠ o, o'.Same s t ∧ o'.Same s' t')
    (heffects : t.effects = s.effects ∧ t'.effects = s'.effects)
    (hlog : t.log = s.log ∧ t'.log = s'.log) :
    Confined K s₀ s₀' t t' ∧ s.Grown t := by
  have hknown : Object.Known K s₀ s = Object.Known K s₀ t := Object.known_congr hcounts
  refine h.update hcounts.grown (hknown ▸ hA) (fun {c} hc => ?_) (fun {o'} ho' => ?_) heffects hlog
  · rw [← hknown] at hc ⊢
    simp only [Store.closure, hclosures]
    exact h.captured hc
  · refine hsame o' fun heq => ho' ?_
    rw [← hknown, heq]
    exact ho

theorem setHead {r : PairRef} {v : Value} (hr : Object.Known K s₀ s (.value (.pair r)))
    (hv : Object.Known K s₀ s (.value v)) :
    Confined K s₀ s₀' (s.setHead r v) (s'.setHead r v) ∧ s.Grown (s.setHead r v) :=
  h.change hr ⟨by simp [Store.setHead], rfl, rfl, rfl⟩ (h.agreement.setHead hv r) rfl
    (fun _ ho => ⟨Object.same_setHead v ho, Object.same_setHead v ho⟩) ⟨rfl, rfl⟩ ⟨rfl, rfl⟩

theorem setTail {r : PairRef} {v : Value} (hr : Object.Known K s₀ s (.value (.pair r)))
    (hv : Object.Known K s₀ s (.value v)) :
    Confined K s₀ s₀' (s.setTail r v) (s'.setTail r v) ∧ s.Grown (s.setTail r v) :=
  h.change hr ⟨by simp [Store.setTail], rfl, rfl, rfl⟩ (h.agreement.setTail hv r) rfl
    (fun _ ho => ⟨Object.same_setTail v ho, Object.same_setTail v ho⟩) ⟨rfl, rfl⟩ ⟨rfl, rfl⟩

theorem push {r : VecRef} {v : Value} (hr : Object.Known K s₀ s (.value (.vec r)))
    (hv : Object.Known K s₀ s (.value v)) :
    Confined K s₀ s₀' (s.push r v) (s'.push r v) ∧ s.Grown (s.push r v) :=
  h.change hr ⟨rfl, by simp [Store.push], rfl, rfl⟩ (h.agreement.push hv r) rfl
    (fun _ ho => ⟨Object.same_push v ho, Object.same_push v ho⟩) ⟨rfl, rfl⟩ ⟨rfl, rfl⟩

theorem bind {f : FrameRef} {v : Value} (n : Symbol) (hf : Object.Known K s₀ s (.frame f))
    (hv : Object.Known K s₀ s (.value v)) :
    Confined K s₀ s₀' (s.bind f n v) (s'.bind f n v) ∧ s.Grown (s.bind f n v) :=
  h.change hf ⟨rfl, rfl, rfl, by simp [Store.bind]⟩ (h.agreement.bind hv f n) rfl
    (fun _ ho => ⟨Object.same_bind n v ho, Object.same_bind n v ho⟩) ⟨rfl, rfl⟩ ⟨rfl, rfl⟩

/-- A new object that becomes known. -/
theorem extend {t t' : Store} {o : Object} (hle : s.Grown t)
    (hnew : ∀ {o' : Object}, o'.New s₀ t ↔ o'.New s₀ s ∨ o' = o)
    (hA : Agreement (fun v => Object.Known K s₀ t (.value v))
      (fun f => Object.Known K s₀ t (.frame f)) t t')
    (hcap : ∀ {c : ClosureRef}, Object.Known K s₀ t (.value (.closure c)) →
      Object.Known K s₀ t (.frame (t.closure c).env))
    (hsame : ∀ {o' : Object}, o' ≠ o → o'.Same s t ∧ o'.Same s' t')
    (heffects : t.effects = s.effects ∧ t'.effects = s'.effects)
    (hlog : t.log = s.log ∧ t'.log = s'.log) :
    Confined K s₀ s₀' t t' ∧ s.Grown t ∧ o.Known K s₀ t := by
  have ho : o.Known K s₀ t := .inr (hnew.2 (.inr rfl))
  obtain ⟨hc, hle⟩ := h.update hle hA hcap (fun ho' => hsame fun heq => ho' (heq ▸ ho)) heffects
    hlog
  exact ⟨hc, hle, ho⟩

theorem addPair {c : Cell} (hh : Object.Known K s₀ s (.value c.head))
    (ht : Object.Known K s₀ s (.value c.tail)) :
    Confined K s₀ s₀' (s.addPair c).2 (s'.addPair c).2 ∧ s.Grown (s.addPair c).2
      ∧ Object.Known K s₀ (s.addPair c).2 (.value (.pair s.pairs.size)) := by
  have hle : s.Grown (s.addPair c).2 := .addPair s c
  have hnew {o : Object} := Object.new_addPair (o := o) c h.grown
  refine h.extend hle hnew ?_ (fun hc => ?_) (fun ho => ?_) ⟨rfl, rfl⟩ ⟨rfl, rfl⟩
  · exact h.agreement.addPair (.mono hle) (fun hv => (hv.of_new hnew).imp_right Object.value.inj)
      hh ht
  · exact (h.captured hc).mono hle
  · exact ⟨Object.same_addPair c ho, Object.same_addPair c (h.agreement.pairs_size ▸ ho)⟩

theorem addVec {items : Array Value}
    (hi : ∀ v ∈ items.toList, Object.Known K s₀ s (.value v)) :
    Confined K s₀ s₀' (s.addVec items).2 (s'.addVec items).2 ∧ s.Grown (s.addVec items).2
      ∧ Object.Known K s₀ (s.addVec items).2 (.value (.vec s.vecs.size)) := by
  have hle : s.Grown (s.addVec items).2 := .addVec s items
  have hnew {o : Object} := Object.new_addVec (o := o) items h.grown
  refine h.extend hle hnew ?_ (fun hc => ?_) (fun ho => ?_) ⟨rfl, rfl⟩ ⟨rfl, rfl⟩
  · exact h.agreement.addVec (.mono hle) (fun hv => (hv.of_new hnew).imp_right Object.value.inj) hi
  · exact (h.captured hc).mono hle
  · exact ⟨Object.same_addVec items ho, Object.same_addVec items (h.agreement.vecs_size ▸ ho)⟩

theorem addClosure {c : Closure} (henv : Object.Known K s₀ s (.frame c.env))
    (hb : ∀ e ∈ c.body, Object.Known K s₀ s (.value e)) :
    Confined K s₀ s₀' (s.addClosure c).2 (s'.addClosure c).2 ∧ s.Grown (s.addClosure c).2
      ∧ Object.Known K s₀ (s.addClosure c).2 (.value (.closure s.closures.size)) := by
  have hle : s.Grown (s.addClosure c).2 := .addClosure s c
  have hnew {o : Object} := Object.new_addClosure (o := o) c h.grown
  refine h.extend hle hnew ?_ (fun {r} hr => ?_) (fun ho => ?_) ⟨rfl, rfl⟩ ⟨rfl, rfl⟩
  · exact h.agreement.addClosure (.mono hle)
      (fun hv => (hv.of_new hnew).imp_right Object.value.inj) hb
  · rw [Store.closure_addClosure]
    split
    · exact henv.mono hle
    · rename_i hne
      exact (h.captured ((hr.of_new hnew).resolve_right (by simpa using hne))).mono hle
  · exact ⟨Object.same_addClosure c ho,
      Object.same_addClosure c (h.agreement.closures_size ▸ ho)⟩

theorem addFrame {f : Frame} (hb : ∀ b ∈ f.vars, Object.Known K s₀ s (.value b.2))
    (ho : ∀ o, f.outer = some o → Object.Known K s₀ s (.frame o)) :
    Confined K s₀ s₀' (s.addFrame f).2 (s'.addFrame f).2 ∧ s.Grown (s.addFrame f).2
      ∧ Object.Known K s₀ (s.addFrame f).2 (.frame s.frames.size) := by
  have hle : s.Grown (s.addFrame f).2 := .addFrame s f
  have hnew {o : Object} := Object.new_addFrame (o := o) f h.grown
  refine h.extend hle hnew ?_ (fun hc => ?_) (fun ho => ?_) ⟨rfl, rfl⟩ ⟨rfl, rfl⟩
  · have hvalues : (fun v => Object.Known K s₀ (s.addFrame f).2 (.value v)) =
        fun v => Object.Known K s₀ s (.value v) := by
      funext v
      cases v <;> rfl
    rw [hvalues]
    exact h.agreement.addFrame (.mono hle)
      (fun hg => (hg.of_new hnew).imp_right Object.frame.inj) hb ho
  · exact (h.captured hc).mono hle
  · exact ⟨Object.same_addFrame f ho, Object.same_addFrame f (h.agreement.frames_size ▸ ho)⟩

theorem note (d : Datum) : Confined K s₀ s₀' (s.note d) (s'.note d) where
  grown := { h.grown with }
  agreement := h.agreement.note d
  captured := h.captured
  kept ho := by
    obtain ⟨hk, hk'⟩ := h.kept ho
    exact ⟨hk.trans (.refl _), hk'.trans (.refl _)⟩
  effects := by
    obtain ⟨ds, hds, hds'⟩ := h.effects
    exact ⟨ds.push d, by simp [Store.note, hds], by simp [Store.note, hds']⟩
  log := h.log

theorem record (x : LogRecord) : Confined K s₀ s₀' (s.record x) (s'.record x) where
  grown := { h.grown with }
  agreement := h.agreement.record x
  captured := h.captured
  kept ho := by
    obtain ⟨hk, hk'⟩ := h.kept ho
    exact ⟨hk.trans (.refl _), hk'.trans (.refl _)⟩
  effects := h.effects
  log := by
    obtain ⟨rs, hrs, hrs'⟩ := h.log
    exact ⟨rs.push x, by simp [Store.record, hrs], by simp [Store.record, hrs']⟩

end Confined

/-- Runs that know what `K` says to begin with. -/
def Simulation.locality (K : Object → Prop) (s₀ s₀' : Store) : Simulation where
  stores := Confined K s₀ s₀'
  le := Store.Grown
  value s v := Object.Known K s₀ s (.value v)
  frame s f := Object.Known K s₀ s (.frame f)
  scope s f := Object.Known K s₀ s (.frame f)
  failure _ _ := True
  cause _ _ := True
  le_refl := .refl
  le_trans := .trans
  value_mono := .mono
  frame_mono := .mono
  scope_mono := .mono
  cause_mono _ _ := trivial
  frame_of_scope hf := hf
  agree h := h.agreement
  define n h hf hv := h.bind n hf hv
  assign h hf _ hv := h.bind _ hf hv
  lambda h henv _ hb := h.addClosure henv hb
  enter {s s' c args} h hc ha _ := by
    refine h.addFrame (fun b hb => ha b.2 (List.of_mem_zip hb).2) fun o ho => ?_
    cases ho
    exact h.captured hc
  record name h _ := ⟨h.record _, { Store.Grown.refl _ with }⟩
  refusal _ _ := trivial
  recursionLimit _ _ := trivial
  primitive _ _ _ _ := trivial
  cause_of_failure _ := trivial

theorem Simulation.locality_data {K : Object → Prop} {s₀ s₀' : Store} {globals : FrameRef}
    (hK : ∀ {p : Primitive}, K (.value (.prim p)) → p.op = .eval → K (.frame globals)) :
    (Simulation.locality K s₀ s₀').Data globals where
  addPair h hh ht := h.addPair hh ht
  addVec h hi := h.addVec hi
  setHead h _ _ hr hv := h.setHead hr hv
  setTail h _ _ hr hv := h.setTail hr hv
  push h _ _ hr hv := h.push hr hv
  note d h := ⟨h.note d, { Store.Grown.refl _ with }⟩
  globals _ hp hop := .inl (hK (hp.resolve_right nofun) hop)
  fault _ _ := trivial

theorem Outcome.Alike.of_below {α : Type} {D D' : α → Store → Store → Prop}
    {X X' : Failure → Store → Store → Prop} {R : Store → Store → Prop} {o o' : Outcome α}
    (h : Outcome.Below D X o o') (h' : Outcome.Below D' X' o' o)
    (hD : ∀ {a : α} {t t' : Store}, D a t t' → R t t')
    (hX : ∀ {x : Failure} {t t' : Store}, X x t t' → R t t') : Outcome.Alike R o o' := by
  rcases h with _ | hd | hx
  · cases h'
    exact .unfinished
  · exact .done (hD hd)
  · exact .raised (hX hx)

namespace Confined

variable {K : Object → Prop} {s s' t t' : Store}

theorem start (hA : Agreement (fun v => K (.value v)) (fun f => K (.frame f)) s s')
    (hcap : ∀ {c : ClosureRef}, K (.value (.closure c)) → K (.frame (s.closure c).env)) :
    Confined K s s' s s' where
  grown := .refl s
  agreement := by rwa [Object.known_self]
  captured hc := by
    rw [Object.known_self] at hc ⊢
    exact hcap hc
  kept _ := ⟨.refl _, .refl _⟩
  effects := ⟨#[], by simp⟩
  log := ⟨#[], by simp⟩

theorem localTo {reached : Object → Prop} (h : Confined K s s' t t')
    (hK : ∀ {o : Object}, reached o → K o)
    (hplain : ∀ {o : Object}, K o → ¬reached o → o.Same s t ∧ o.Same s' t') :
    Store.LocalTo reached s s' t t' where
  counts := ⟨h.agreement.pairs_size, h.agreement.vecs_size, h.agreement.closures_size,
    h.agreement.frames_size⟩
  same o ho := by
    have hknown : o.Known K s t := ho.imp_left hK
    refine .intro ?_ ?_ ?_ ?_
    · rintro r rfl
      exact (h.agreement.pair hknown).1
    · rintro r rfl
      exact (h.agreement.vec hknown).1
    · rintro r rfl
      exact (h.agreement.closure hknown).1
    · rintro f rfl
      exact (h.agreement.frame hknown).1
  kept o ho hn := by
    by_cases hk : K o
    · exact hplain hk ho
    · exact h.kept fun hknown => hknown.elim hk hn
  effects := h.effects
  log := h.log

end Confined

namespace Store

variable {s s' : Store} {globals : FrameRef} {e : Value} {env : FrameRef}

/-- What can be reached, and values that hold nothing. -/
def Within (s : Store) (globals : FrameRef) (e : Value) (env : FrameRef) : Object → Prop
  | .value v => v.isPlain = true ∨ s.Reaches globals e env (.value v)
  | .frame f => s.Reaches globals e env (.frame f)

theorem Within.of_reaches : ∀ {o : Object}, s.Reaches globals e env o → s.Within globals e env o
  | .value _, h => .inr h
  | .frame _, h => h

theorem Within.same_of_not_reaches {t t' : Store} {o : Object} (h : s.Within globals e env o)
    (ho : ¬s.Reaches globals e env o) : o.Same s t ∧ o.Same s' t' := by
  rcases o with v | f
  · have hv := h.resolve_right ho
    cases v <;> first | exact ⟨trivial, trivial⟩ | cases hv
  · exact absurd h ho

theorem within_agreement (hcounts : s.SameCounts s')
    (hsame : ∀ o, s.Reaches globals e env o → o.Same s s') :
    Agreement (fun v => s.Within globals e env (.value v))
      (fun f => s.Within globals e env (.frame f)) s s' where
  pairs_size := hcounts.pairs
  vecs_size := hcounts.vecs
  closures_size := hcounts.closures
  frames_size := hcounts.frames
  plain hv := .inl hv
  pair hr := by
    have hr := hr.resolve_left nofun
    exact ⟨hsame _ hr, .inr hr.head, .inr hr.tail⟩
  vec hr := by
    have hr := hr.resolve_left nofun
    exact ⟨hsame _ hr, fun v hv => .inr (hr.item hv)⟩
  closure hr := by
    have hr := hr.resolve_left nofun
    exact ⟨hsame _ hr, fun e he => .inr (hr.body he)⟩
  frame hf := ⟨hsame _ hf, fun b hb => .inr (.binding hf hb), fun o ho => .outer hf ho⟩

end Store

namespace Machine

/-- Two runs of one expression in stores that agree on all that can be reached from it. -/
theorem evaluate_local (m : Machine) {limit : Nat} {globals : FrameRef}
    (hm : m.library = Library.standard limit globals) (e : Value) (env : FrameRef) {s s' : Store}
    (hcounts : s.SameCounts s') (hsame : ∀ o, s.Reaches globals e env o → o.Same s s') :
    Outcome.Alike (s.LocalTo (s.Reaches globals e env) s') (m.evaluate e env s)
      (m.evaluate e env s') := by
  have hA := Store.within_agreement hcounts hsame
  have hcap {c : ClosureRef} (hc : s.Within globals e env (.value (.closure c))) :
      s.Within globals e env (.frame (s.closure c).env) := .captured (hc.resolve_left nofun)
  have hcap' {c : ClosureRef} (hc : s.Within globals e env (.value (.closure c))) :
      s.Within globals e env (.frame (s'.closure c).env) := (hA.closure hc).1 ▸ hcap hc
  have hglobals {p : Primitive} (hp : s.Within globals e env (.value (.prim p)))
      (hop : p.op = .eval) : s.Within globals e env (.frame globals) :=
    .globals (hp.resolve_left nofun) hop
  have hrun := (Simulation.locality_data hglobals).machines hm |>.evaluate (.start hA hcap)
    (.inl (.of_reaches .expr)) (.inl (.of_reaches .env))
  have hrun' := (Simulation.locality_data hglobals).machines hm |>.evaluate (.start hA.symm hcap')
    (.inl (.of_reaches .expr)) (.inl (.of_reaches .env))
  have hlocal {t t' : Store} (h : Confined (s.Within globals e env) s s' t t') :
      s.LocalTo (s.Reaches globals e env) s' t t' :=
    h.localTo .of_reaches fun hk ho => hk.same_of_not_reaches ho
  exact .of_below hrun hrun' (fun h => hlocal h.1) fun h => hlocal h.1

/-- A definition that is to be run in the first frame, and another frame beside it. -/
def beside (v : Value) : Store where
  pairs := #[⟨.symbol "def", .pair 1⟩, ⟨.symbol "y", .pair 2⟩, ⟨.symbol "x", .nil⟩]
  frames := #[⟨[(⟨"x"⟩, .int 1)], none⟩, ⟨[(⟨"x"⟩, v)], none⟩]

theorem not_reaches_beside {v : Value} {o : Object} (h : (beside v).Reaches 0 (.pair 0) 0 o) :
    o ≠ .frame 1 := by
  cases h with
  | captured h => exact fun heq => absurd (Object.frame.inj heq) Nat.zero_ne_one
  | @outer f o _ ho => rcases f with _ | _ | f <;> cases ho
  | _ => simp

theorem same_beside {v w : Value} {o : Object} (ho : o ≠ .frame 1) :
    o.Same (beside v) (beside w) := by
  refine .intro (fun _ _ => rfl) (fun _ _ => rfl) (fun _ _ => rfl) ?_
  rintro (_ | _ | f) rfl
  · rfl
  · exact absurd rfl ho
  · rfl

theorem evaluate_local_beside :
    (beside (.int 2)).SameCounts (beside (.int 3))
      ∧ (∀ o, (beside (.int 2)).Reaches 0 (.pair 0) 0 o →
        o.Same (beside (.int 2)) (beside (.int 3)))
      ∧ Outcome.Alike
        ((beside (.int 2)).LocalTo ((beside (.int 2)).Reaches 0 (.pair 0) 0) (beside (.int 3)))
        ((standard 0).evaluate (.pair 0) 0 (beside (.int 2)))
        ((standard 0).evaluate (.pair 0) 0 (beside (.int 3))) := by
  have hcounts : (beside (.int 2)).SameCounts (beside (.int 3)) := ⟨rfl, rfl, rfl, rfl⟩
  have hsame (o : Object) (ho : (beside (.int 2)).Reaches 0 (.pair 0) 0 o) :
      o.Same (beside (.int 2)) (beside (.int 3)) := same_beside (not_reaches_beside ho)
  exact ⟨hcounts, hsame, (standard 0).evaluate_local rfl (.pair 0) 0 hcounts hsame⟩

end Machine

end LispCore

import LispCore.Proofs.WellFormed
import Mathlib.Logic.Relation

/-!
# What a host can do

A host makes interpreters, frames, values and primitives, hands expressions to the evaluator in
every way there is, and keeps what comes back: values, frames, calls left over by a step, and what
failures hold. It refers to nothing that it did not get that way. Whatever it does, and however it
ends, the store is well formed (`Host.wellFormed_of_reachable`).
-/

namespace LispCore

/-- A store and what a host has of it in its hands. -/
structure Host where
  store : Store := {}
  interpreters : List Interpreter := []
  values : List Value := []
  frames : List FrameRef := []
  calls : List (ClosureRef × FrameRef) := []

/-- The values that a value holds directly. -/
def Store.parts (s : Store) : Value → List Value
  | .pair r => [(s.pair r).head, (s.pair r).tail]
  | .vec r => (s.vec r).toList
  | .closure r => (s.closure r).body
  | _ => []

namespace Host

/-- What the host can refer to: what it has got, and values that it can write down. -/
def Holds (h : Host) : Value → Prop
  | .pair r => .pair r ∈ h.values
  | .vec r => .vec r ∈ h.values
  | .closure r => .closure r ∈ h.values
  | _ => True

def gets (h : Host) (vs : List Value) (s : Store) : Host :=
  { h with store := s, values := vs ++ h.values }

def getsFrames (h : Host) (fs : List FrameRef) (s : Store) : Host :=
  { h with store := s, frames := fs ++ h.frames }

/-- After an evaluation. A run without an end gives nothing to go on with. -/
def after (h : Host) : Outcome Value → Host
  | .done v s => h.gets [v] s
  | .raised x s => h.gets x.values s
  | .unfinished => h

/-- After a step, which may leave a call over. -/
def afterStep (h : Host) : Outcome Step → Host
  | .done (.value v) s => h.gets [v] s
  | .done (.call c f) s =>
    { (h.gets [.closure c] s).getsFrames [f] s with calls := (c, f) :: h.calls }
  | .raised x s => h.gets x.values s
  | .unfinished => h

/-- After a change, in the store that it leaves behind also where it fails. -/
def afterChange (h : Host) : Outcome Unit → Host
  | .done _ s => h.gets [] s
  | .raised x s => h.gets x.values s
  | .unfinished => h

/-- After the attempt to make an interpreter. -/
def afterCreate (h : Host) : Outcome Interpreter → Host
  | .done i s =>
    { h.getsFrames [i.globals, i.session] s with interpreters := i :: h.interpreters }
  | .raised x s => h.gets x.values s
  | .unfinished => h

/-- The things a host can do. -/
inductive Next (h : Host) : Host → Prop
  | create (table : Option Registry.Table) (traced : Bool) :
    Next h (h.afterCreate (Interpreter.create table traced h.store))
  | limit {i : Interpreter} (hi : i ∈ h.interpreters) (limit equality depth : Nat) :
    Next h { h with
      interpreters :=
        { i with machine := ⟨.standard equality i.globals, limit, i.machine.turns, depth⟩ }
          :: h.interpreters }
  | eval {i : Interpreter} {e : Value} (hi : i ∈ h.interpreters) (he : h.Holds e) :
    Next h (h.after (i.eval e h.store))
  | run {i : Interpreter} {es : List Value} (hi : i ∈ h.interpreters) (he : ∀ e ∈ es, h.Holds e) :
    Next h (h.after (i.run es h.store))
  | runProgram {i : Interpreter} {es : List Value} {f : FrameRef} (hi : i ∈ h.interpreters)
    (he : ∀ e ∈ es, h.Holds e) (hf : f ∈ h.frames) :
    Next h (h.after (runBelow i.machine.evaluate f es h.store))
  | evaluate {i : Interpreter} {e : Value} {f : FrameRef} (hi : i ∈ h.interpreters)
    (he : h.Holds e) (hf : f ∈ h.frames) : Next h (h.after (i.machine.evaluate e f h.store))
  | apply {i : Interpreter} {fn : Value} {args : List Value} (hi : i ∈ h.interpreters)
    (hfn : h.Holds fn) (ha : ∀ a ∈ args, h.Holds a) :
    Next h (h.after (i.machine.apply fn args h.store))
  | step {i : Interpreter} {e : Value} {f : FrameRef} (hi : i ∈ h.interpreters) (he : h.Holds e)
    (hf : f ∈ h.frames) (pos : Position) : Next h (h.afterStep (i.machine.step e f pos h.store))
  | resume {i : Interpreter} {c : ClosureRef} {f : FrameRef} (hi : i ∈ h.interpreters)
    (hc : (c, f) ∈ h.calls) : Next h (h.after (i.machine.resume (.call c f) h.store))
  | define {i : Interpreter} {v : Value} (hi : i ∈ h.interpreters) (key : Registry.Key)
    (hv : h.Holds v) : Next h (h.afterChange (i.define key v h.store))
  | register {i : Interpreter} (hi : i ∈ h.interpreters) (table : Registry.Table) :
    Next h (h.afterChange (i.register table h.store))
  | primitive (name : Option String) (op : Operation) :
    Next h (h.gets [.prim (h.store.addNamed name op).1] (h.store.addNamed name op).2)
  | rootFrame : Next h (h.getsFrames [h.store.frames.size] (h.store.addEmptyFrame none).2)
  | child {f : FrameRef} (hf : f ∈ h.frames) :
    Next h (h.getsFrames [h.store.frames.size] (h.store.addEmptyFrame (some f)).2)
  | frameDefine (depth : Nat) {f : FrameRef} {name v : Value} (hf : f ∈ h.frames)
    (hn : h.Holds name) (hv : h.Holds v) :
    Next h (h.afterChange (Store.define depth f name v h.store))
  | frameAssign (depth : Nat) {f : FrameRef} {name v : Value} (hf : f ∈ h.frames)
    (hn : h.Holds name) (hv : h.Holds v) :
    Next h (h.afterChange (Store.assign depth f name v h.store))
  | frameUpdate (depth : Nat) {f : FrameRef} {entries : List (Value × Value)} (hf : f ∈ h.frames)
    (he : ∀ e ∈ entries, h.Holds e.1 ∧ h.Holds e.2) :
    Next h (h.afterChange (Store.defineAll depth f entries h.store))
  | pair {head tail : Value} (hh : h.Holds head) (ht : h.Holds tail) :
    Next h (h.gets [.pair h.store.pairs.size] (h.store.addPair ⟨head, tail⟩).2)
  | vector {items : List Value} (hi : ∀ v ∈ items, h.Holds v) :
    Next h (h.gets [.vec h.store.vecs.size] (h.store.addVec items.toArray).2)
  | closure (depth : Nat) {params body : List Value} {env : FrameRef} {c : Closure}
    (hb : ∀ e ∈ body, h.Holds e) (henv : env ∈ h.frames)
    (hc : h.store.makeClosure depth params body env = .ok c) :
    Next h (h.gets [.closure h.store.closures.size] (h.store.addClosure c).2)
  | setHead {r : PairRef} {v : Value} (hr : h.Holds (.pair r)) (hv : h.Holds v) :
    Next h (h.gets [] (h.store.setHead r v))
  | setTail {r : PairRef} {v : Value} (hr : h.Holds (.pair r)) (hv : h.Holds v) :
    Next h (h.gets [] (h.store.setTail r v))
  | push {r : VecRef} {v : Value} (hr : h.Holds (.vec r)) (hv : h.Holds v) :
    Next h (h.gets [] (h.store.push r v))
  | part {v w : Value} (hv : h.Holds v) (hw : w ∈ h.store.parts v) : Next h (h.gets [w] h.store)
  | captured {r : ClosureRef} (hr : h.Holds (.closure r)) :
    Next h (h.getsFrames [(h.store.closure r).env] h.store)
  | binding {f : FrameRef} {b : Symbol × Value} (hf : f ∈ h.frames)
    (hb : b ∈ (h.store.frame f).vars) : Next h (h.gets [b.2] h.store)
  | outward {f g : FrameRef} (hf : f ∈ h.frames) (hg : g ∈ h.store.chain f) :
    Next h (h.getsFrames [g] h.store)

/-- What a host comes to from nothing. -/
def Reachable : Host → Prop := Relation.ReflTransGen Next {}

end Host

/-- An interpreter with the standard library whose frames are there. -/
structure Interpreter.Stands (i : Interpreter) (s : Store) : Prop where
  library : ∃ limit, i.machine.library = Library.standard limit i.globals
  globals : i.globals < s.frames.size
  session : i.session < s.frames.size

/-- A run from `s` leaves a well-formed store behind, in which there is what it gives. -/
def Outcome.Keeps {α : Type} (s : Store) (A : Store → α → Prop) : Outcome α → Prop
  | .done a t => t.WellFormed ∧ s.Grown t ∧ A t a
  | .raised x t => t.WellFormed ∧ s.Grown t ∧ ∀ v ∈ x.values, t.Has v
  | .unfinished => True

theorem Outcome.Keeps.of_grown {α : Type} {s t : Store} {A : Store → α → Prop} {o : Outcome α}
    (hle : s.Grown t) (h : o.Keeps t A) : o.Keeps s A := by
  cases o with
  | done a u => exact ⟨h.1, hle.trans h.2.1, h.2.2⟩
  | raised x u => exact ⟨h.1, hle.trans h.2.1, h.2.2⟩
  | unfinished => trivial

theorem Simulation.keeps_of_ends {α : Type} {g : FrameRef} {s : Store} {A : Store → α → Prop}
    {o : Outcome α}
    (h : (Simulation.wellFormed g).Ends s A (Simulation.wellFormed g).failure o o) :
    o.Keeps s A := by
  cases h with
  | unfinished => trivial
  | done h => exact ⟨h.1.2.1, h.2.1, h.2.2⟩
  | raised h => exact ⟨h.1.2.1, h.2.1, h.2.2⟩

theorem Outcome.Keeps.bind {α β : Type} {s : Store} {A : Store → α → Prop} {B : Store → β → Prop}
    {c : Eval α} {k : α → Eval β} (hc : (c s).Keeps s A)
    (hk : ∀ a t, t.WellFormed → s.Grown t → A t a → (k a t).Keeps t B) :
    ((c >>= k) s).Keeps s B := by
  rw [Eval.bind_apply]
  rcases ho : c s with ⟨a, t⟩ | ⟨x, t⟩ | _ <;> rw [ho] at hc
  · obtain ⟨ht, hle, ha⟩ := hc
    exact .of_grown hle (hk a t ht hle ha)
  · exact hc
  · trivial

theorem Store.WellFormed.keeps_blocked {α : Type} {s : Store} {A : Store → α → Prop}
    {o : Obstacle} (hs : s.WellFormed)
    (ho : ∀ x, o = .failure x → ∀ v ∈ x.values, s.Has v) :
    (.blocked o s : Outcome α).Keeps s A := by
  cases o with
  | failure x => exact ⟨hs, .refl s, ho x rfl⟩
  | endless => trivial

theorem Obstacle.values_showing {P : Value → Prop} {r : Answer String} {f : String → Failure}
    (hr : ∀ {x}, r = .error (.failure x) → x.IsUnshown) (hf : ∀ t, ∀ v ∈ (f t).values, P v) :
    ∀ x, Obstacle.showing r f = .failure x → ∀ v ∈ x.values, P v := by
  intro x hx
  cases r with
  | ok t =>
    cases hx
    exact hf t
  | error o =>
    have hvalues : x.values = [] := (hr (congrArg Except.error hx)).values_eq
    simp [hvalues]

/-! ## Runs -/

namespace Interpreter

variable {i : Interpreter} {s t : Store} {e : Value} {f : FrameRef}

theorem Stands.mono (hle : s.Grown t) (h : i.Stands s) : i.Stands t where
  library := h.library
  globals := Nat.lt_of_lt_of_le h.globals hle.frames
  session := Nat.lt_of_lt_of_le h.session hle.frames

theorem Stands.machines (hi : i.Stands s) :
    (Simulation.wellFormed i.globals).Machines i.machine i.machine :=
  hi.library.elim fun _ hlibrary => (Simulation.wellFormed_data i.globals).machines hlibrary

theorem evaluate_keeps (hi : i.Stands s) (hs : s.WellFormed) (he : s.Has e)
    (hf : f < s.frames.size) : (i.machine.evaluate e f s).Keeps s Store.Has :=
  Simulation.keeps_of_ends (hi.machines.evaluate ⟨rfl, hs, hi.globals⟩ he hf)

theorem apply_keeps {fn : Value} {args : List Value} (hi : i.Stands s) (hs : s.WellFormed)
    (hfn : s.Has fn) (ha : ∀ a ∈ args, s.Has a) : (i.machine.apply fn args s).Keeps s Store.Has :=
  Simulation.keeps_of_ends (hi.machines.apply ⟨rfl, hs, hi.globals⟩ hfn ha)

theorem step_keeps (pos : Position) (hi : i.Stands s) (hs : s.WellFormed) (he : s.Has e)
    (hf : f < s.frames.size) :
    (i.machine.step e f pos s).Keeps s (Simulation.wellFormed i.globals).Known :=
  Simulation.keeps_of_ends (hi.machines.top.step pos ⟨rfl, hs, hi.globals⟩ he hf)

theorem resume_keeps {c : ClosureRef} (hi : i.Stands s) (hs : s.WellFormed)
    (hc : c < s.closures.size) (hf : f < s.frames.size) :
    (i.machine.resume (.call c f) s).Keeps s Store.Has :=
  Simulation.keeps_of_ends
    (hi.machines.top.finish (Nat.le_refl _) ⟨rfl, hs, hi.globals⟩ ⟨hc, hf⟩)

theorem submit_keeps (hi : i.Stands s) (hs : s.WellFormed) (he : s.Has e)
    (hf : f < s.frames.size) : (i.submit e f s).Keeps s Store.Has := by
  simp only [submit]
  split
  · rcases ht : s.text i.machine.depth e with o | t
    · refine hs.keeps_blocked fun x hx => ?_
      rw [hx] at ht
      simp [(Store.textIn_error ht).values_eq]
    · obtain ⟨hs', hle⟩ := hs.traced t
      exact .of_grown hle (evaluate_keeps (hi.mono hle) hs' (he.mono hle) hf)
  · exact evaluate_keeps hi hs he hf

theorem runAll_keeps {ev : Value → FrameRef → Eval Value}
    (hev : ∀ {s : Store} {e : Value} {f : FrameRef}, i.Stands s → s.WellFormed → s.Has e →
      f < s.frames.size → (ev e f s).Keeps s Store.Has) :
    ∀ {es : List Value} {last : Value} {s : Store}, i.Stands s → s.WellFormed →
      f < s.frames.size → (∀ e ∈ es, s.Has e) → s.Has last →
      (runAll ev f last es s).Keeps s Store.Has
  | [], last, s, _, hs, _, _, hlast => ⟨hs, .refl s, hlast⟩
  | e :: es, last, s, hi, hs, hf, hes, _ => by
    have he := hev hi hs (hes e List.mem_cons_self) hf
    simp only [runAll]
    rcases ho : ev e f s with ⟨v, t⟩ | ⟨x, t⟩ | _ <;> rw [ho] at he
    · obtain ⟨ht, hle, hv⟩ := he
      exact .of_grown hle (runAll_keeps hev (hi.mono hle) ht (Nat.lt_of_lt_of_le hf hle.frames)
        (fun e hm => (hes e (List.mem_cons_of_mem _ hm)).mono hle) hv)
    · exact he
    · trivial

theorem runBelow_keeps {ev : Value → FrameRef → Eval Value} {es : List Value}
    (hev : ∀ {s : Store} {e : Value} {f : FrameRef}, i.Stands s → s.WellFormed → s.Has e →
      f < s.frames.size → (ev e f s).Keeps s Store.Has)
    (hi : i.Stands s) (hs : s.WellFormed) (hf : f < s.frames.size) (hes : ∀ e ∈ es, s.Has e) :
    (runBelow ev f es s).Keeps s Store.Has := by
  obtain ⟨hs', hle⟩ := hs.addFrame (f := .empty (some f)) (by simp [Frame.empty])
    (by simp [Frame.empty]) (by rintro o ⟨⟩; exact hf)
  have hnew : s.frames.size < (s.addEmptyFrame (some f)).2.frames.size := by
    simp [Store.addEmptyFrame, Store.addFrame]
  exact .of_grown hle (runAll_keeps hev (hi.mono hle) hs' hnew (fun e he => (hes e he).mono hle)
    trivial)

theorem run_keeps {es : List Value} (hi : i.Stands s) (hs : s.WellFormed)
    (hes : ∀ e ∈ es, s.Has e) : (i.run es s).Keeps s Store.Has := by
  obtain ⟨hs', hle⟩ := hs.record (r := .running es.length) (by simp [LogRecord.values])
  have hrun : (runBelow i.submit i.globals es (s.record (.running es.length))).Keeps s Store.Has :=
    .of_grown hle (runBelow_keeps submit_keeps (hi.mono hle) hs'
      (Nat.lt_of_lt_of_le hi.globals hle.frames) fun e he => (hes e he).mono hle)
  simp only [run]
  rcases ho : runBelow i.submit i.globals es (s.record (.running es.length)) with
    ⟨v, t⟩ | ⟨x, t⟩ | _ <;> rw [ho] at hrun
  · exact hrun
  · obtain ⟨ht, hle, hx⟩ := hrun
    simp only []
    split
    · obtain ⟨ht', hle'⟩ := ht.record (r := .failed x) hx
      exact ⟨ht', hle.trans hle', fun v hv => (hx v hv).mono hle'⟩
    · exact ⟨ht, hle, hx⟩
  · trivial

end Interpreter

/-! ## Changes of bindings -/

/-- The number of the next primitive after those that a table makes. -/
def Registry.after (next : Nat) (table : Table) : Nat :=
  table.foldl (fun k e => k + e.2.fresh) next

namespace Store

variable {s t : Store} {f : FrameRef} {x : Failure}

theorem wellFormed_empty : ({} : Store).WellFormed where
  pair hr := absurd hr (Nat.not_lt_zero _)
  vec hr := absurd hr (Nat.not_lt_zero _)
  body hr := absurd hr (Nat.not_lt_zero _)
  captured hr := absurd hr (Nat.not_lt_zero _)
  params _ := .nil
  vars hf := absurd hf (Nat.not_lt_zero _)
  names _ := .nil
  outer ho := by cases ho
  log r hr := by cases hr

theorem WellFormed.parts (hs : s.WellFormed) {v : Value} (hv : s.Has v) :
    ∀ w ∈ s.parts v, s.Has w := by
  intro w hw
  cases v with
  | pair r =>
    obtain ⟨hhead, htail⟩ := hs.pair hv
    simp only [Store.parts, List.mem_cons, List.not_mem_nil, or_false] at hw
    rcases hw with rfl | rfl
    · exact hhead
    · exact htail
  | vec r => exact hs.vec hv w hw
  | closure r => exact hs.body hv w hw
  | _ => cases hw

/-- Binds primitives in a frame, one after the other. -/
def bindAll (s : Store) (f : FrameRef) (bs : List (Symbol × Primitive)) : Store :=
  bs.foldl (fun s (b : Symbol × Primitive) => s.bind f b.1 (.prim b.2)) s

theorem WellFormed.bindAll (f : FrameRef) :
    ∀ (bs : List (Symbol × Primitive)) {s : Store}, s.WellFormed →
      (s.bindAll f bs).WellFormed ∧ s.Grown (s.bindAll f bs)
  | [], s, hs => ⟨hs, .refl s⟩
  | b :: bs, s, hs => by
    obtain ⟨hs₁, hle₁⟩ := hs.bind (v := .prim b.2) trivial f b.1
    obtain ⟨hs₂, hle₂⟩ := hs₁.bindAll f bs
    exact ⟨hs₂, hle₁.trans hle₂⟩

/-- Definitions of symbols cannot fail. -/
theorem defineAll_symbols (depth : Nat) (f : FrameRef) :
    ∀ (bs : List (Symbol × Primitive)) (s : Store),
      Store.defineAll depth f (bs.map fun b => (.sym b.1, .prim b.2)) s
        = .done () (s.bindAll f bs)
  | [], _ => rfl
  | b :: bs, s => by
    rw [List.map_cons, Store.defineAll, Eval.bind_apply, define_sym]
    exact defineAll_symbols depth f bs (s.bind f b.1 (.prim b.2))

/-- Registering fails while the table is checked, with the store as it is, or not at all. -/
theorem register_cases (depth : Nat) (f : FrameRef) (table : Registry.Table) (s : Store) :
    (∃ bs, Registry.bindings s depth s.primitives table = .ok bs
        ∧ Store.register depth f table s
          = .done () ({ s with primitives := Registry.after s.primitives table }.bindAll f
            (Bindings.merge (· == ·) bs)))
      ∨ ∃ o, Registry.bindings s depth s.primitives table = .error o
        ∧ Store.register depth f table s = .blocked o s := by
  rcases hbs : Registry.bindings s depth s.primitives table with o | bs
  · refine .inr ⟨o, rfl, ?_⟩
    simp only [Store.register, hbs]
  · refine .inl ⟨bs, rfl, ?_⟩
    simp only [Store.register, hbs]
    exact defineAll_symbols depth f _ _

theorem bindings_error {depth : Nat} :
    ∀ {table : Registry.Table} {next : Nat},
      Registry.bindings s depth next table = .error (.failure x) → x.values = []
  | [], next, h => by cases h
  | (key, target) :: rest, next, h => by
    rw [Registry.bindings] at h
    rcases hn : key.toSymbol with y | n <;> rw [hn] at h
    · cases h
      cases key <;> cases hn
      rfl
    · rcases hp : target.primitive s depth next n with y | p <;>
        simp only [Bind.bind, Except.bind, hp] at h
      · cases h
        cases target with
        | operation op => cases hp
        | value v =>
          cases v <;> simp only [Registry.Target.primitive, Except.error.injEq, reduceCtorEq] at hp
          all_goals
            rw [List.eq_nil_iff_forall_not_mem]
            exact Obstacle.values_showing describe_error (fun _ _ hv => by cases hv) x hp
      · rcases hb : Registry.bindings s depth (next + target.fresh) rest with y | bs <;>
          rw [hb] at h <;> cases h
        exact bindings_error hb

section Changes

variable (hs : s.WellFormed) (depth : Nat) (f : FrameRef)

include hs

theorem register_keeps (table : Registry.Table) :
    (Store.register depth f table s).Keeps s fun _ _ => True := by
  rcases register_cases depth f table s with ⟨bs, -, heq⟩ | ⟨o, ho, heq⟩ <;> rw [heq]
  · have hs₁ (n : Nat) : { s with primitives := n }.WellFormed := { hs with }
    obtain ⟨ht, hle⟩ := (hs₁ _).bindAll f (Bindings.merge (· == ·) bs)
    exact ⟨ht, { hle with }, trivial⟩
  · refine hs.keeps_blocked fun x hx => ?_
    rw [hx] at ho
    simp [bindings_error ho]

theorem define_keeps {name v : Value} (hn : s.Has name) (hv : s.Has v) :
    (Store.define depth f name v s).Keeps s fun _ _ => True := by
  cases name with
  | sym n => exact ⟨(hs.bind hv f n).1, (hs.bind hv f n).2, trivial⟩
  | _ =>
    exact hs.keeps_blocked (Obstacle.values_showing describe_error fun _ => by
      simpa [Failure.values] using hn)

theorem assign_keeps {name v : Value} (hn : s.Has name) (hv : s.Has v) :
    (Store.assign depth f name v s).Keeps s fun _ _ => True := by
  refine .bind (A := fun _ _ => True) ?_ fun n t ht hle _ => ?_
  · simp only [key]
    split
    · exact ⟨hs, .refl s, by simp [Failure.values]⟩
    · exact ⟨hs, .refl s, trivial⟩
  · split
    · rename_i u hu
      obtain ⟨m, -, hu⟩ := Option.bind_eq_some_iff.1 hu
      obtain ⟨g, -, rfl⟩ := Option.map_eq_some_iff.1 hu
      obtain ⟨hu, hle'⟩ := ht.bind (hv.mono hle) g m
      exact ⟨hu, hle', trivial⟩
    · exact ht.keeps_blocked (Obstacle.values_showing display_error fun _ => by
        simpa [Failure.values] using hn.mono hle)

end Changes

theorem defineAll_keeps (depth : Nat) (f : FrameRef) :
    ∀ {entries : List (Value × Value)} {s : Store}, s.WellFormed →
      (∀ e ∈ entries, s.Has e.1 ∧ s.Has e.2) →
      (Store.defineAll depth f entries s).Keeps s fun _ _ => True
  | [], s, hs, _ => ⟨hs, .refl s, trivial⟩
  | (name, v) :: rest, s, hs, he => by
    obtain ⟨hn, hv⟩ := he (name, v) List.mem_cons_self
    refine .bind (define_keeps hs depth f hn hv) fun _ t ht hle _ => ?_
    exact defineAll_keeps depth f ht fun e hm =>
      (he e (List.mem_cons_of_mem _ hm)).imp (.mono hle) (.mono hle)

theorem WellFormed.addEmptyFrame {o : Option FrameRef} (hs : s.WellFormed)
    (ho : ∀ f ∈ o, f < s.frames.size) :
    (s.addEmptyFrame o).2.WellFormed ∧ s.Grown (s.addEmptyFrame o).2
      ∧ s.frames.size < (s.addEmptyFrame o).2.frames.size := by
  obtain ⟨hs', hle⟩ := hs.addFrame (f := .empty o) (by simp [Frame.empty]) (by simp [Frame.empty])
    ho
  exact ⟨hs', hle, by simp [Store.addEmptyFrame, Store.addFrame]⟩

end Store

/-- How a new interpreter comes about: a frame for the globals, the table registered there if one is
given, and a frame below for the session. -/
theorem Interpreter.create_eq (table : Option Registry.Table) (traced : Bool) (s : Store) :
    Interpreter.create table traced s =
      match table.elim (pure ()) (Store.register Machine.defaultLimit s.frames.size)
        (s.addEmptyFrame none).2 with
      | .done _ u => .done ⟨.standard s.frames.size, s.frames.size, u.frames.size, traced⟩
          (u.addEmptyFrame (some s.frames.size)).2
      | .raised x u => .raised x u
      | .unfinished => .unfinished := by
  cases table with
  | none => rfl
  | some entries =>
    have hregister : Interpreter.create (some entries) traced s
        = (Store.register Machine.defaultLimit s.frames.size entries >>= fun _ => do
          let session ← Eval.update (·.addEmptyFrame (some s.frames.size))
          pure ⟨.standard s.frames.size, s.frames.size, session, traced⟩)
            (s.addEmptyFrame none).2 := rfl
    rw [hregister, Eval.bind_apply, Option.elim_some]
    rcases Store.register Machine.defaultLimit s.frames.size entries (s.addEmptyFrame none).2
      with _ | _ | _ <;> rfl

theorem Interpreter.create_cases {s t : Store} {table : Option Registry.Table} {traced : Bool}
    {i : Interpreter} (h : Interpreter.create table traced s = .done i t) :
    ∃ u : Store, (u = (s.addEmptyFrame none).2
        ∨ ∃ entries, Store.register Machine.defaultLimit s.frames.size entries
          (s.addEmptyFrame none).2 = .done () u)
      ∧ i = ⟨.standard s.frames.size, s.frames.size, u.frames.size, traced⟩
      ∧ t = (u.addEmptyFrame (some s.frames.size)).2 := by
  rw [create_eq] at h
  cases table with
  | none =>
    cases h
    exact ⟨_, .inl rfl, rfl, rfl⟩
  | some entries =>
    rw [Option.elim_some] at h
    rcases hu : Store.register Machine.defaultLimit s.frames.size entries
      (s.addEmptyFrame none).2 with ⟨_, u⟩ | _ | _ <;> rw [hu] at h <;> cases h
    exact ⟨u, .inr ⟨entries, hu⟩, rfl, rfl⟩

theorem Interpreter.define_keeps {i : Interpreter} {s : Store} {v : Value} (hs : s.WellFormed)
    (key : Registry.Key) (hv : s.Has v) : (i.define key v s).Keeps s fun _ _ => True := by
  cases key with
  | text t =>
    have hsym : s.Has (.sym ⟨t⟩) := trivial
    exact Store.define_keeps hs i.machine.depth i.globals hsym hv
  | symbol n =>
    have hsym : s.Has (.sym n) := trivial
    exact Store.define_keeps hs i.machine.depth i.globals hsym hv
  | other type => exact ⟨hs, .refl s, by simp [Failure.values]⟩

theorem Interpreter.create_keeps {s : Store} (hs : s.WellFormed) (table : Option Registry.Table)
    (traced : Bool) : (Interpreter.create table traced s).Keeps s fun t i => i.Stands t := by
  obtain ⟨hs₁, hle₁, hnew₁⟩ := hs.addEmptyFrame (o := none) (by simp)
  have hkeeps : (table.elim (pure ()) (Store.register Machine.defaultLimit s.frames.size)
      (s.addEmptyFrame none).2).Keeps (s.addEmptyFrame none).2 fun _ _ => True := by
    cases table with
    | none => exact ⟨hs₁, .refl _, trivial⟩
    | some entries => exact Store.register_keeps hs₁ _ _ entries
  rw [create_eq]
  refine .of_grown hle₁ ?_
  generalize table.elim (pure ()) (Store.register Machine.defaultLimit s.frames.size)
    (s.addEmptyFrame none).2 = o at hkeeps
  rcases o with ⟨_, u⟩ | ⟨x, u⟩ | _
  · obtain ⟨hu, hle, -⟩ := hkeeps
    have hg : s.frames.size < u.frames.size := Nat.lt_of_lt_of_le hnew₁ hle.frames
    obtain ⟨ht, hle', hnew⟩ := hu.addEmptyFrame (o := some s.frames.size) (by simpa using hg)
    exact ⟨ht, hle.trans hle', ⟨_, rfl⟩, Nat.lt_of_lt_of_le hg hle'.frames, hnew⟩
  · exact hkeeps
  · trivial

/-! ## Whatever a host does -/

namespace Host

/-- What the host refers to is there. -/
structure Sound (h : Host) : Prop where
  store : h.store.WellFormed
  interpreters : ∀ i ∈ h.interpreters, i.Stands h.store
  values : ∀ v ∈ h.values, h.store.Has v
  frames : ∀ f ∈ h.frames, f < h.store.frames.size
  calls : ∀ c f, (c, f) ∈ h.calls → c < h.store.closures.size ∧ f < h.store.frames.size

namespace Sound

variable {h : Host} (hh : h.Sound) {t : Store}

include hh

theorem holds {v : Value} (hv : h.Holds v) : h.store.Has v := by
  cases v <;> first | exact hh.values _ hv | trivial

theorem gets {vs : List Value} (ht : t.WellFormed ∧ h.store.Grown t) (hvs : ∀ v ∈ vs, t.Has v) :
    (h.gets vs t).Sound where
  store := ht.1
  interpreters i hi := (hh.interpreters i hi).mono ht.2
  values v hv := (List.mem_append.1 hv).elim (hvs v) fun hv => (hh.values v hv).mono ht.2
  frames f hf := Nat.lt_of_lt_of_le (hh.frames f hf) ht.2.frames
  calls c f hc := (hh.calls c f hc).imp (Nat.lt_of_lt_of_le · ht.2.closures)
    (Nat.lt_of_lt_of_le · ht.2.frames)

theorem getsFrames {fs : List FrameRef} (ht : t.WellFormed ∧ h.store.Grown t)
    (hfs : ∀ f ∈ fs, f < t.frames.size) : (h.getsFrames fs t).Sound where
  store := ht.1
  interpreters i hi := (hh.interpreters i hi).mono ht.2
  values v hv := (hh.values v hv).mono ht.2
  frames f hf := (List.mem_append.1 hf).elim (hfs f) fun hf =>
    Nat.lt_of_lt_of_le (hh.frames f hf) ht.2.frames
  calls c f hc := (hh.calls c f hc).imp (Nat.lt_of_lt_of_le · ht.2.closures)
    (Nat.lt_of_lt_of_le · ht.2.frames)

theorem after {o : Outcome Value} (ho : o.Keeps h.store Store.Has) : (h.after o).Sound := by
  cases o with
  | done v t => exact hh.gets ⟨ho.1, ho.2.1⟩ (by simpa using ho.2.2)
  | raised x t => exact hh.gets ⟨ho.1, ho.2.1⟩ ho.2.2
  | unfinished => exact hh

theorem afterStep {g : FrameRef} {o : Outcome Step}
    (ho : o.Keeps h.store (Simulation.wellFormed g).Known) : (h.afterStep o).Sound := by
  cases o with
  | done st t =>
    obtain ⟨ht, hle, hst⟩ := ho
    cases st with
    | value v => exact hh.gets ⟨ht, hle⟩ fun w hw => List.mem_singleton.1 hw ▸ hst
    | call c f =>
      have hc : (h.gets [.closure c] t).Sound :=
        hh.gets ⟨ht, hle⟩ fun w hw => List.mem_singleton.1 hw ▸ hst.1
      have hf : ((h.gets [.closure c] t).getsFrames [f] t).Sound :=
        hc.getsFrames ⟨ht, .refl t⟩ fun g hg => List.mem_singleton.1 hg ▸ hst.2
      refine { hf with calls := fun c' f' hm => ?_ }
      rcases List.mem_cons.1 hm with heq | hm
      · cases heq
        exact hst
      · exact hf.calls c' f' hm
  | raised x t => exact hh.gets ⟨ho.1, ho.2.1⟩ ho.2.2
  | unfinished => exact hh

theorem afterChange {o : Outcome Unit} (ho : o.Keeps h.store fun _ _ => True) :
    (h.afterChange o).Sound := by
  cases o with
  | done _ t => exact hh.gets ⟨ho.1, ho.2.1⟩ (by simp)
  | raised x t => exact hh.gets ⟨ho.1, ho.2.1⟩ ho.2.2
  | unfinished => exact hh

theorem afterCreate {o : Outcome Interpreter} (ho : o.Keeps h.store fun t i => i.Stands t) :
    (h.afterCreate o).Sound := by
  cases o with
  | done i t =>
    obtain ⟨ht, hle, hstands⟩ := ho
    have hf : (h.getsFrames [i.globals, i.session] t).Sound :=
      hh.getsFrames ⟨ht, hle⟩ (by simpa using ⟨hstands.globals, hstands.session⟩)
    exact { hf with interpreters := List.forall_mem_cons.2 ⟨hstands, hf.interpreters⟩ }
  | raised x t => exact hh.gets ⟨ho.1, ho.2.1⟩ ho.2.2
  | unfinished => exact hh

/-- Nothing that a host does makes it refer to what is not there. -/
theorem next {h' : Host} (hn : Next h h') : h'.Sound := by
  have hstands {i : Interpreter} (hi : i ∈ h.interpreters) := hh.interpreters i hi
  have hsame : h.store.WellFormed ∧ h.store.Grown h.store := ⟨hh.store, .refl _⟩
  cases hn with
  | create table traced => exact hh.afterCreate (Interpreter.create_keeps hh.store table traced)
  | limit hi limit equality depth =>
    refine { hh with interpreters := List.forall_mem_cons.2 ⟨?_, hh.interpreters⟩ }
    exact ⟨⟨equality, rfl⟩, (hstands hi).globals, (hstands hi).session⟩
  | eval hi he =>
    exact hh.after (Interpreter.submit_keeps (hstands hi) hh.store (hh.holds he)
      (hstands hi).session)
  | run hi he =>
    exact hh.after (Interpreter.run_keeps (hstands hi) hh.store fun e hm => hh.holds (he e hm))
  | runProgram hi he hf =>
    exact hh.after (Interpreter.runBelow_keeps Interpreter.evaluate_keeps (hstands hi) hh.store
      (hh.frames _ hf) fun e hm => hh.holds (he e hm))
  | evaluate hi he hf =>
    exact hh.after (Interpreter.evaluate_keeps (hstands hi) hh.store (hh.holds he) (hh.frames _ hf))
  | apply hi hfn ha =>
    exact hh.after (Interpreter.apply_keeps (hstands hi) hh.store (hh.holds hfn) fun a hm =>
      hh.holds (ha a hm))
  | step hi he hf pos =>
    exact hh.afterStep (Interpreter.step_keeps pos (hstands hi) hh.store (hh.holds he)
      (hh.frames _ hf))
  | resume hi hc =>
    obtain ⟨hc, hf⟩ := hh.calls _ _ hc
    exact hh.after (Interpreter.resume_keeps (hstands hi) hh.store hc hf)
  | define hi key hv =>
    exact hh.afterChange (Interpreter.define_keeps hh.store key (hh.holds hv))
  | register hi table => exact hh.afterChange (Store.register_keeps hh.store _ _ table)
  | primitive name op =>
    refine hh.gets ?_ (by simp [Store.Has])
    cases name <;> exact ⟨{ hh.store with }, { Store.Grown.refl h.store with }⟩
  | rootFrame =>
    obtain ⟨ht, hle, hnew⟩ := hh.store.addEmptyFrame (o := none) (by simp)
    exact hh.getsFrames ⟨ht, hle⟩ (by simpa using hnew)
  | @child f hf =>
    obtain ⟨ht, hle, hnew⟩ := hh.store.addEmptyFrame (o := some f) (by simpa using hh.frames f hf)
    exact hh.getsFrames ⟨ht, hle⟩ (by simpa using hnew)
  | frameDefine depth hf hn hv =>
    exact hh.afterChange (Store.define_keeps hh.store depth _ (hh.holds hn) (hh.holds hv))
  | frameAssign depth hf hn hv =>
    exact hh.afterChange (Store.assign_keeps hh.store depth _ (hh.holds hn) (hh.holds hv))
  | frameUpdate depth hf he =>
    exact hh.afterChange (Store.defineAll_keeps depth _ hh.store fun e hm =>
      (he e hm).imp hh.holds hh.holds)
  | pair hhead htail =>
    exact hh.gets (hh.store.addPair (hh.holds hhead) (hh.holds htail))
      (by simp [Store.addPair, Store.Has])
  | vector hi =>
    exact hh.gets (hh.store.addVec fun v hv => hh.holds (hi v (by simpa using hv)))
      (by simp [Store.addVec, Store.Has])
  | closure depth hb henv hc =>
    obtain ⟨hp, hbody, he⟩ := Agreement.makeClosure_ok hc
    refine hh.gets (hh.store.addClosure (he ▸ hh.frames _ henv) hp fun e hm => ?_)
      (by simp [Store.addClosure, Store.Has])
    exact hh.holds (hb e (hbody ▸ hm))
  | setHead hr hv => exact hh.gets (hh.store.setHead (hh.holds hv) _) (by simp)
  | setTail hr hv => exact hh.gets (hh.store.setTail (hh.holds hv) _) (by simp)
  | push hr hv => exact hh.gets (hh.store.push (hh.holds hv) _) (by simp)
  | part hv hw => exact hh.gets hsame (by simpa using hh.store.parts (hh.holds hv) _ hw)
  | captured hr =>
    exact hh.getsFrames hsame (by simpa using hh.store.captured (hh.holds hr))
  | binding hf hb => exact hh.gets hsame (by simpa using hh.store.vars (hh.frames _ hf) _ hb)
  | outward hf hg =>
    exact hh.getsFrames hsame (by simpa using hh.store.chain_lt _ (hh.frames _ hf) _ hg)

end Sound

theorem sound_of_reachable {h : Host} (hr : h.Reachable) : h.Sound := by
  induction hr with
  | refl =>
    exact ⟨Store.wellFormed_empty, by simp, by simp, by simp, by simp⟩
  | tail _ hn ih => exact ih.next hn

/-- Whatever a host has done, the store is well formed and what the host holds is there; from every
frame the links lead to a last one, and `chain`, `root` and `find?` are what they lead to. -/
theorem wellFormed_of_reachable {h : Host} (hr : h.Reachable) :
    h.Sound ∧ ∀ f < h.store.frames.size, h.store.Outward f (h.store.chain f)
      ∧ (∀ g ∈ h.store.chain f, g < h.store.frames.size)
      ∧ (h.store.chain f).getLast? = some (h.store.root f)
      ∧ ∀ n, h.store.find? f n = (h.store.chain f).find? fun g => (h.store.frame g).binds n := by
  have hs := sound_of_reachable hr
  refine ⟨hs, fun f hf => ⟨hs.store.outward_chain f, ?_, ?_, ?_⟩⟩
  · exact hs.store.chain_lt f hf
  · exact h.store.getLast?_chain f
  · exact fun n => h.store.find?_chain n f

/-- An interpreter without primitives in a new store. -/
def plainInterpreter : Interpreter := ⟨.standard 0, 0, 1, false⟩

/-- A host that has just made an interpreter. -/
def started : Host where
  store := { frames := #[.empty none, .empty (some 0)] }
  interpreters := [plainInterpreter]
  frames := [0, 1]

/-- The same with the expression `(def x (fn [a] a))`. -/
def furnished : Host where
  store := {
    pairs := #[⟨.symbol "a", .nil⟩, ⟨.vec 0, .pair 0⟩, ⟨.symbol "fn", .pair 1⟩, ⟨.pair 2, .nil⟩,
      ⟨.symbol "x", .pair 3⟩, ⟨.symbol "def", .pair 4⟩]
    vecs := #[#[.symbol "a"]]
    frames := #[.empty none, .empty (some 0)] }
  interpreters := [plainInterpreter]
  values := [.pair 5, .pair 4, .pair 3, .pair 2, .pair 1, .pair 0, .vec 0]
  frames := [0, 1]

theorem reachable_furnished : furnished.Reachable := by
  have hcreate : Next {} started := Next.create (h := {}) none false
  have hvector := (Relation.ReflTransGen.single hcreate).tail
    (@Next.vector _ [.symbol "a"] (by simp [Value.symbol, Holds]))
  have hbody := hvector.tail (@Next.pair _ (.symbol "a") .nil trivial trivial)
  have hparams := hbody.tail (@Next.pair _ (.vec 0) (.pair 0) (.tail _ (.head _)) (.head _))
  have hfn := hparams.tail (@Next.pair _ (.symbol "fn") (.pair 1) trivial (.head _))
  have hvalue := hfn.tail (@Next.pair _ (.pair 2) .nil (.head _) trivial)
  have hname := hvalue.tail (@Next.pair _ (.symbol "x") (.pair 3) trivial (.head _))
  exact hname.tail (@Next.pair _ (.symbol "def") (.pair 4) trivial (.head _))

/-- The expression is evaluated, and then the function that it gave is called without its
argument. -/
theorem wellFormed_of_reachable_furnished :
    ∃ h : Host, h.Reachable ∧ (h.store.frame 1).vars = [(⟨"x"⟩, .closure 0)]
      ∧ plainInterpreter.eval (.pair 6) h.store = .raised (.arity 1 0) h.store
      ∧ h.Sound ∧ h.store.Outward 1 (h.store.chain 1) := by
  have hdef := reachable_furnished.tail
    (.eval (i := plainInterpreter) (e := .pair 5) (.head _) (.head _))
  have hcall := hdef.tail (@Next.pair _ (.closure 0) .nil (.head _) trivial)
  have hfails := hcall.tail (.eval (i := plainInterpreter) (e := .pair 6) (.head _) (.head _))
  obtain ⟨hsound, hframes⟩ := wellFormed_of_reachable hfails
  exact ⟨_, hfails, rfl, rfl, hsound, (hframes 1 (by decide)).1⟩

end Host

end LispCore

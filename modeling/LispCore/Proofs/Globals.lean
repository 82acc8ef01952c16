import LispCore.Proofs.Courses
import LispCore.Proofs.Host
import LispCore.Proofs.Names

/-!
# The names of the global frame

Programs do not see each other's definitions. The code of an interpreter runs in its session frame,
in the frames of its runs and in the frames of calls, wherever the functions that are called come
from, and none of these is the global frame. Only a primitive that has code evaluated there could
bind a name in it. Without one the global names are what the host has made them: those from before
and those it has defined and registered since (`Interpreter.globals_of_dealings`).
-/

namespace LispCore

/-- Runs in which no code runs in the frame `g`. -/
def Course.outside (g : FrameRef) : Course where
  barred f := f = g
  rel s t := ∀ n, (t.frame g).binds n = (s.frame g).binds n
  refl _ _ := rfl
  trans _ h h' n := (h' n).trans (h n)
  define _ _ hf _ := by rw [Store.frame_bind, if_neg fun h => hf h.1]
  assign _ hn := Store.binds_rebind hn g
  lambda _ _ _ := rfl
  enter _ hb _ := by rw [Store.frame_addFrame, if_neg (Nat.ne_of_lt (hb g rfl))]
  record _ _ _ := rfl

theorem Course.outside_allows (globals : FrameRef) :
    (Course.outside globals).Allows (fun p => p.op ≠ .eval) globals where
  addPair _ _ _ := rfl
  addVec _ _ _ := rfl
  setHead _ _ _ _ _ _ := rfl
  setTail _ _ _ _ _ _ := rfl
  push _ _ _ _ _ _ := rfl
  note _ _ _ := rfl
  globals hp hop := absurd hop hp

/-- From `s` to `t` the frame `f` has come to bind the names `ns` and no others, and the primitives
are still those of `G`. -/
structure Store.Gains (G : Primitive → Prop) (f : FrameRef) (s t : Store) (ns : List Symbol) :
    Prop where
  primsIn : t.PrimsIn G
  extended : s.Extended t
  names : ∀ n, (t.frame f).binds n = true ↔ (s.frame f).binds n = true ∨ n ∈ ns

namespace Store.Gains

variable {G : Primitive → Prop} {f : FrameRef} {s t u : Store} {ns ms : List Symbol}

theorem refl (hs : s.PrimsIn G) : Gains G f s s [] := ⟨hs, .refl s, by simp⟩

theorem trans (h : Gains G f s t ns) (h' : Gains G f t u ms) : Gains G f s u (ms ++ ns) where
  primsIn := h'.primsIn
  extended := h.extended.trans h'.extended
  names n := by rw [h'.names, h.names, List.mem_append, or_assoc, or_comm (a := n ∈ ns)]

theorem of_names (h : Gains G f s t ns) (hiff : ∀ n, n ∈ ns ↔ n ∈ ms) : Gains G f s t ms :=
  { h with names := fun n => by rw [h.names, hiff] }

theorem of_along (h : t.PrimsIn G ∧ (Course.outside f).Along s t) : Gains G f s t [] where
  primsIn := h.1
  extended := h.2.1
  names n := by simp [h.2.2 n]

theorem bind {v : Value} (hf : f < s.frames.size) (hs : s.PrimsIn G) (hv : v.PrimsIn G)
    (n : Symbol) : Gains G f s (s.bind f n v) [n] where
  primsIn := (hs.agreement.bind hv f n).primsIn
  extended := .bind s f n v
  names m := by
    rw [frame_bind, if_pos ⟨rfl, hf⟩, Frame.binds_set, Bool.or_eq_true, beq_iff_eq,
      List.mem_singleton, or_comm]
    exact or_congr_right eq_comm

theorem bindAll :
    ∀ {bs : List (Symbol × Primitive)} {s : Store}, f < s.frames.size → s.PrimsIn G →
      (∀ b ∈ bs, G b.2) →
      Gains G f s (s.bindAll f bs) (bs.map Prod.fst)
  | [], _, _, hs, _ => .refl hs
  | b :: bs, s, hf, hs, hbs => by
    have hfirst := bind (v := .prim b.2) hf hs (hbs b List.mem_cons_self) b.1
    have hrest := bindAll (Nat.lt_of_lt_of_le hf hfirst.extended.frames) hfirst.primsIn
      fun c hc => hbs c (List.mem_cons_of_mem _ hc)
    refine (hfirst.trans hrest).of_names fun n => ?_
    rw [List.mem_append, List.mem_singleton, List.map_cons, List.mem_cons,
      or_comm (a := n ∈ bs.map Prod.fst)]

theorem register {depth : Nat} {table : Registry.Table} {bs : List (Symbol × Primitive)}
    (hf : f < s.frames.size) (hs : s.PrimsIn G)
    (hbs : Registry.bindings s depth s.primitives table = .ok bs) (hG : ∀ b ∈ bs, G b.2)
    (ht : Store.register depth f table s = .done () t) : Gains G f s t (bs.map Prod.fst) := by
  rcases register_cases depth f table s with ⟨bs', hbs', heq⟩ | ⟨o, ho, -⟩
  · cases hbs.symm.trans hbs'
    cases heq.symm.trans ht
    have hcount : Gains G f s { s with primitives := Registry.after s.primitives table } [] :=
      ⟨{ hs with }, { Extended.refl s with }, by simp [Store.frame]⟩
    have hsize : f < { s with primitives := Registry.after s.primitives table }.frames.size := hf
    have hbound := bindAll hsize hcount.primsIn (Bindings.forall_mem_merge hG)
    refine (hcount.trans hbound).of_names fun n => ?_
    rw [List.append_nil]
    exact Bindings.mem_keys_merge
  · cases hbs.symm.trans ho

end Store.Gains

namespace Interpreter

/-- The interpreter's frames are there, the session below the globals and nothing around these. -/
structure Rooted (i : Interpreter) (s : Store) : Prop where
  globals : i.globals < s.frames.size
  session : i.session < s.frames.size
  outermost : (s.frame i.globals).outer = none
  below : (s.frame i.session).outer = some i.globals

/-- The name is visible in the frame that a run starts in. -/
def Shows (i : Interpreter) (s : Store) (n : Symbol) : Prop :=
  (s.addEmptyFrame (some i.globals)).2.contains s.frames.size (.sym n) = true

variable {i : Interpreter} {G : Primitive → Prop} {s t : Store}

namespace Rooted

theorem mono (hi : i.Rooted s) (hle : s.Extended t) : i.Rooted t where
  globals := Nat.lt_of_lt_of_le hi.globals hle.frames
  session := Nat.lt_of_lt_of_le hi.session hle.frames
  outermost := (hle.outer hi.globals).trans hi.outermost
  below := (hle.outer hi.session).trans hi.below

theorem session_ne (hi : i.Rooted s) : i.session ≠ i.globals := by
  intro heq
  have hbelow := hi.below
  rw [heq, hi.outermost] at hbelow
  cases hbelow

theorem guards (hi : i.Rooted s) : (Course.outside i.globals).Guards s := by
  rintro _ rfl
  exact hi.globals

theorem shows_iff (hi : i.Rooted s) (n : Symbol) :
    i.Shows s n ↔ (s.frame i.globals).binds n = true := by
  have hnew : (s.addEmptyFrame (some i.globals)).2.frame s.frames.size
      = .empty (some i.globals) := by
    rw [Store.addEmptyFrame, Store.frame_addFrame, if_pos rfl]
  have hold : (s.addEmptyFrame (some i.globals)).2.frame i.globals = s.frame i.globals := by
    rw [Store.addEmptyFrame, Store.frame_addFrame, if_neg (Nat.ne_of_lt hi.globals)]
  have houter : (s.addEmptyFrame (some i.globals)).2.outer? s.frames.size = some i.globals := by
    rw [Store.outer?, hnew]
    simpa [Frame.empty] using hi.globals
  have hlast : (s.addEmptyFrame (some i.globals)).2.outer? i.globals = none := by
    rw [Store.outer?, hold, hi.outermost]
    rfl
  change ((s.addEmptyFrame (some i.globals)).2.find? s.frames.size n).isSome = true ↔ _
  rw [Store.find?_eq, hnew, houter, Option.bind_some, Store.find?_eq, hold, hlast]
  cases (s.frame i.globals).binds n <;> simp [Frame.empty, Frame.binds]

end Rooted

theorem create_rooted {table : Option Registry.Table} {traced : Bool}
    (h : Interpreter.create table traced s = .done i t) : i.Rooted t := by
  obtain ⟨u, hu, rfl, rfl⟩ := create_cases h
  have hnew : s.frames.size < (s.addEmptyFrame none).2.frames.size := by
    simp [Store.addEmptyFrame, Store.addFrame]
  have houtermost : ((s.addEmptyFrame none).2.frame s.frames.size).outer = none := by
    rw [Store.addEmptyFrame, Store.frame_addFrame, if_pos rfl]
    rfl
  have hle : (s.addEmptyFrame none).2.Extended u := by
    rcases hu with rfl | ⟨entries, hu⟩
    · exact .refl _
    · rcases Store.register_cases Machine.defaultLimit s.frames.size entries
        (s.addEmptyFrame none).2 with ⟨bs, hbs, -⟩ | ⟨o, -, heq⟩
      · exact (Store.Gains.register (G := fun _ => True) hnew (Store.primsIn_true _) hbs
          (fun _ _ => trivial) hu).extended
      · exact absurd (heq.symm.trans hu) (Outcome.blocked_ne_done _ _ _ _)
  have hlast : u.Extended (u.addEmptyFrame (some s.frames.size)).2 := .addFrame u _
  refine ⟨Nat.lt_of_lt_of_le hnew (hle.trans hlast).frames, ?_,
    ((hle.trans hlast).outer hnew).trans houtermost, ?_⟩
  · simp [Store.addEmptyFrame, Store.addFrame]
  · rw [Store.addEmptyFrame, Store.frame_addFrame, if_pos rfl]
    rfl

section Runs

variable (hm : i.machine.library.KeepsTo (.outside i.globals) G) {f : FrameRef}

include hm

theorem submit_gains {e : Value} (hi : i.Rooted s) (hs : s.PrimsIn G) (he : e.PrimsIn G)
    (hf : f ≠ i.globals) (ht : (i.submit e f s).Leaves t) : Store.Gains G i.globals s t [] := by
  simp only [submit] at ht
  split at ht
  · rcases htext : s.text i.machine.depth e with o | text <;> rw [htext] at ht
    · cases o <;> cases ht
      exact .refl hs
    · have htraced : Store.Gains G i.globals s (s.traced text) [] :=
        .of_along ⟨{ hs with }, .traced s text, fun _ => rfl⟩
      exact htraced.trans (.of_along (Course.evaluate hm htraced.primsIn
        (hi.mono htraced.extended).guards he hf ht))
  · exact .of_along (Course.evaluate hm hs hi.guards he hf ht)

theorem runAll_gains (hf : f ≠ i.globals) :
    ∀ {es : List Value} {last : Value} {s : Store}, i.Rooted s → s.PrimsIn G →
      (∀ e ∈ es, e.PrimsIn G) → (runAll i.submit f last es s).Leaves t →
      Store.Gains G i.globals s t []
  | [], last, s, _, hs, _, ht => by
    cases ht
    exact .refl hs
  | e :: es, last, s, hi, hs, hes, ht => by
    have hfirst {u : Store} (hu : (i.submit e f s).Leaves u) : Store.Gains G i.globals s u [] :=
      submit_gains hm hi hs (hes e List.mem_cons_self) hf hu
    simp only [runAll] at ht
    rcases ho : i.submit e f s with ⟨v, u⟩ | ⟨x, u⟩ | _ <;> rw [ho] at ht hfirst
    · have hu := hfirst (.done v u)
      exact hu.trans (runAll_gains hf (hi.mono hu.extended) hu.primsIn
        (fun e he => hes e (List.mem_cons_of_mem _ he)) ht)
    · cases ht
      exact hfirst (.raised x _)
    · cases ht

theorem runBelow_gains {es : List Value} (hi : i.Rooted s) (hs : s.PrimsIn G)
    (hes : ∀ e ∈ es, e.PrimsIn G) (ht : (runBelow i.submit i.globals es s).Leaves t) :
    Store.Gains G i.globals s t [] := by
  have hfresh : Store.Gains G i.globals s (s.addEmptyFrame (some i.globals)).2 [] := by
    refine .of_along ⟨?_, .addFrame s _, (Course.outside i.globals).enter _ hi.guards⟩
    exact (hs.agreement.addFrame (fun _ => trivial) (fun _ => .inl trivial) (by simp [Frame.empty])
      fun _ _ => trivial).primsIn
  exact hfresh.trans (runAll_gains hm (Nat.ne_of_gt hi.globals) (hi.mono hfresh.extended)
    hfresh.primsIn hes ht)

theorem run_gains {es : List Value} (hi : i.Rooted s) (hs : s.PrimsIn G)
    (hes : ∀ e ∈ es, e.PrimsIn G) (ht : (i.run es s).Leaves t) :
    Store.Gains G i.globals s t [] := by
  have hrecord {s : Store} (r : LogRecord) (hs : s.PrimsIn G) :
      Store.Gains G i.globals s (s.record r) [] :=
    .of_along ⟨(hs.agreement.record r).primsIn, .record s r, fun _ => rfl⟩
  have hbegun := hrecord (.running es.length) hs
  have hrun {u : Store}
      (hu : (runBelow i.submit i.globals es (s.record (.running es.length))).Leaves u) :
      Store.Gains G i.globals s u [] :=
    hbegun.trans (runBelow_gains hm (hi.mono hbegun.extended) hbegun.primsIn hes hu)
  simp only [run] at ht
  rcases ho : runBelow i.submit i.globals es (s.record (.running es.length)) with
    ⟨v, u⟩ | ⟨x, u⟩ | _ <;> rw [ho] at ht hrun
  · cases ht
    exact hrun (.done v _)
  · cases ht
    have hu := hrun (.raised x u)
    split
    · exact hu.trans (hrecord (.failed x) hu.primsIn)
    · exact hu
  · cases ht

end Runs

/-- What a host does with an interpreter from `s` on, bringing in no primitives but those of `G`:
it has code evaluated and run, to whatever end, it defines names and registers primitives or fails
to, and in between it makes and changes data. It has defined or registered the names in the list. -/
inductive Dealings (i : Interpreter) (G : Primitive → Prop) (s : Store) :
    List Symbol → Store → Prop
  | start : Dealings i G s [] s
  | eval {ns : List Symbol} {t u : Store} (h : Dealings i G s ns t) {e : Value}
    (he : e.PrimsIn G) (hu : (i.eval e t).Leaves u) : Dealings i G s ns u
  | run {ns : List Symbol} {t u : Store} (h : Dealings i G s ns t) {es : List Value}
    (hes : ∀ e ∈ es, e.PrimsIn G) (hu : (i.run es t).Leaves u) : Dealings i G s ns u
  | data {ns : List Symbol} {t u : Store} (h : Dealings i G s ns t) (hle : t.Extended u)
    (hframes : u.frames = t.frames) (hu : u.PrimsIn G) : Dealings i G s ns u
  | define {ns : List Symbol} {t u : Store} (h : Dealings i G s ns t) {key : Registry.Key}
    {n : Symbol} {v : Value} (hn : key.toSymbol = .ok n) (hv : v.PrimsIn G)
    (hu : i.define key v t = .done () u) : Dealings i G s (n :: ns) u
  | register {ns : List Symbol} {t u : Store} (h : Dealings i G s ns t) {table : Registry.Table}
    {bs : List (Symbol × Primitive)}
    (hbs : Registry.bindings t i.machine.depth t.primitives table = .ok bs)
    (hG : ∀ b ∈ bs, G b.2) (hu : i.register table t = .done () u) :
    Dealings i G s (bs.map Prod.fst ++ ns) u
  | defineFails {ns : List Symbol} {t u : Store} (h : Dealings i G s ns t) {key : Registry.Key}
    {v : Value} {x : Failure} (hu : i.define key v t = .raised x u) : Dealings i G s ns u
  | registerFails {ns : List Symbol} {t u : Store} (h : Dealings i G s ns t)
    {table : Registry.Table} {x : Failure} (hu : i.register table t = .raised x u) :
    Dealings i G s ns u

theorem Dealings.gains {ns : List Symbol}
    (hm : i.machine.library.KeepsTo (.outside i.globals) G) (hi : i.Rooted s) (hs : s.PrimsIn G)
    (h : i.Dealings G s ns t) : Store.Gains G i.globals s t ns := by
  induction h with
  | start => exact .refl hs
  | eval _ he hu ih =>
    have hroot := hi.mono ih.extended
    exact ih.trans (submit_gains hm hroot ih.primsIn he hroot.session_ne hu)
  | run _ hes hu ih => exact ih.trans (run_gains hm (hi.mono ih.extended) ih.primsIn hes hu)
  | data _ hle hframes hu ih =>
    exact ih.trans (.of_along ⟨hu, hle, fun n => by simp only [Store.frame, hframes]⟩)
  | define _ hn hv hu ih =>
    simp only [Interpreter.define, hn] at hu
    cases hu
    exact ih.trans (.bind (hi.mono ih.extended).globals ih.primsIn hv _)
  | register _ hbs hG hu ih =>
    exact ih.trans (.register (hi.mono ih.extended).globals ih.primsIn hbs hG hu)
  | @defineFails ns t u _ key v x hu ih =>
    cases key <;> cases hu
    exact ih
  | @registerFails ns t u _ table x hu ih =>
    rcases Store.register_cases i.machine.depth i.globals table t with
      ⟨bs, -, heq⟩ | ⟨o, -, heq⟩
    · cases heq.symm.trans hu
    · cases o <;> cases heq.symm.trans hu
      exact ih

/-- The names of the global frame are those it had and those that the host has defined and
registered since. What was evaluated and run, with values or failures, has added none and taken
none away, so with nothing defined or registered they are the same as before; and these are the
names that a later run sees at its start. The standard primitives but `eval` are such as are
asked for here. -/
theorem globals_of_dealings {ns : List Symbol}
    (hm : i.machine.library.KeepsTo (.outside i.globals) G) (hi : i.Rooted s) (hs : s.PrimsIn G)
    (h : i.Dealings G s ns t) :
    i.Rooted t
    ∧ (∀ n, (t.frame i.globals).binds n = true ↔ (s.frame i.globals).binds n = true ∨ n ∈ ns)
    ∧ (∀ n, i.Shows t n ↔ i.Shows s n ∨ n ∈ ns)
    ∧ ∀ limit globals,
      (Library.standard limit globals).KeepsTo (.outside globals) fun p => p.op ≠ .eval := by
  have hgains := h.gains hm hi hs
  have ht := hi.mono hgains.extended
  refine ⟨ht, hgains.names, fun n => ?_, fun limit globals => ?_⟩
  · rw [ht.shows_iff, hi.shows_iff]
    exact hgains.names n
  · exact (Course.outside_allows globals).standard limit

/-- The code `(def x 1)` and `(set y 2)`, and `y` as a global name. -/
def namesake : Store where
  pairs := #[⟨.symbol "def", .pair 1⟩, ⟨.symbol "x", .pair 2⟩, ⟨.int 1, .nil⟩,
    ⟨.symbol "set", .pair 4⟩, ⟨.symbol "y", .pair 5⟩, ⟨.int 2, .nil⟩]
  frames := #[⟨[(⟨"y"⟩, .int 1)], none⟩, .empty (some 0)]

/-- The same after a run of `(def x 1)`. -/
def namesakeRun : Store :=
  { namesake with
    frames := #[⟨[(⟨"y"⟩, .int 1)], none⟩, .empty (some 0), ⟨[(⟨"x"⟩, .int 1)], some 0⟩]
    log := #[.running 1] }

theorem eval_namesakeRun :
    Host.plainInterpreter.eval (.pair 3) namesakeRun
      = .done (.int 2) (namesakeRun.bind 0 ⟨"y"⟩ (.int 2)) := by
  have hfind : namesakeRun.find? 1 ⟨"y"⟩ = some 0 := by
    rw [Store.find?_eq]
    change namesakeRun.find? 0 ⟨"y"⟩ = some 0
    rw [Store.find?_eq]
    rfl
  have hvalue : (Host.plainInterpreter.machine.evaluator .exhausted 999).value (.int 2) 1
      namesakeRun = .done (.int 2) namesakeRun := rfl
  have hstep : Host.plainInterpreter.machine.top.step (.pair 3) 1 .tail namesakeRun
      = Host.plainInterpreter.machine.formStep
        (Host.plainInterpreter.machine.evaluator .exhausted 999) 1 .tail
        (.assign ⟨"y"⟩ (.int 2)) namesakeRun := rfl
  simp only [Machine.formStep, Eval.bind_apply, hvalue, Store.assign_sym, hfind] at hstep
  change Eval.guarded Machine.defaultLimit
    (Host.plainInterpreter.machine.top.complete Machine.defaultTurns (.pair 3) 1) namesakeRun = _
  simp only [Eval.guarded, Evaluator.complete, Eval.bind_apply, hstep]
  rfl

/-- The host defines `y`, a run defines `x` for itself, and the session gives `y` another value. -/
theorem globals_of_dealings_namesake :
    ∃ t, Host.plainInterpreter.Dealings (fun p => p.op ≠ .eval) Host.started.store [⟨"y"⟩] t
      ∧ (t.frame 0).get? ⟨"y"⟩ = some (.int 2)
      ∧ ¬Host.plainInterpreter.Shows t ⟨"x"⟩ ∧ Host.plainInterpreter.Shows t ⟨"y"⟩ := by
  have hcreated : Interpreter.create none false {}
      = .done Host.plainInterpreter Host.started.store := rfl
  have hroot := create_rooted hcreated
  have hs : Host.started.store.PrimsIn fun p => p.op ≠ .eval := by
    refine .of_contents ?_ ?_ ?_ ?_ <;> simp [Host.started, Frame.empty]
  have hcode : namesake.PrimsIn fun p => p.op ≠ .eval := by
    refine .of_contents ?_ ?_ ?_ ?_ <;> simp [namesake, Value.PrimsIn, Value.symbol, Frame.empty]
  have hdefine : Host.plainInterpreter.define (.text "y") (.int 1) Host.started.store
      = .done () (Host.started.store.bind 0 ⟨"y"⟩ (.int 1)) := rfl
  have hdata : (Host.started.store.bind 0 ⟨"y"⟩ (.int 1)).Extended namesake :=
    .of_grown ⟨by decide, by decide, by decide, by decide⟩ rfl rfl
  have hrun : (Host.plainInterpreter.run [.pair 0] namesake).Leaves namesakeRun :=
    Outcome.Leaves.done (Value.int 1) namesakeRun
  have heval : (Host.plainInterpreter.eval (.pair 3) namesakeRun).Leaves
      (namesakeRun.bind 0 ⟨"y"⟩ (.int 2)) := by
    rw [eval_namesakeRun]
    exact .done _ _
  have hdealings : Host.plainInterpreter.Dealings (fun p => p.op ≠ .eval) Host.started.store
      [⟨"y"⟩] (namesakeRun.bind 0 ⟨"y"⟩ (.int 2)) := by
    refine .eval (.run (.data (.define .start rfl ?_ hdefine) hdata rfl hcode) ?_ hrun) ?_ heval
    · trivial
    · simp [Value.PrimsIn]
    · trivial
  obtain ⟨-, -, hshows, -⟩ := globals_of_dealings ((Course.outside_allows 0).standard _) hroot hs
    hdealings
  refine ⟨_, hdealings, rfl, ?_, (hshows _).2 (.inr (by decide))⟩
  rw [hshows, hroot.shows_iff]
  decide

end Interpreter

end LispCore

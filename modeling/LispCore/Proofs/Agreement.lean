import LispCore.Eval.Form
import LispCore.Store.Equality
import LispCore.Proofs.Unshown
import LispCore.Store.Frames
import Mathlib.Tactic.SplitIfs

/-!
# Stores that agree on what is known

Someone who knows the values in `V` and the frames in `F` can read the pairs, vectors, closures and
frames among them, and comes to know what these hold. If two stores have as many objects of each
kind and the same contents wherever such a reader looks (`Agreement`), every question that the
evaluator or the library puts to a store has one answer in both, and what the answer holds is
again known. With one store on both sides an agreement says that what is known is closed under
reading.

What an expression is refused with is a `Refusal`: it speaks of known values only, or it is the
failure to write a text. What stands in the way of an answer may also be a search without end, which
is no refusal (`Blocks`).
-/

namespace LispCore

/-- A value that holds no other and does nothing. -/
def Value.isPlain : Value → Bool
  | .pair _ => false
  | .vec _ => false
  | .prim _ => false
  | .closure _ => false
  | _ => true

structure Agreement (V : Value → Prop) (F : FrameRef → Prop) (s s' : Store) : Prop where
  pairs_size : s.pairs.size = s'.pairs.size
  vecs_size : s.vecs.size = s'.vecs.size
  closures_size : s.closures.size = s'.closures.size
  frames_size : s.frames.size = s'.frames.size
  plain : ∀ {v : Value}, v.isPlain = true → V v
  pair : ∀ {r : PairRef}, V (.pair r) →
    s.pair r = s'.pair r ∧ V (s.pair r).head ∧ V (s.pair r).tail
  vec : ∀ {r : VecRef}, V (.vec r) → s.vec r = s'.vec r ∧ ∀ v ∈ (s.vec r).toList, V v
  closure : ∀ {r : ClosureRef}, V (.closure r) →
    s.closure r = s'.closure r ∧ ∀ e ∈ (s.closure r).body, V e
  frame : ∀ {f : FrameRef}, F f → s.frame f = s'.frame f
    ∧ (∀ b ∈ (s.frame f).vars, V b.2) ∧ ∀ o, (s.frame f).outer = some o → F o

/-- What the evaluator refuses an expression with. -/
inductive Refusal (V : Value → Prop) : Failure → Prop
  | unbound (n : Symbol) : Refusal V (.unbound (.sym n) n.name)
  | arity (expected got : Nat) : Refusal V (.arity expected got)
  | malformed (reason : Malformation) (expr : Option Value) (h : ∀ v ∈ expr, V v) :
    Refusal V (.malformed reason expr)
  | notCallable (v : Value) (shown : String) (h : V v) : Refusal V (.notCallable v shown)
  | unshown {x : Failure} (hx : x.IsUnshown) : Refusal V x

/-- What keeps the evaluator from reading an expression: a failure among these is a refusal. -/
def Blocks (V : Value → Prop) (o : Obstacle) : Prop := ∀ x, o = .failure x → Refusal V x

/-- What a form in the frame `env` holds is known, and a function's parameters are all different. -/
def Form.Known (V : Value → Prop) (env : FrameRef) : Form → Prop
  | .define _ e => V e
  | .assign _ e => V e
  | .cond c t e => V c ∧ V t ∧ ∀ a ∈ e, V a
  | .loop c body => V c ∧ ∀ e ∈ body, V e
  | .sequence body => ∀ e ∈ body, V e
  | .lambda c => c.env = env ∧ c.params.Nodup ∧ ∀ e ∈ c.body, V e
  | .quote v => V v

namespace Blocks

variable {s : Store} {V : Value → Prop} {v : Value}

theorem of_failure {x : Failure} (hx : Refusal V x) : Blocks V (.failure x) := by
  rintro _ ⟨⟩
  exact hx

theorem showing {shown : Answer String} {f : String → Failure}
    (hshown : ∀ x, shown = .error (.failure x) → x.IsUnshown) (hf : ∀ t, Refusal V (f t)) :
    Blocks V (.showing shown f) := by
  intro x hx
  rcases shown with o | t
  · exact .unshown (hshown x (congrArg Except.error hx))
  · cases hx
    exact hf t

theorem describing (hv : V v) (depth : Nat) (reason : String → Malformation) :
    Blocks V (.showing (s.describe depth v) fun t => .malformed (reason t) (some v)) :=
  .showing (fun _ => Store.describe_error) fun _ => .malformed _ _ (by simpa using hv)

theorem of_elementsWithin {stop : Failure} (hstop : Refusal V stop) :
    ∀ (n : Nat) {v : Value} {o : Obstacle}, s.elementsWithin stop n v = .error o → Blocks V o
  | n, v, o, he => by
    cases v with
    | pair r =>
      cases n with
      | zero =>
        cases he
        exact nofun
      | succ n =>
        rw [Store.elementsWithin] at he
        rcases hr : s.elementsWithin stop n (s.pair r).tail with o' | ws <;> rw [hr] at he <;>
          cases he
        exact of_elementsWithin hstop n hr
    | nil => simp [Store.elementsWithin] at he
    | _ =>
      simp only [Store.elementsWithin, Except.error.injEq] at he
      rintro x rfl
      cases he
      exact hstop

theorem of_toList {what : String} {o : Obstacle} (hv : V v)
    (he : s.toList what v = .error o) : Blocks V o :=
  of_elementsWithin (.malformed _ _ (by simpa using hv)) _ he

theorem of_parameters {depth : Nat} :
    ∀ {vs : List Value} {o : Obstacle}, (∀ v ∈ vs, V v) → s.parameters depth vs = .error o →
      Blocks V o
  | [], o, _, he => by simp [Store.parameters] at he
  | v :: vs, o, hvs, he => by
    have hv := hvs v List.mem_cons_self
    cases v with
    | sym n =>
      simp only [Store.parameters] at he
      split at he
      · cases he
      · rename_i o' ho
        cases he
        exact of_parameters (fun w hw => hvs w (List.mem_cons_of_mem _ hw)) ho
    | _ =>
      simp only [Store.parameters, Except.error.injEq] at he
      exact he ▸ .describing hv depth _

theorem of_parameterList {depth : Nat} {o : Obstacle} (hv : V v)
    (he : s.parameterList depth v = .error o) : Blocks V o := by
  cases v with
  | pair r => exact of_toList hv he
  | vec r => simp [Store.parameterList] at he
  | nil => simp [Store.parameterList] at he
  | _ =>
    simp only [Store.parameterList, Except.error.injEq] at he
    exact he ▸ .describing hv depth _

theorem of_makeClosure {depth : Nat} {params body : List Value} {env : FrameRef} {o : Obstacle}
    (hp : ∀ v ∈ params, V v) (he : s.makeClosure depth params body env = .error o) :
    Blocks V o := by
  simp only [Store.makeClosure] at he
  split at he
  · split_ifs at he
    cases he
    exact of_failure (.malformed _ _ (by simp))
  · rename_i o' ho
    cases he
    exact of_parameters hp ho

end Blocks

namespace Agreement

variable {V : Value → Prop} {F : FrameRef → Prop} {s s' : Store} (h : Agreement V F s s')

include h

theorem symm : Agreement V F s' s where
  pairs_size := h.pairs_size.symm
  vecs_size := h.vecs_size.symm
  closures_size := h.closures_size.symm
  frames_size := h.frames_size.symm
  plain := h.plain
  pair hr := by
    obtain ⟨he, hh, ht⟩ := h.pair hr
    exact ⟨he.symm, he ▸ hh, he ▸ ht⟩
  vec hr := by
    obtain ⟨he, hv⟩ := h.vec hr
    exact ⟨he.symm, he ▸ hv⟩
  closure hr := by
    obtain ⟨he, hb⟩ := h.closure hr
    exact ⟨he.symm, he ▸ hb⟩
  frame hf := by
    obtain ⟨he, hb, ho⟩ := h.frame hf
    exact ⟨he.symm, he ▸ hb, he ▸ ho⟩

/-! ## Lists -/

theorem chainBound_eq : s.chainBound = s'.chainBound := by
  simp only [Store.chainBound, h.pairs_size]

theorem elementsWithin_eq (stop : Failure) :
    ∀ (n : Nat) {v : Value}, V v → s.elementsWithin stop n v = s'.elementsWithin stop n v
  | 0, v, _ => by cases v <;> simp [Store.elementsWithin]
  | n + 1, v, hv => by
    cases v with
    | pair r =>
      obtain ⟨hr, -, ht⟩ := h.pair hv
      simp only [Store.elementsWithin]
      rw [elementsWithin_eq stop n ht, hr]
    | _ => simp [Store.elementsWithin]

theorem elementsWithin_known {stop : Failure} :
    ∀ (n : Nat) {v : Value} {vs : List Value}, V v → s.elementsWithin stop n v = .ok vs →
      ∀ w ∈ vs, V w
  | 0, v, vs, _, he => by
    cases v <;> simp only [Store.elementsWithin, Except.ok.injEq, reduceCtorEq] at he
    simp [← he]
  | n + 1, v, vs, hv, he => by
    cases v with
    | pair r =>
      obtain ⟨-, hh, ht⟩ := h.pair hv
      rw [Store.elementsWithin] at he
      rcases hws : s.elementsWithin stop n (s.pair r).tail with o | ws <;> rw [hws] at he <;>
        cases he
      intro w hw
      rcases List.mem_cons.1 hw with rfl | hw
      · exact hh
      · exact elementsWithin_known n ht hws w hw
    | nil =>
      simp only [Store.elementsWithin, Except.ok.injEq] at he
      simp [← he]
    | _ => simp [Store.elementsWithin] at he

theorem toList_eq (what : String) {v : Value} (hv : V v) : s.toList what v = s'.toList what v := by
  simp only [Store.toList]
  rw [h.chainBound_eq, h.elementsWithin_eq _ _ hv]

theorem toList_known {what : String} {v : Value} {vs : List Value} (hv : V v)
    (he : s.toList what v = .ok vs) : ∀ w ∈ vs, V w := h.elementsWithin_known _ hv he

theorem lengthWithin_eq (whole : Value) :
    ∀ (n k : Nat) {v : Value}, V v → s.lengthWithin whole n k v = s'.lengthWithin whole n k v
  | 0, k, v, _ => by cases v <;> simp [Store.lengthWithin]
  | n + 1, k, v, hv => by
    cases v with
    | pair r =>
      obtain ⟨hr, -, ht⟩ := h.pair hv
      simp only [Store.lengthWithin]
      rw [lengthWithin_eq whole n (k + 1) ht, hr]
    | _ => simp [Store.lengthWithin]

theorem length_eq {v : Value} (hv : V v) : s.length v = s'.length v := by
  simp only [Store.length]
  rw [h.chainBound_eq, h.lengthWithin_eq _ _ _ hv]

/-! ## Text -/

theorem spineWithin_eq :
    ∀ (n : Nat) {v : Value}, V v → s.spineWithin n v = s'.spineWithin n v
  | 0, v, _ => by cases v <;> simp [Store.spineWithin]
  | n + 1, v, hv => by
    cases v with
    | pair r =>
      obtain ⟨hr, -, ht⟩ := h.pair hv
      simp only [Store.spineWithin]
      rw [spineWithin_eq n ht, hr]
    | _ => simp [Store.spineWithin]

theorem spineWithin_known :
    ∀ (n : Nat) {v : Value}, V v →
      (∀ w ∈ (s.spineWithin n v).1, V w) ∧ ∀ w ∈ (s.spineWithin n v).2, V w
  | 0, v, hv => by
    cases v <;> simp [Store.spineWithin, hv]
  | n + 1, v, hv => by
    cases v with
    | pair r =>
      obtain ⟨-, hh, ht⟩ := h.pair hv
      obtain ⟨h1, h2⟩ := spineWithin_known n ht
      simp only [Store.spineWithin, List.mem_cons]
      refine ⟨?_, h2⟩
      rintro w (rfl | hw)
      · exact hh
      · exact h1 w hw
    | _ => simp [Store.spineWithin, hv]

theorem spine_eq {v : Value} (hv : V v) : s.spine v = s'.spine v := by
  simp only [Store.spine]
  rw [h.chainBound_eq, h.spineWithin_eq _ hv]

theorem spine_known {v : Value} (hv : V v) :
    (∀ w ∈ (s.spine v).1, V w) ∧ ∀ w ∈ (s.spine v).2, V w := h.spineWithin_known _ hv

omit h in
theorem mapM_eq_of_mem {α : Type} {f g : Value → Answer α} :
    ∀ {vs : List Value}, (∀ v ∈ vs, f v = g v) → vs.mapM f = vs.mapM g
  | [], _ => rfl
  | v :: vs, hfg => by
    rw [List.mapM_cons, List.mapM_cons, hfg v List.mem_cons_self,
      mapM_eq_of_mem fun w hw => hfg w (List.mem_cons_of_mem _ hw)]

theorem viewWithin_eq :
    ∀ (n : Nat) {v : Value}, V v → s.viewWithin n v = s'.viewWithin n v
  | 0, v, _ => by cases v <;> simp [Store.viewWithin]
  | n + 1, v, hv => by
    cases v with
    | pair r =>
      obtain ⟨hheads, hlast⟩ := h.spine_known hv
      simp only [Store.viewWithin, ← h.spine_eq hv]
      rw [mapM_eq_of_mem fun w hw => viewWithin_eq n (hheads w hw)]
      rcases hl : (s.spine (.pair r)).2 with _ | w
      · rfl
      · simp only [viewWithin_eq n (hlast w hl)]
    | vec r =>
      obtain ⟨hr, hvs⟩ := h.vec hv
      simp only [Store.viewWithin, ← hr]
      rw [mapM_eq_of_mem fun w hw => viewWithin_eq n (hvs w hw)]
    | closure r =>
      obtain ⟨hr, hb⟩ := h.closure hv
      simp only [Store.viewWithin, ← hr]
      rw [mapM_eq_of_mem fun w hw => viewWithin_eq n (hb w hw)]
    | _ => simp [Store.viewWithin]

theorem textIn_eq (depth : Nat) (st : Datum.Style) {v : Value} (hv : V v) :
    s.textIn depth st v = s'.textIn depth st v := by
  simp only [Store.textIn]
  rw [h.viewWithin_eq depth hv]

theorem text_eq (depth : Nat) {v : Value} (hv : V v) : s.text depth v = s'.text depth v :=
  h.textIn_eq depth _ hv

theorem describeWithin_eq :
    ∀ (n : Nat) (path : List VecRef) {v : Value}, V v →
      s.describeWithin n path v = s'.describeWithin n path v
  | 0, path, v, hv => by
    cases v <;> simp only [Store.describeWithin] <;> exact h.text_eq _ hv
  | n + 1, path, v, hv => by
    cases v with
    | vec r =>
      obtain ⟨hr, hvs⟩ := h.vec hv
      simp only [Store.describeWithin, ← hr]
      rw [mapM_eq_of_mem fun w hw => describeWithin_eq n (r :: path) (hvs w hw)]
    | _ => simp only [Store.describeWithin] <;> exact h.text_eq _ hv

theorem describe_eq (depth : Nat) {v : Value} (hv : V v) :
    s.describe depth v = s'.describe depth v := h.describeWithin_eq _ _ hv

/-! ## Equality -/

omit h in
theorem allEqual_eq {f g : Value → Value → Answer Bool} :
    ∀ {as bs : List Value}, (∀ a ∈ as, ∀ b ∈ bs, f a b = g a b) →
      Store.allEqual f as bs = Store.allEqual g as bs
  | [], [], _ | [], _ :: _, _ | _ :: _, [], _ => by simp [Store.allEqual]
  | a :: as, b :: bs, hfg => by
    have ih : Store.allEqual f as bs = Store.allEqual g as bs := allEqual_eq fun a ha b hb =>
      hfg a (List.mem_cons_of_mem _ ha) b (List.mem_cons_of_mem _ hb)
    simp only [Store.allEqual]
    rw [hfg a List.mem_cons_self b List.mem_cons_self, ih]

theorem walkEqual_eq {f g : Value → Value → Answer Bool}
    (hfg : ∀ {a b : Value}, V a → V b → f a b = g a b) :
    ∀ (n : Nat) {a b : Value}, V a → V b → s.walkEqual f f n a b = s'.walkEqual g g n a b
  | 0, a, b, _, _ => by simp [Store.walkEqual]
  | n + 1, a, b, ha, hb => by
    by_cases hp : ∃ p q, a = .pair p ∧ b = .pair q
    · obtain ⟨p, q, rfl, rfl⟩ := hp
      obtain ⟨hp, hph, hpt⟩ := h.pair ha
      obtain ⟨hq, hqh, hqt⟩ := h.pair hb
      simp only [Store.walkEqual]
      rw [← hp, ← hq, hfg hph hqh, walkEqual_eq hfg n hpt hqt]
    · rw [Store.walkEqual, Store.walkEqual]
      · exact hfg ha hb
      all_goals
        rintro p q rfl rfl
        exact hp ⟨p, q, rfl, rfl⟩

theorem equalWithin_eq :
    ∀ (n : Nat) {a b : Value}, V a → V b → s.equalWithin n a b = s'.equalWithin n a b
  | 0, a, b, _, _ => rfl
  | n + 1, a, b, ha, hb => by
    have ih {a b : Value} (ha : V a) (hb : V b) := equalWithin_eq n ha hb
    cases a <;> cases b <;> simp only [Store.equalWithin]
    case pair.pair p q => rw [← h.pairs_size, h.walkEqual_eq ih _ ha hb]
    case vec.vec p q =>
      obtain ⟨hp, hpv⟩ := h.vec ha
      obtain ⟨hq, hqv⟩ := h.vec hb
      rw [← hp, ← hq, allEqual_eq fun a ha b hb => ih (hpv a ha) (hqv b hb)]

/-! ## Frames -/

theorem outer?_eq {f : FrameRef} (hf : F f) : s.outer? f = s'.outer? f := by
  simp only [Store.outer?]
  rw [(h.frame hf).1]

theorem outer?_known {f o : FrameRef} (hf : F f) (ho : s.outer? f = some o) : F o := by
  simp only [Store.outer?, Option.filter_eq_some_iff] at ho
  exact (h.frame hf).2.2 o ho.1

theorem find?_eq (n : Symbol) (f : FrameRef) (hf : F f) : s.find? f n = s'.find? f n := by
  rw [Store.find?_eq s, Store.find?_eq s', ← (h.frame hf).1, ← h.outer?_eq hf]
  rcases ho : s.outer? f with _ | o
  · rfl
  · have hlt := Store.lt_of_outer? ho
    simp only [Option.bind_some]
    rw [find?_eq n o (h.outer?_known hf ho)]
termination_by f

theorem find?_known {n : Symbol} (f : FrameRef) {g : FrameRef} (hf : F f)
    (hg : s.find? f n = some g) : F g ∧ (s.frame g).binds n = true := by
  rw [Store.find?_eq s] at hg
  split at hg
  · rename_i hb
    cases hg
    exact ⟨hf, hb⟩
  · rcases ho : s.outer? f with _ | o <;> rw [ho] at hg
    · cases hg
    · have hlt := Store.lt_of_outer? ho
      exact find?_known o (h.outer?_known hf ho) hg
termination_by f

theorem lookup?_eq (n : Symbol) {f : FrameRef} (hf : F f) : s.lookup? f n = s'.lookup? f n := by
  simp only [Store.lookup?]
  rw [← h.find?_eq n f hf]
  rcases hg : s.find? f n with _ | g
  · rfl
  · simp only [Option.bind_some]
    rw [(h.frame (h.find?_known f hf hg).1).1]

theorem lookup?_known {n : Symbol} {f : FrameRef} {v : Value} (hf : F f)
    (hv : s.lookup? f n = some v) : V v := by
  simp only [Store.lookup?, Option.bind_eq_some_iff] at hv
  obtain ⟨g, hg, hv⟩ := hv
  obtain ⟨l, l', hl, -⟩ := List.lookup_eq_some_iff.1 hv
  exact (h.frame (h.find?_known f hf hg).1).2.1 (n, v) (by simp [hl])

/-! ## Forms -/

theorem parameters_eq (depth : Nat) :
    ∀ {vs : List Value}, (∀ v ∈ vs, V v) → s.parameters depth vs = s'.parameters depth vs
  | [], _ => rfl
  | v :: vs, hvs => by
    have ih : s.parameters depth vs = s'.parameters depth vs :=
      parameters_eq depth fun w hw => hvs w (List.mem_cons_of_mem _ hw)
    have hd := h.describe_eq depth (hvs v List.mem_cons_self)
    cases v <;> simp only [Store.parameters, ih, hd]

theorem parameterList_eq (depth : Nat) {v : Value} (hv : V v) :
    s.parameterList depth v = s'.parameterList depth v := by
  have hd := h.describe_eq depth hv
  cases v with
  | pair r => exact h.toList_eq _ hv
  | vec r => simp only [Store.parameterList, (h.vec hv).1]
  | _ => simp only [Store.parameterList, hd]

theorem parameterList_known {depth : Nat} {v : Value} {vs : List Value} (hv : V v)
    (he : s.parameterList depth v = .ok vs) : ∀ w ∈ vs, V w := by
  cases v with
  | pair r => exact h.toList_known hv he
  | vec r =>
    simp only [Store.parameterList, Except.ok.injEq] at he
    exact he ▸ (h.vec hv).2
  | nil =>
    simp only [Store.parameterList, Except.ok.injEq] at he
    simp [← he]
  | _ => simp [Store.parameterList] at he

theorem makeClosure_eq (depth : Nat) {params : List Value} (body : List Value) (env : FrameRef)
    (hp : ∀ v ∈ params, V v) :
    s.makeClosure depth params body env = s'.makeClosure depth params body env := by
  simp only [Store.makeClosure, h.parameters_eq depth hp]

omit h in
theorem makeClosure_ok {depth : Nat} {params body : List Value} {env : FrameRef} {c : Closure}
    (he : s.makeClosure depth params body env = .ok c) :
    c.params.Nodup ∧ c.body = body ∧ c.env = env := by
  simp only [Store.makeClosure] at he
  split at he
  · split_ifs at he with hn
    cases he
    exact ⟨hn, rfl, rfl⟩
  · cases he

theorem ofOperands_eq (depth : Nat) (env : FrameRef) (k : Keyword) {vs : List Value}
    (hvs : ∀ v ∈ vs, V v) :
    Form.ofOperands s depth env k vs = Form.ofOperands s' depth env k vs := by
  fun_cases Form.ofOperands s depth env k vs with
  | case2 v e _ | case4 v e _ =>
    simp only [Form.ofOperands, Form.nameNotSymbol]
    rw [h.describe_eq depth (hvs v List.mem_cons_self)]
  | case9 ps body params hp =>
    have hps := hvs ps List.mem_cons_self
    simp only [Form.ofOperands]
    rw [← h.parameterList_eq depth hps, hp,
      h.makeClosure_eq depth body env (h.parameterList_known hps hp)]
  | case10 ps body x hp =>
    simp only [Form.ofOperands]
    rw [← h.parameterList_eq depth (hvs ps List.mem_cons_self), hp]
  | _ => simp [Form.ofOperands]

omit h in
theorem ofOperands_known {depth : Nat} {env : FrameRef} {k : Keyword} {vs : List Value}
    {form : Form} (hvs : ∀ v ∈ vs, V v) (he : Form.ofOperands s depth env k vs = .ok form) :
    form.Known V env := by
  revert he
  fun_cases Form.ofOperands s depth env k vs with
  | case9 ps body params hp =>
    intro he
    rcases hc : s.makeClosure depth params body env with x | c <;> rw [hc] at he
    · cases he
    · cases he
      obtain ⟨hn, hb, henv⟩ := makeClosure_ok hc
      exact ⟨henv, hn, fun e hm => hvs e (List.mem_cons_of_mem _ (hb ▸ hm))⟩
  | _ =>
    intro he
    cases he <;> simp_all [Form.Known]

theorem ofOperands_blocks {depth : Nat} {env : FrameRef} {k : Keyword} {vs : List Value}
    {o : Obstacle} (hvs : ∀ v ∈ vs, V v) (he : Form.ofOperands s depth env k vs = .error o) :
    Blocks V o := by
  revert he
  fun_cases Form.ofOperands s depth env k vs with
  | case2 v e _ | case4 v e _ =>
    intro he
    cases he
    exact .describing (hvs v List.mem_cons_self) depth _
  | case9 ps body params hp =>
    intro he
    rcases hc : s.makeClosure depth params body env with y | c <;> rw [hc] at he
    · cases he
      exact .of_makeClosure (h.parameterList_known (hvs ps List.mem_cons_self) hp) hc
    · cases he
  | case10 ps body y hp =>
    intro he
    cases he
    exact .of_parameterList (hvs ps List.mem_cons_self) hp
  | _ =>
    intro he
    cases he
    try exact .of_failure (.malformed _ _ (by simp))

theorem read_eq (depth : Nat) (env : FrameRef) (k : Keyword) {rest : Value} (hr : V rest) :
    Form.read s depth env k rest = Form.read s' depth env k rest := by
  simp only [Form.read]
  rw [← h.toList_eq _ hr]
  split
  · rename_i vs hvs
    exact h.ofOperands_eq depth env k (h.toList_known hr hvs)
  · rfl

theorem read_known {depth : Nat} {env : FrameRef} {k : Keyword} {rest : Value} {form : Form}
    (hr : V rest) (he : Form.read s depth env k rest = .ok form) : form.Known V env := by
  simp only [Form.read] at he
  split at he
  · rename_i vs hvs
    exact ofOperands_known (h.toList_known hr hvs) he
  · cases he

theorem read_blocks {depth : Nat} {env : FrameRef} {k : Keyword} {rest : Value} {o : Obstacle}
    (hr : V rest) (he : Form.read s depth env k rest = .error o) : Blocks V o := by
  simp only [Form.read] at he
  split at he
  · rename_i vs hvs
    exact h.ofOperands_blocks (h.toList_known hr hvs) he
  · rename_i y hy
    cases he
    exact .of_toList hr hy

end Agreement

end LispCore

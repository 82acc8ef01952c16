import LispCore.Library
import LispCore.Proofs.Simulation

/-!
# The standard library in two runs

The operations of the standard library keep to every simulation that allows for what they do to the
data of a program (`Simulation.Data`): new pairs and vectors, changes of known pairs and vectors,
notes, and code that `eval` runs in the global frame. A simulation that wants no part of some of
them knows no primitive that does them.
-/

namespace LispCore

/-- What a simulation has to allow for the operations of the standard library to keep to it. -/
structure Simulation.Data (S : Simulation) (globals : FrameRef) : Prop where
  addPair : ∀ {s s' : Store} {head tail : Value}, S.stores s s' → S.value s head →
    S.value s tail → S.stores (s.addPair ⟨head, tail⟩).2 (s'.addPair ⟨head, tail⟩).2
      ∧ S.le s (s.addPair ⟨head, tail⟩).2 ∧ S.value (s.addPair ⟨head, tail⟩).2 (.pair s.pairs.size)
  addVec : ∀ {s s' : Store} {items : Array Value}, S.stores s s' →
    (∀ v ∈ items.toList, S.value s v) → S.stores (s.addVec items).2 (s'.addVec items).2
      ∧ S.le s (s.addVec items).2 ∧ S.value (s.addVec items).2 (.vec s.vecs.size)
  setHead : ∀ {s s' : Store} {p : Primitive} {r : PairRef} {v : Value}, S.stores s s' →
    S.value s (.prim p) → p.op = .setHead → S.value s (.pair r) → S.value s v →
    S.stores (s.setHead r v) (s'.setHead r v) ∧ S.le s (s.setHead r v)
  setTail : ∀ {s s' : Store} {p : Primitive} {r : PairRef} {v : Value}, S.stores s s' →
    S.value s (.prim p) → p.op = .setTail → S.value s (.pair r) → S.value s v →
    S.stores (s.setTail r v) (s'.setTail r v) ∧ S.le s (s.setTail r v)
  push : ∀ {s s' : Store} {p : Primitive} {r : VecRef} {v : Value}, S.stores s s' →
    S.value s (.prim p) → p.op = .push → S.value s (.vec r) → S.value s v →
    S.stores (s.push r v) (s'.push r v) ∧ S.le s (s.push r v)
  note : ∀ {s s' : Store} (d : Datum), S.stores s s' →
    S.stores (s.note d) (s'.note d) ∧ S.le s (s.note d)
  globals : ∀ {s s' : Store} {p : Primitive}, S.stores s s' → S.value s (.prim p) →
    p.op = .eval → S.scope s globals
  fault : ∀ (s : Store) (f : Fault), S.cause s (.fault f)

theorem Agreement.truth_eq {V : Value → Prop} {F : FrameRef → Prop} {s s' : Store}
    (h : Agreement V F s s') {v : Value} (hv : V v) : s.truth v = s'.truth v := by
  cases v with
  | vec r => simp only [Store.truth, Store.isVacuous, (h.vec hv).1]
  | foreign o => cases o <;> rfl
  | _ => rfl

namespace Simulation

variable {S : Simulation} {s s' : Store}

section Combinators

variable {α : Type}

theorem Routines.ofExcept {r : Except Failure Value} (h : S.Reply s r) :
    S.Routines s s' (.ofExcept r) (.ofExcept r) := by
  cases r with
  | ok v => exact .done h
  | error x => exact .raise h

theorem Routines.ask {f : Store → Value} (heq : f s = f s') (hv : S.value s (f s)) :
    S.Routines s s' (.ask f) (.ask f) := by
  refine .read ?_
  rw [← heq]
  exact .done hv

theorem Routines.ask_bind {f : Store → α} {k : α → Routine Value} (heq : f s = f s')
    (hk : S.Routines s s' (k (f s)) (k (f s))) :
    S.Routines s s' (Routine.ask f >>= k) (Routine.ask f >>= k) := by
  refine .read (k := fun s => k (f s)) ?_
  simp only [← heq]
  exact hk

theorem Routines.ofAnswer_bind {r : Answer α} {k : α → Routine Value} (hs : S.stores s s')
    (hx : ∀ x, r = .error (.failure x) → Refusal (S.value s) x)
    (hk : ∀ a, r = .ok a → S.Routines s s' (k a) (k a)) :
    S.Routines s s' (Routine.ofAnswer r >>= k) (Routine.ofAnswer r >>= k) := by
  match r with
  | .ok a => exact hk a rfl
  | .error (.failure x) => exact .raise (S.cause_of_failure (S.refusal hs (hx x rfl)))
  | .error .endless => exact .never _

theorem Routines.query_bind {f : Store → Answer α} {k : α → Routine Value} (hs : S.stores s s')
    (heq : f s = f s') (hx : ∀ x, f s = .error (.failure x) → Refusal (S.value s) x)
    (hk : ∀ a, f s = .ok a → S.Routines s s' (k a) (k a)) :
    S.Routines s s' (Routine.query f >>= k) (Routine.query f >>= k) := by
  refine .read (k := fun s => (Routine.ofAnswer (f s)).bind k) ?_
  simp only [← heq]
  exact .ofAnswer_bind hs hx hk

theorem Routines.change {g : Store → Value × Store} (hv : (g s).1 = (g s').1)
    (h : S.stores (g s).2 (g s').2 ∧ S.le s (g s).2 ∧ S.value (g s).2 (g s).1) :
    S.Routines s s' (.change g) (.change g) := by
  refine .update h.1 h.2.1 ?_
  rw [← hv]
  exact .done h.2.2

theorem Routines.changing {v : Value} {g : Store → Store} (hv : S.value s v)
    (h : S.stores (g s) (g s') ∧ S.le s (g s)) :
    S.Routines s s' (Library.changing v g) (Library.changing v g) :=
  .change rfl ⟨h.1, h.2, S.value_mono h.2 hv⟩

end Combinators

theorem cause_of_refusal {x : Failure} (hs : S.stores s s') (h : Refusal (S.value s) x) :
    S.cause s x := S.cause_of_failure (S.refusal hs h)

theorem value_plain {v : Value} (hs : S.stores s s') (hv : v.isPlain = true) : S.value s v :=
  (S.agree hs).plain hv

theorem lengthWithin_error {whole : Value} {x : Failure} :
    ∀ (n k : Nat) (v : Value), s.lengthWithin whole n k v = .error (.failure x) →
      x = .malformed .notIterable (some whole)
  | 0, k, v, hx => by
    cases v <;> simp only [Store.lengthWithin, Except.error.injEq, Obstacle.failure.injEq,
      reduceCtorEq] at hx <;> exact hx.symm
  | n + 1, k, v, hx => by
    cases v with
    | pair r =>
      simp only [Store.lengthWithin] at hx
      exact lengthWithin_error n (k + 1) _ hx
    | nil => simp [Store.lengthWithin] at hx
    | _ => simpa [Store.lengthWithin] using hx.symm

/-! Comparing fails where it nests too deep, and in no other way. -/

section Equality

variable {x : Failure} {eq finish : Value → Value → Answer Bool}

theorem allEqual_error (heq : ∀ a b, eq a b = .error (.failure x) → x = .overflow)
    {as bs : List Value} (h : Store.allEqual eq as bs = .error (.failure x)) : x = .overflow := by
  fun_induction Store.allEqual eq as bs with
  | case1 => cases h
  | case2 a as b bs _ ih => exact ih h
  | case3 a as b bs _ => exact heq a b h
  | case4 => cases h

theorem walkEqual_error (heq : ∀ a b, eq a b = .error (.failure x) → x = .overflow)
    (hfinish : ∀ a b, finish a b = .error (.failure x) → x = .overflow) {n : Nat} {a b : Value}
    (h : s.walkEqual eq finish n a b = .error (.failure x)) : x = .overflow := by
  fun_induction Store.walkEqual s eq finish n a b with
  | case1 => cases h
  | case2 => cases h
  | case3 n p q _ _ ih => exact ih h
  | case4 n p q _ _ => exact heq _ _ h
  | case5 n a b _ => exact hfinish a b h

theorem equalWithin_error :
    ∀ {n : Nat} {a b : Value}, s.equalWithin n a b = .error (.failure x) → x = .overflow
  | 0, _, _, h => by
    cases h
    rfl
  | n + 1, a, b, h => by
    have ih (a b : Value) (h : s.equalWithin n a b = .error (.failure x)) := equalWithin_error h
    simp only [Store.equalWithin] at h
    split at h
    · exact walkEqual_error ih ih h
    · split_ifs at h
      exact allEqual_error ih h
    · cases h

end Equality

theorem lift_error {exact' : Int → Int → Int} {rounded : Float → Float → Float} {a b : Number}
    {x : Failure} (hx : Number.lift exact' rounded a b = .error x) :
    x = .fault .integerTooLarge := by
  have htoFloat {n : Number} {y : Failure} (hy : n.toFloat = .error y) :
      y = .fault .integerTooLarge := by
    cases n <;> simp only [Number.toFloat, reduceCtorEq] at hy
    split at hy <;> cases hy
    rfl
  have hmixed (hx : (do .ok (Number.float (rounded (← a.toFloat) (← b.toFloat))) :
      Except Failure Number) = .error x) : x = .fault .integerTooLarge := by
    rcases ha : a.toFloat with y | r <;> rw [ha] at hx
    · cases hx
      exact htoFloat ha
    · rcases hb : b.toFloat with y | r' <;> rw [hb] at hx <;> cases hx
      exact htoFloat hb
  cases a <;> cases b <;> simp only [Number.lift, reduceCtorEq] at hx <;> exact hmixed hx

theorem foldlM_error {f : Number → Number → Except Failure Number} {x : Failure}
    (hf : ∀ a b, f a b = .error x → x = .fault .integerTooLarge) :
    ∀ (ns : List Number) (n : Number), ns.foldlM f n = .error x → x = .fault .integerTooLarge
  | [], n, hx => by cases hx
  | b :: bs, n, hx => by
    rw [List.foldlM_cons] at hx
    rcases hn : f n b with y | n' <;> rw [hn] at hx
    · cases hx
      exact hf n b hn
    · exact foldlM_error hf bs n' hx

namespace Data

variable {globals : FrameRef} (D : S.Data globals)

include D

theorem addList {last : Value} :
    ∀ {vs : List Value} {s s' : Store}, S.stores s s' → S.value s last →
      (∀ v ∈ vs, S.value s v) → (s.addList last vs).1 = (s'.addList last vs).1
        ∧ S.stores (s.addList last vs).2 (s'.addList last vs).2 ∧ S.le s (s.addList last vs).2
        ∧ S.value (s.addList last vs).2 (s.addList last vs).1
  | [], s, s', hs, hl, _ => ⟨rfl, hs, S.le_refl s, hl⟩
  | v :: vs, s, s', hs, hl, hvs => by
    have hrest : ∀ w ∈ vs, S.value s w := fun w hw => hvs w (List.mem_cons_of_mem _ hw)
    obtain ⟨heq, hs₁, hle, ht⟩ := addList hs hl hrest
    obtain ⟨hs₂, hle', hv⟩ := D.addPair hs₁ (S.value_mono hle (hvs v List.mem_cons_self)) ht
    simp only [Store.addList]
    rw [← heq]
    exact ⟨by simp only [Store.addPair, (S.agree hs₁).pairs_size], hs₂, S.le_trans hle hle', hv⟩

section Operations

variable (hs : S.stores s s') {op : Operation} {args : List Value}

include hs

omit hs in
theorem bad : S.Routines s s' (Library.bad op) (Library.bad op) := .raise (D.fault s _)

omit hs in
theorem unary {k : Value → Routine Value} (ha : ∀ a ∈ args, S.value s a)
    (hk : ∀ {a : Value}, S.value s a → S.Routines s s' (k a) (k a)) :
    S.Routines s s' (Library.unary op args k) (Library.unary op args k) := by
  simp only [Library.unary]
  split
  · rename_i a
    exact hk (ha a List.mem_cons_self)
  · exact .raise (D.fault s _)

omit hs in
theorem binary {k : Value → Value → Routine Value} (ha : ∀ a ∈ args, S.value s a)
    (hk : ∀ {a b : Value}, S.value s a → S.value s b → S.Routines s s' (k a b) (k a b)) :
    S.Routines s s' (Library.binary op args k) (Library.binary op args k) := by
  simp only [Library.binary]
  split
  · rename_i a b
    exact hk (ha a List.mem_cons_self) (ha b (by simp))
  · exact .raise (D.fault s _)

omit hs in
theorem numeric {k : List Number → Routine Value} (hk : ∀ ns, S.Routines s s' (k ns) (k ns)) :
    S.Routines s s' (Library.numeric op args k) (Library.numeric op args k) := by
  simp only [Library.numeric]
  split
  · exact hk _
  · exact D.bad

theorem newList {vs : List Value} (hvs : ∀ v ∈ vs, S.value s v) :
    S.Routines s s' (Library.newList vs) (Library.newList vs) := by
  have hnil : S.value s .nil := value_plain hs rfl
  obtain ⟨heq, h⟩ := D.addList hs hnil hvs
  exact .change heq h

omit D in
theorem toList_bind {what : String} {list : Value} {k : List Value → Routine Value}
    (hl : S.value s list)
    (hk : ∀ vs, (∀ v ∈ vs, S.value s v) → S.Routines s s' (k vs) (k vs)) :
    S.Routines s s' (Routine.query (·.toList what list) >>= k)
      (Routine.query (·.toList what list) >>= k) := by
  refine .query_bind hs ((S.agree hs).toList_eq what hl) (fun x hx => ?_) fun vs hvs => ?_
  · exact Blocks.of_toList hl hx x rfl
  · exact hk vs ((S.agree hs).toList_known hl hvs)

end Operations

theorem mapEach {fn : Value} :
    ∀ {vs done : List Value} {s s' : Store}, S.stores s s' → S.value s fn →
      (∀ v ∈ done, S.value s v) → (∀ v ∈ vs, S.value s v) →
      S.Routines s s' (Library.mapEach fn done vs) (Library.mapEach fn done vs)
  | [], done, s, s', hs, _, hd, _ => D.newList hs fun v hv => hd v (List.mem_reverse.1 hv)
  | v :: vs, done, s, s', hs, hfn, hd, hvs => by
    refine .apply hfn (by simpa using hvs v List.mem_cons_self) fun {t t' r} ht hle hr => ?_
    cases r with
    | error x => exact .raise hr
    | ok w =>
      refine mapEach ht (S.value_mono hle hfn) (fun u hu => ?_) fun u hu =>
        S.value_mono hle (hvs u (List.mem_cons_of_mem _ hu))
      rcases List.mem_cons.1 hu with rfl | hu
      · exact hr
      · exact S.value_mono hle (hd u hu)

theorem attempt {fn : Value} (hfn : S.value s fn) :
    S.Routines s s' (Library.attempt fn) (Library.attempt fn) := by
  refine .apply hfn (by simp) fun {t t' r} ht _ hr => ?_
  cases r with
  | ok v => exact .done hr
  | error x =>
    simp only []
    split
    · refine .ofAnswer_bind ht (fun y hy => .unshown (Failure.isUnshown_of_text hy))
        fun text _ => ?_
      refine D.newList ht fun v hv => value_plain ht ?_
      simp only [List.mem_cons, List.not_mem_nil, or_false] at hv
      rcases hv with rfl | rfl <;> rfl
    · exact .raise hr

theorem combine {f : Number → Number → Except Failure Number} (hs : S.stores s s')
    (hf : ∀ a b x, f a b = .error x → x = .fault .integerTooLarge) (n : Number) (ns : List Number) :
    S.Routines s s' (Library.combine f n ns) (Library.combine f n ns) := by
  refine .ofExcept ?_
  rcases hr : ns.foldlM f n with x | r
  · rw [foldlM_error (fun a b => hf a b x) ns n hr]
    exact D.fault s _
  · refine value_plain hs ?_
    cases r <;> rfl

theorem operate (limit : Nat) {p : Primitive} {args : List Value} (hs : S.stores s s')
    (hp : S.value s (.prim p)) (ha : ∀ a ∈ args, S.value s a) :
    S.Routines s s' (Library.operate limit globals p.op args)
      (Library.operate limit globals p.op args) := by
  have hagree := S.agree hs
  rcases hop : p.op <;> simp only [Library.operate]
  case add => exact D.numeric fun ns => D.combine hs (fun _ _ _ => lift_error) _ _
  case sub =>
    refine D.numeric fun ns => ?_
    cases ns with
    | nil => exact D.bad
    | cons n ns => exact D.combine hs (fun _ _ _ => lift_error) _ _
  case mul => exact D.numeric fun ns => D.combine hs (fun _ _ _ => lift_error) _ _
  case less =>
    refine D.binary ha fun _ _ => ?_
    split
    · exact .done (value_plain hs rfl)
    · exact D.bad
  case equal =>
    refine D.binary ha fun hv hw => ?_
    refine .query_bind hs (hagree.equalWithin_eq limit hv hw) (fun x hx => ?_) fun r _ => ?_
    · exact .unshown (.inl (equalWithin_error hx))
    · exact .done (value_plain hs rfl)
  case list => exact D.newList hs ha
  case cons =>
    refine D.binary ha fun hv hw => .change ?_ (D.addPair hs hv hw)
    simp only [Store.addPair, hagree.pairs_size]
  case head =>
    refine D.unary ha fun {v} hv => ?_
    split
    · obtain ⟨heq, hh, -⟩ := hagree.pair hv
      exact .ask (congrArg Cell.head heq) hh
    · exact D.bad
  case tail =>
    refine D.unary ha fun {v} hv => ?_
    split
    · obtain ⟨heq, -, ht⟩ := hagree.pair hv
      exact .ask (congrArg Cell.tail heq) ht
    · exact D.bad
  case setHead =>
    refine D.binary ha fun hv hw => ?_
    split
    · exact .changing hv (D.setHead hs hp hop hv hw)
    · exact D.bad
  case setTail =>
    refine D.binary ha fun hv hw => ?_
    split
    · exact .changing hv (D.setTail hs hp hop hv hw)
    · exact D.bad
  case vector =>
    refine .change ?_ (D.addVec hs (by simpa using ha))
    simp only [Store.addVec, hagree.vecs_size]
  case push =>
    refine D.binary ha fun hv hw => ?_
    split
    · exact .changing hv (D.push hs hp hop hv hw)
    · exact D.bad
  case nth =>
    refine D.binary ha fun hv _ => ?_
    split
    · rename_i r i
      obtain ⟨heq, hvs⟩ := hagree.vec hv
      refine .ask_bind (by simp only [heq]) ?_
      split
      · rename_i v hv
        split_ifs at hv
        exact .done (hvs v (Array.mem_toList_iff.2 (Array.mem_of_getElem? hv)))
      · exact .raise (D.fault s _)
    · exact D.bad
  case count =>
    refine D.unary ha fun {v} hv => ?_
    split
    · exact .done (value_plain hs rfl)
    · refine .query_bind hs (hagree.length_eq hv) (fun x hx => ?_) fun n _ => ?_
      · rw [lengthWithin_error _ _ _ hx]
        exact .malformed _ _ (by simpa using hv)
      · exact .done (value_plain hs rfl)
    · refine .ask ?_ (value_plain hs rfl)
      rw [(hagree.vec hv).1]
    · exact D.bad
  case note =>
    refine D.unary ha fun hv => ?_
    refine .query_bind hs (hagree.viewWithin_eq limit hv) (fun x hx => ?_) fun d _ => ?_
    · exact .unshown (Store.viewWithin_error hx)
    · exact .changing hv (D.note d hs)
  case fail =>
    split
    · exact .raise (D.fault s _)
    · rename_i v _
      have hv := ha v List.mem_cons_self
      refine .query_bind hs (hagree.textIn_eq limit _ hv) (fun x hx => ?_) fun t _ => ?_
      · exact .unshown (Store.textIn_error hx)
      · exact .raise (D.fault s _)
  case reject =>
    exact D.unary ha fun hv => .raise (cause_of_refusal hs (.malformed _ _ (by simpa using hv)))
  case overflow => exact .raise (cause_of_refusal hs (.unshown (.inl rfl)))
  case unit => exact .done (value_plain hs rfl)
  case nothing => exact .done (value_plain hs rfl)
  case truth => exact D.unary ha fun hv => .ask (hagree.truth_eq hv) (value_plain hs rfl)
  case print =>
    refine D.unary ha fun hv => ?_
    refine .query_bind hs (hagree.text_eq limit hv) (fun x hx => ?_) fun t _ => ?_
    · exact .unshown (Store.textIn_error hx)
    · exact .done (value_plain hs rfl)
  case eval => exact D.unary ha fun hv => .eval hv (D.globals hs hp hop) fun _ _ hr => .ofExcept hr
  case apply =>
    refine D.binary ha fun hfn hl => toList_bind hs hl fun vs hvs => ?_
    exact .apply hfn hvs fun _ _ hr => .ofExcept hr
  case map =>
    refine D.binary ha fun hfn hl => toList_bind hs hl fun vs hvs => ?_
    exact D.mapEach hs hfn (by simp) hvs
  case attempt => exact D.unary ha fun hfn => D.attempt hfn

/-- A machine with the standard library keeps to every simulation that allows for its operations. -/
theorem machines {m : Machine} {limit : Nat} (hm : m.library = Library.standard limit globals) :
    S.Machines m m where
  turns := Nat.le_refl _
  limit := rfl
  depth := rfl
  library hs hp ha := by
    rw [hm]
    exact D.operate limit hs hp ha

end Data

end Simulation

end LispCore

import LispCore.Eval.Machine
import LispCore.Proofs.Lists
import Mathlib.Data.List.Forall2

/-!
# Expressions written out

An expression is a value, and lists in it are chains of pairs in the store. `Code` writes such an
expression out as a tree, with values as its leaves, and `Store.Denotes` says that a value stands
for it in a store, however its pairs are numbered and shared. The evaluator takes a special form by
its operands (`Denotes.stepWith_form`) and any other list as an application
(`Denotes.stepWith_application`). Where evaluation changes nothing, an expression has a value
(`Evaluator.Yields`), and the values of its parts give it.
-/

namespace LispCore

inductive Code
  | leaf (v : Value)
  | list (items : List Code)

namespace Code

def name (n : String) : Code := .leaf (.symbol n)

def int (i : Int) : Code := .leaf (.int i)

/-- A special form with the given operands. -/
def form (k : Keyword) (operands : List Code) : Code := .list (.name k.name :: operands)

/-- The expression for a value. -/
def quoted (v : Value) : Code := .form .quote [.leaf v]

/-- What makes a list an application when it stands at its head. -/
def IsOperator : Code → Prop
  | .leaf v => Keyword.ofHead? v = none
  | .list _ => True

end Code

/-- A value stands for an expression. -/
inductive Store.Denotes (s : Store) : Value → Code → Prop
  | leaf (v : Value) : Denotes s v (.leaf v)
  | nil : Denotes s .nil (.list [])
  | cons {r : PairRef} {c : Code} {cs : List Code} (head : Denotes s (s.pair r).head c)
    (tail : Denotes s (s.pair r).tail (.list cs)) : Denotes s (.pair r) (.list (c :: cs))

namespace Store

/-- The pairs that pairs refer to are there. -/
def Linked (s : Store) : Prop :=
  ∀ r q, (s.pair r).head = .pair q ∨ (s.pair r).tail = .pair q → q < s.pairs.size

/-- Every pair that was there holds what it held. -/
def KeepsPairs (s t : Store) : Prop := ∀ {r : PairRef}, r < s.pairs.size → t.pair r = s.pair r

theorem lt_size_of_head {s : Store} {r : PairRef} (h : (s.pair r).head ≠ .nil) :
    r < s.pairs.size := by
  by_contra hr
  refine h ?_
  rw [pair, Array.getD_eq_getD_getElem?, Array.getElem?_eq_none (Nat.not_lt.1 hr)]
  rfl

end Store

theorem Keyword.ofHead?_name (k : Keyword) : Keyword.ofHead? (.symbol k.name) = some k := by
  cases k <;> rfl

namespace Store.Denotes

variable {s t : Store} {x v w : Value} {c : Code} {cs : List Code}

theorem eq_of_leaf (h : s.Denotes v (.leaf w)) : v = w := by
  cases h
  rfl

theorem congr (heq : ∀ r, s.pair r = t.pair r) (h : s.Denotes v c) : t.Denotes v c := by
  induction h with
  | leaf v => exact .leaf v
  | nil => exact .nil
  | cons _ _ hhead htail =>
    rw [heq] at hhead htail
    exact .cons hhead htail

theorem addFrame (h : s.Denotes v c) (call : Frame) : (s.addFrame call).2.Denotes v c :=
  h.congr fun r => show s.pair r = (s.addFrame call).2.pair r from rfl

theorem ofHead?_eq_none (h : s.Denotes v c) (hc : c.IsOperator) : Keyword.ofHead? v = none := by
  cases h with
  | leaf v => exact hc
  | nil => rfl
  | cons _ _ => rfl

theorem eq_of_leaves {es vs : List Value} (h : List.Forall₂ s.Denotes es (vs.map .leaf)) :
    es = vs := by
  rw [List.forall₂_map_right_iff] at h
  exact List.forall₂_eq_eq_eq ▸ h.imp fun _ _ he => he.eq_of_leaf

/-- What pairs that were there stand for, they still stand for if none of them was written to. -/
theorem kept (hs : s.Linked) (hkept : s.KeepsPairs t) (h : s.Denotes v c)
    (hv : ∀ r, v = .pair r → r < s.pairs.size) : t.Denotes v c := by
  induction h with
  | leaf v => exact .leaf v
  | nil => exact .nil
  | @cons r c cs _ _ hhead htail =>
    have hr := hkept (hv r rfl)
    refine .cons ?_ ?_ <;> rw [hr]
    · exact hhead fun q hq => hs r q (.inl hq)
    · exact htail fun q hq => hs r q (.inr hq)

/-- The pairs of a special form are there. -/
theorem form_kept {k : Keyword} (hs : s.Linked) (hkept : s.KeepsPairs t)
    (h : s.Denotes v (.form k cs)) : t.Denotes v (.form k cs) := by
  refine h.kept hs hkept ?_
  rintro r rfl
  cases h with
  | cons head _ =>
    refine lt_size_of_head ?_
    rw [head.eq_of_leaf]
    nofun

/-- The pairs of a list, with the expressions at their heads. -/
theorem tails : ∀ {cs : List Code} {v : Value}, s.Denotes v (.list cs) →
    ∃ rs, s.Tails v rs .nil ∧ List.Forall₂ s.Denotes (rs.map fun r => (s.pair r).head) cs
  | [], v, h => by
    cases h
    exact ⟨[], .last nofun, .nil⟩
  | c :: cs, v, h => by
    cases h with
    | @cons r _ _ head tail =>
      obtain ⟨rs, ht, hcs⟩ := tails tail
      exact ⟨r :: rs, .pair ht, .cons head hcs⟩

theorem toList (h : s.Denotes v (.list cs)) :
    ∃ vs, (∀ what, s.toList what v = .ok vs) ∧ List.Forall₂ s.Denotes vs cs := by
  obtain ⟨rs, ht, hcs⟩ := h.tails
  exact ⟨_, ht.toList, hcs⟩

/-- A special form is taken by its operands. -/
theorem stepWith_form {k : Keyword} (h : s.Denotes x (.form k cs)) :
    ∃ operands, List.Forall₂ s.Denotes operands cs ∧
      ∀ (m : Machine) (ev : Evaluator) (f : FrameRef) (pos : Position) {form : Form},
        Form.ofOperands s m.depth f k operands = .ok form →
        m.stepWith ev x f pos s = m.formStep ev f pos form s := by
  cases h with
  | cons head tail =>
    obtain ⟨operands, hlist, hcs⟩ := tail.toList
    refine ⟨operands, hcs, fun m ev f pos form hform => ?_⟩
    simp only [Machine.stepWith, head.eq_of_leaf, Keyword.ofHead?_name, Form.read, hlist, hform]

/-- A list with anything but a keyword at its head is an application. -/
theorem stepWith_application (h : s.Denotes x (.list (c :: cs))) (hc : c.IsOperator) :
    ∃ head operands, s.Denotes head c ∧ List.Forall₂ s.Denotes operands cs ∧
      ∀ (m : Machine) (ev : Evaluator) (f : FrameRef) (pos : Position),
        m.stepWith ev x f pos s = (do
          let fn ← ev.value head f
          let args ← ev.values f operands
          m.applyStep ev fn args pos) s := by
  cases h with
  | @cons r _ _ head tail =>
    obtain ⟨operands, hlist, hcs⟩ := tail.toList
    refine ⟨(s.pair r).head, operands, head, hcs, fun m ev f pos => ?_⟩
    simp only [Machine.stepWith, head.ofHead?_eq_none hc, hlist]

end Store.Denotes

/-! ## Values of expressions -/

/-- Every expression for `c` has the value `v` and changes nothing. -/
def Evaluator.Yields (ev : Evaluator) (f : FrameRef) (s : Store) (c : Code) (v : Value) : Prop :=
  ∀ {x : Value}, s.Denotes x c → ev.value x f s = .done v s

theorem Evaluator.Yields.values {ev : Evaluator} {f : FrameRef} {s : Store} {cs : List Code}
    {vs es : List Value} (hcs : List.Forall₂ (ev.Yields f s) cs vs)
    (hes : List.Forall₂ s.Denotes es cs) : ev.values f es s = .done vs s := by
  induction hcs generalizing es with
  | nil =>
    cases hes
    rfl
  | cons hv _ ih =>
    cases hes with
    | cons he hes =>
      simp only [Evaluator.values, Bind.bind, Eval.bind, hv he, ih hes]
      rfl

namespace Machine

variable {m : Machine} {ev : Evaluator} {f : FrameRef} {s : Store} {x v : Value} {c : Code}
  {cs : List Code}

theorem value_above {t : Store} (h : m.stepWith ev x f .inner s = .done (.value v) t) :
    (m.above ev).value x f s = .done v t := by
  simp only [Evaluator.value, above, h]

theorem step_name {n : String} (hx : s.Denotes x (.name n)) (h : s.lookup? f ⟨n⟩ = some v)
    (pos : Position) : (m.above ev).step x f pos s = .done (.value v) s := by
  rw [hx.eq_of_leaf]
  simp only [above, Value.symbol, stepWith, h]

theorem yields_name {n : String} (h : s.lookup? f ⟨n⟩ = some v) :
    (m.above ev).Yields f s (.name n) v := fun hx => value_above (step_name hx h .inner)

theorem yields_int (i : Int) : (m.above ev).Yields f s (.int i) (.int i) := by
  intro x hx
  rw [hx.eq_of_leaf]
  exact value_above rfl

theorem yields_quoted (v : Value) : (m.above ev).Yields f s (.quoted v) v := by
  intro x hx
  obtain ⟨operands, hcs, hstep⟩ := hx.stepWith_form
  obtain _ | ⟨he, _ | _⟩ := hcs
  rw [he.eq_of_leaf] at hstep
  exact value_above (hstep m ev f .inner rfl)

/-- An application whose parts have values applies the one at its head to the others. -/
theorem step_list {fn : Value} {args : List Value} (hx : s.Denotes x (.list (c :: cs)))
    (hc : c.IsOperator) (hfn : ev.Yields f s c fn) (hargs : List.Forall₂ (ev.Yields f s) cs args)
    (pos : Position) : (m.above ev).step x f pos s = m.applyStep ev fn args pos s := by
  obtain ⟨head, operands, hhead, hoperands, hstep⟩ := hx.stepWith_application hc
  simp only [above, hstep, Eval.bind_apply, hfn hhead, Evaluator.Yields.values hargs hoperands]

theorem yields_operation {p : Primitive} {args : List Value} (hc : c.IsOperator)
    (hp : ev.Yields f s c (.prim p)) (hargs : List.Forall₂ (ev.Yields f s) cs args)
    (hrun : m.runPrimitive ev p args s = .done v s) :
    (m.above ev).Yields f s (.list (c :: cs)) v := by
  intro x hx
  refine value_above ((step_list hx hc hp hargs .inner).trans ?_)
  simp only [applyStep, call, Eval.bind_apply, hrun]
  rfl

/-- A condition that has a value chooses between its branches. -/
theorem step_cond {c₁ c₂ : Code} (hx : s.Denotes x (.form .cond [c, c₁, c₂]))
    (hc : ev.Yields f s c v) :
    ∃ e₁ e₂, s.Denotes e₁ c₁ ∧ s.Denotes e₂ c₂ ∧ ∀ pos, (m.above ev).step x f pos s
      = if v.isTrue then ev.step e₁ f pos s else ev.step e₂ f pos s := by
  obtain ⟨operands, hcs, hstep⟩ := hx.stepWith_form
  obtain _ | ⟨he, _ | ⟨he₁, _ | ⟨he₂, _ | _⟩⟩⟩ := hcs
  refine ⟨_, _, he₁, he₂, fun pos => ?_⟩
  simp only [above]
  rw [hstep m ev f pos rfl]
  simp only [formStep, Eval.bind_apply, hc he]
  split <;> rfl

/-- A definition whose expression has a value binds it. -/
theorem step_define {n : String} (hx : s.Denotes x (.form .define [.name n, c]))
    (hc : ev.Yields f s c v) (pos : Position) :
    (m.above ev).step x f pos s = .done (.value v) (s.bind f ⟨n⟩ v) := by
  obtain ⟨operands, hcs, hstep⟩ := hx.stepWith_form
  obtain _ | ⟨hn, _ | ⟨he, _ | _⟩⟩ := hcs
  rw [hn.eq_of_leaf] at hstep
  simp only [above]
  rw [hstep m ev f pos rfl]
  simp only [formStep, Eval.bind_apply, hc he]
  rfl

/-- An assignment whose expression has a value changes the nearest binding. -/
theorem step_assign {n : String} {g : FrameRef} (hx : s.Denotes x (.form .assign [.name n, c]))
    (hc : ev.Yields f s c v) (hg : s.find? f ⟨n⟩ = some g) (pos : Position) :
    (m.above ev).step x f pos s = .done (.value v) (s.bind g ⟨n⟩ v) := by
  obtain ⟨operands, hcs, hstep⟩ := hx.stepWith_form
  obtain _ | ⟨hn, _ | ⟨he, _ | _⟩⟩ := hcs
  rw [hn.eq_of_leaf] at hstep
  simp only [above]
  rw [hstep m ev f pos rfl]
  simp only [formStep, Eval.bind_apply, hc he, Store.assign_sym, hg]
  rfl

/-- A function without parameters is made in the frame where it is evaluated. -/
theorem step_thunk {ps e : Value} (hx : s.Denotes x (.form .lambda [.leaf ps, .leaf e]))
    (hps : s.parameterList m.depth ps = .ok []) (pos : Position) :
    (m.above ev).step x f pos s
      = .done (.value (.closure s.closures.size)) (s.addClosure ⟨[], [e], f⟩).2 := by
  obtain ⟨operands, hcs, hstep⟩ := hx.stepWith_form
  obtain _ | ⟨hparams, _ | ⟨he, _ | _⟩⟩ := hcs
  rw [hparams.eq_of_leaf, he.eq_of_leaf] at hstep
  have hform : Form.ofOperands s m.depth f .lambda [ps, e] = .ok (.lambda ⟨[], [e], f⟩) := by
    simp only [Form.ofOperands, hps]
    rfl
  simp only [above]
  rw [hstep m ev f pos hform]
  rfl

end Machine

end LispCore

import LispCore.Proofs.Lists
import LispCore.Store.Equality
import Mathlib.Data.List.Forall2

/-!
# The trees that values stand for

A value stands for the tree that it unfolds to (`Store.Unfolds`), however its cells are shared. That
tree is unique, and a value that leads back to itself has none. Two trees are alike if they have one
shape and equal leaves (`Datum.alike`). Comparing two values is comparing their trees: an answer is
never any other, and there is one as long as the trees do not nest deeper than the limit
(`Store.comparedWithin_answers`, `Store.equalWithin_answers`).
-/

namespace LispCore

namespace Datum

mutual

/-- Every leaf of a tree has a property. -/
def Every (P : Datum → Prop) : Datum → Prop
  | .pair h t => Every P h ∧ Every P t
  | .vec ds => EveryOf P ds
  | d => P d

def EveryOf (P : Datum → Prop) : List Datum → Prop
  | [] => True
  | d :: ds => Every P d ∧ EveryOf P ds

end

mutual

/-- How deep a tree nests. Tails do not nest: a list is one deeper than what it holds. -/
def depthIn (inTail : Bool) : Datum → Nat
  | .pair h t => max (depthIn false h) (depthIn true t) + if inTail then 0 else 1
  | .vec ds => deepest ds + 1
  | _ => 0

def deepest : List Datum → Nat
  | [] => 0
  | d :: ds => max (depthIn false d) (deepest ds)

end

def depth (d : Datum) : Nat := d.depthIn false

mutual

/-- Two trees are of one shape with equal leaves. A primitive or a function equals itself only. -/
def alike : Datum → Datum → Bool
  | .nil, .nil => true
  | .bool a, .bool b => a == b
  | .int a, .int b => a == b
  | .float a, .float b => a == b
  | .str a, .str b => a == b
  | .sym a, .sym b => a == b
  | .pair h t, .pair h' t' => alike h h' && alike t t'
  | .vec ds, .vec ds' => alikeAll ds ds'
  | .prim a, .prim b => a.id == b.id
  | .closure a _ _, .closure b _ _ => a == b
  | .foreign a, .foreign b => a == b
  | _, _ => false

def alikeAll : List Datum → List Datum → Bool
  | [], [] => true
  | d :: ds, d' :: ds' => alike d d' && alikeAll ds ds'
  | _, _ => false

end

theorem length_of_alikeAll :
    ∀ {ds ds' : List Datum}, alikeAll ds ds' = true → ds.length = ds'.length
  | [], [], _ => rfl
  | d :: ds, d' :: ds', h => by
    rw [alikeAll, Bool.and_eq_true] at h
    rw [List.length_cons, List.length_cons, length_of_alikeAll h.2]
  | [], _ :: _, h => by simp [alikeAll] at h
  | _ :: _, [], h => by simp [alikeAll] at h

end Datum

namespace Store

/-- A value unfolds to a tree. The pairs on the way exist. A function is a leaf, whatever its
parameters and its body. -/
inductive Unfolds (s : Store) : Value → Datum → Prop
  | nil : Unfolds s .nil .nil
  | bool (b : Bool) : Unfolds s (.bool b) (.bool b)
  | int (i : Int) : Unfolds s (.int i) (.int i)
  | float (x : Float) : Unfolds s (.float x) (.float x)
  | str (t : String) : Unfolds s (.str t) (.str t)
  | sym (n : Symbol) : Unfolds s (.sym n) (.sym n)
  | pair {r : PairRef} {h t : Datum} (exist : r < s.pairs.size)
    (head : Unfolds s (s.pair r).head h) (tail : Unfolds s (s.pair r).tail t) :
    Unfolds s (.pair r) (.pair h t)
  | vec {r : VecRef} {ds : List Datum} (items : List.Forall₂ (Unfolds s) (s.vec r).toList ds) :
    Unfolds s (.vec r) (.vec ds)
  | prim (p : Primitive) : Unfolds s (.prim p) (.prim p)
  | closure (r : ClosureRef) : Unfolds s (.closure r) (.closure r [] [])
  | foreign (h : Foreign) : Unfolds s (.foreign h) (.foreign h)

variable {s : Store}

mutual

theorem Unfolds.unique :
    ∀ {d d' : Datum} {v : Value}, s.Unfolds v d → s.Unfolds v d' → d = d'
  | .pair .., _, _, hd, hd' => by
    cases hd with
    | pair _ hh ht =>
      cases hd' with
      | pair _ hh' ht' => rw [hh.unique hh', ht.unique ht']
  | .vec _, _, _, hd, hd' => by
    cases hd with
    | vec hds =>
      cases hd' with
      | vec hds' => rw [unfolds_unique hds hds']
  | .nil, _, _, hd, hd' | .bool _, _, _, hd, hd' | .int _, _, _, hd, hd' | .float _, _, _, hd, hd'
  | .str _, _, _, hd, hd' | .sym _, _, _, hd, hd' | .prim _, _, _, hd, hd'
  | .closure .., _, _, hd, hd' | .foreign _, _, _, hd, hd' => by
    cases hd
    cases hd'
    rfl

theorem unfolds_unique :
    ∀ {ds ds' : List Datum} {vs : List Value}, List.Forall₂ s.Unfolds vs ds →
      List.Forall₂ s.Unfolds vs ds' → ds = ds'
  | [], _, _, .nil, .nil => rfl
  | _ :: _, _, _, .cons hd hds, .cons hd' hds' => by
    rw [hd.unique hd', unfolds_unique hds hds']

end

/-- A walk along the tails meets the pairs that the tree has there, and ends where it does. -/
theorem Unfolds.tails : ∀ {d : Datum} {v : Value}, s.Unfolds v d →
    ∃ rs last, s.Tails v rs last ∧ (∀ r ∈ rs, r < s.pairs.size)
      ∧ List.Forall₂ (fun r h => s.Unfolds (s.pair r).head h) rs d.spine.1
      ∧ s.Unfolds last d.spine.2
  | .pair .., _, h => by
    cases h with
    | @pair r _ _ hr hh ht =>
      obtain ⟨rs, last, htails, hrs, hheads, hlast⟩ := ht.tails
      exact ⟨r :: rs, last, .pair htails, by simpa [hr] using hrs, .cons hh hheads, hlast⟩
  | .nil, v, h | .bool _, v, h | .int _, v, h | .float _, v, h | .str _, v, h | .sym _, v, h
  | .vec _, v, h | .prim _, v, h | .closure .., v, h | .foreign _, v, h => by
    have hv (r : PairRef) : v ≠ .pair r := by
      rintro rfl
      cases h
    exact ⟨[], v, .last hv, nofun, .nil, h⟩

theorem Unfolds.length_spine_le {d : Datum} {v : Value} (h : s.Unfolds v d) :
    d.spine.1.length ≤ s.pairs.size := by
  obtain ⟨rs, last, htails, hrs, hheads, -⟩ := h.tails
  have hsub : rs ⊆ List.range s.pairs.size := fun r hr => List.mem_range.2 (hrs r hr)
  have hle := (htails.nodup.subperm hsub).length_le
  rw [List.length_range, hheads.length_eq] at hle
  exact hle

/-! ## Comparing values

Equality takes two pairs or two vectors for equal at once if they are one object. The comparison
below takes two values for equal at once wherever it is told to, so that it can be told to do so as
equality does, in more places or nowhere at all. -/

/-- Walks two chains of tails, comparing heads, until `short` cuts the walk short, the chains differ
or one of them ends. -/
def walkComparing (s : Store) (short : Value → Value → Bool) (eq : Value → Value → Answer Bool) :
    (steps : Nat) → Value → Value → Answer Bool
  | 0, _, _ => .error .endless
  | n + 1, .pair p, .pair q =>
    if short (.pair p) (.pair q) then .ok true
    else
      match eq (s.pair p).head (s.pair q).head with
      | .ok true => s.walkComparing short eq n (s.pair p).tail (s.pair q).tail
      | other => other
  | _ + 1, a, b => eq a b

/-- Equality up to a nesting of `limit`, with `short` to say which values are equal at once. -/
def comparedWithin (s : Store) (short : Value → Value → Bool) :
    (limit : Nat) → Value → Value → Answer Bool
  | 0 => fun _ _ => .error (.failure .overflow)
  | n + 1 => fun a b =>
    if short a b then .ok true
    else
      match a, b with
      | .pair _, .pair _ =>
        s.walkComparing short (s.comparedWithin short n) (s.pairs.size * s.pairs.size + 1) a b
      | .vec p, .vec q =>
        if (s.vec p).size = (s.vec q).size then
          allEqual (s.comparedWithin short n) (s.vec p).toList (s.vec q).toList
        else .ok false
      | a, b => .ok (a.atomEqual b)

/-- One pair or one vector. -/
def sameCell : Value → Value → Bool
  | .pair p, .pair q => p == q
  | .vec p, .vec q => p == q
  | _, _ => false

theorem sameCell_pair {p q : PairRef} : sameCell (.pair p) (.pair q) = true ↔ p = q := beq_iff_eq

theorem sameCell_vec {p q : VecRef} : sameCell (.vec p) (.vec q) = true ↔ p = q := beq_iff_eq

theorem same_of_sameCell {a b : Value} (h : sameCell a b = true) : a.same b = true := by
  cases a <;> cases b <;> first | exact h | exact absurd h Bool.false_ne_true

theorem walkEqual_eq_walkComparing (eq : Value → Value → Answer Bool) :
    ∀ (n : Nat) (a b : Value), s.walkEqual eq eq n a b = s.walkComparing sameCell eq n a b
  | 0, _, _ => rfl
  | n + 1, a, b => by
    by_cases hpairs : ∃ p q, a = .pair p ∧ b = .pair q
    · obtain ⟨p, q, rfl, rfl⟩ := hpairs
      simp only [walkEqual, walkComparing, walkEqual_eq_walkComparing eq n]
      by_cases hpq : p = q
      · rw [if_pos hpq, if_pos (sameCell_pair.2 hpq)]
      · refine (if_neg hpq).trans (Eq.trans ?_ (if_neg (mt sameCell_pair.1 hpq)).symm)
        rcases eq (s.pair p).head (s.pair q).head with _ | _ | _ <;> rfl
    · rw [walkEqual, walkComparing]
      all_goals
        rintro p q rfl rfl
        exact hpairs ⟨p, q, rfl, rfl⟩

theorem equalWithin_eq_comparedWithin :
    ∀ n : Nat, s.equalWithin n = s.comparedWithin sameCell n
  | 0 => rfl
  | n + 1 => by
    funext a b
    have ih := equalWithin_eq_comparedWithin n
    simp only [comparedWithin, ← ih, ← walkEqual_eq_walkComparing]
    split
    · rename_i hab
      cases a <;> cases b <;> simp only [sameCell, Bool.false_eq_true] at hab
      case pair.pair p q => simp [equalWithin, walkEqual, eq_of_beq hab]
      case vec.vec p q => simp [equalWithin, eq_of_beq hab]
    · rename_i hab
      cases a <;> cases b <;> try rfl
      case vec.vec p q =>
        simp only [equalWithin]
        rw [if_neg (mt sameCell_vec.2 hab)]

/-- A comparison has no answer but the given one, and has that one where it is allowed to nest and
to go on long enough. -/
structure Answers (o : Answer Bool) (answer : Bool) (allowed : Prop) : Prop where
  sound : ∀ {x : Bool}, o = .ok x → x = answer
  total : allowed → o = .ok answer

theorem Answers.of_eq {o : Answer Bool} {answer : Bool} {allowed : Prop} (h : o = .ok answer) :
    Answers o answer allowed where
  sound hx := by
    rw [h] at hx
    exact (Except.ok.inj hx).symm
  total _ := h

/-- One comparison after the other, up to the first difference. -/
theorem Answers.and {o o' : Answer Bool} {x x' : Bool} {allowed allowed' : Prop} :
    Answers o x allowed → Answers o' x' allowed' →
      Answers (match o with | .ok true => o' | other => other) (x && x')
        (allowed ∧ allowed') := by
  intro h h'
  rcases o with _ | _ | _
  · exact ⟨nofun, fun ha => absurd (h.total ha.1) nofun⟩
  · rw [← h.sound rfl]
    exact .of_eq rfl
  · rw [← h.sound rfl, Bool.true_and]
    exact ⟨h'.sound, fun ha => h'.total ha.2⟩

theorem float_eq_of_toBits_eq : ∀ {x y : Float}, x.toBits = y.toBits → x = y
  | .ofModel ⟨_, _⟩, .ofModel ⟨_, _⟩, rfl => rfl

/-- Values that are one object have trees that are alike, unless their tree is not even like
itself. -/
theorem Unfolds.alike_of_same {a b : Value} {da db : Datum} (ha : s.Unfolds a da)
    (hb : s.Unfolds b db) (hself : da.alike da = true) (h : a.same b = true) :
    da.alike db = true := by
  by_cases hab : a = b
  · cases hab
    rwa [← ha.unique hb]
  · cases a <;> cases b <;> simp only [Value.same, Bool.false_eq_true, beq_iff_eq] at h
    case float.float x y => exact absurd (congrArg Value.float (float_eq_of_toBits_eq h)) hab
    case prim.prim p q =>
      cases ha
      cases hb
      exact beq_iff_eq.2 h
    case nil.nil => exact absurd rfl hab
    all_goals
      subst h
      exact absurd rfl hab

theorem Unfolds.depthIn_true {v : Value} {d : Datum} (h : s.Unfolds v d) (hv : ∀ r, v ≠ .pair r) :
    d.depthIn true = d.depth := by
  cases h with
  | @pair r _ _ _ _ _ => exact absurd rfl (hv r)
  | _ => rfl

section Compare

variable {short : Value → Value → Bool}
  (hshort : ∀ {a b : Value}, short a b = true → a.same b = true)
  {eq : Value → Value → Answer Bool} {n : Nat}
  (heq : ∀ {a b : Value} {da db : Datum}, s.Unfolds a da → s.Unfolds b db → da.alike da = true →
    Answers (eq a b) (da.alike db) (da.depth < n))

include heq

theorem allEqual_answers :
    ∀ {as bs : List Value} {das dbs : List Datum}, List.Forall₂ s.Unfolds as das →
      List.Forall₂ s.Unfolds bs dbs → Datum.alikeAll das das = true →
      Answers (allEqual eq as bs) (Datum.alikeAll das dbs) (Datum.deepest das < n)
  | [], [], _, _, .nil, .nil, _ => .of_eq rfl
  | [], _ :: _, _, _, .nil, .cons .., _ => .of_eq rfl
  | _ :: _, [], _, _, .cons .., .nil, _ => .of_eq rfl
  | a :: as, b :: bs, _, _, .cons ha has, .cons hb hbs, hself => by
    rw [Datum.alikeAll, Bool.and_eq_true] at hself
    have hanswers := (heq ha hb hself.1).and (allEqual_answers has hbs hself.2)
    exact ⟨hanswers.sound, fun hn => hanswers.total (Nat.max_lt.1 hn)⟩

include hshort

theorem walkComparing_answers
    (hend : 0 < n → ∀ {p : PairRef} {b : Value}, (∀ q, b ≠ .pair q) → eq (.pair p) b = .ok false) :
    ∀ (k : Nat) {a b : Value} {da db : Datum}, s.Unfolds a da → s.Unfolds b db →
      da.alike da = true →
      Answers (s.walkComparing short eq k a b) (da.alike db)
        (da.depthIn true < n ∧ da.spine.1.length < k)
  | 0, _, _, _, _, _, _, _ => ⟨nofun, fun h => absurd h.2 (Nat.not_lt_zero _)⟩
  | k + 1, a, b, da, db, ha, hb, hself => by
    have hanswers := heq ha hb hself
    by_cases hpair : ∃ p, a = .pair p
    · obtain ⟨p, rfl⟩ := hpair
      by_cases hpair' : ∃ q, b = .pair q
      · obtain ⟨q, rfl⟩ := hpair'
        rw [walkComparing]
        split
        · rename_i hpq
          rw [ha.alike_of_same hb hself (hshort hpq)]
          exact .of_eq rfl
        · cases ha with
          | pair _ hh ht =>
            cases hb with
            | pair _ hh' ht' =>
              rw [Datum.alike, Bool.and_eq_true] at hself
              have hcells := (heq hh hh' hself.1).and (walkComparing_answers hend k ht ht' hself.2)
              refine ⟨hcells.sound, fun ⟨hdepth, hlength⟩ => hcells.total ?_⟩
              simp only [Datum.depthIn, if_true, Nat.add_zero, Nat.max_lt] at hdepth
              exact ⟨hdepth.1, hdepth.2, Nat.lt_of_succ_lt_succ hlength⟩
      · -- The chain of `b` has ended first.
        have hne (q : PairRef) : b ≠ .pair q := fun h => hpair' ⟨q, h⟩
        rw [walkComparing]
        · refine ⟨hanswers.sound, fun hallowed => ?_⟩
          have hfalse := hend (Nat.zero_lt_of_lt hallowed.1) (p := p) hne
          rw [hfalse, hanswers.sound hfalse]
        · rintro _ q - rfl
          exact hne q rfl
    · have hne (p : PairRef) : a ≠ .pair p := fun h => hpair ⟨p, h⟩
      rw [walkComparing]
      · refine ⟨hanswers.sound, fun hallowed => hanswers.total ?_⟩
        rw [← ha.depthIn_true hne]
        exact hallowed.1
      · rintro p _ rfl
        exact absurd rfl (hne p)

omit heq

/-- An answer about two values is one about their trees, provided that the first tree is like
itself; and there is an answer if that tree does not nest as deep as the limit. It does not matter
where the comparison is cut short, as long as that happens only between values that are one
object. -/
theorem comparedWithin_answers :
    ∀ (n : Nat) {a b : Value} {da db : Datum}, s.Unfolds a da → s.Unfolds b db →
      da.alike da = true → Answers (s.comparedWithin short n a b) (da.alike db) (da.depth < n)
  | 0, _, _, _, _, _, _, _ => ⟨nofun, fun h => absurd h (Nat.not_lt_zero _)⟩
  | n + 1, a, b, da, db, ha, hb, hself => by
    have heq {a b : Value} {da db : Datum} (ha : s.Unfolds a da) (hb : s.Unfolds b db)
        (hself : da.alike da = true) := comparedWithin_answers n ha hb hself
    simp only [comparedWithin]
    split
    · rename_i hab
      rw [ha.alike_of_same hb hself (hshort hab)]
      exact .of_eq rfl
    · cases ha with
      | @pair p h t hp hh ht =>
        cases hb with
        | @pair q h' t' hq hh' ht' =>
          have hlength := (Unfolds.pair hp hh ht).length_spine_le
          have hsquare := Nat.le_mul_self s.pairs.size
          have hwalk := walkComparing_answers hshort heq ?_ (s.pairs.size * s.pairs.size + 1)
            (.pair hp hh ht) (.pair hq hh' ht') hself
          · refine ⟨hwalk.sound, fun hdepth => hwalk.total ⟨?_, by omega⟩⟩
            simp only [Datum.depth, Datum.depthIn] at hdepth ⊢
            simp only [Bool.false_eq_true, if_false, if_true] at hdepth ⊢
            omega
          · intro hn p b hne
            obtain ⟨m, rfl⟩ : ∃ m, n = m + 1 := ⟨n - 1, by omega⟩
            have hother : (Value.pair p).same b = false := by
              cases b with
              | pair q => exact absurd rfl (hne q)
              | _ => rfl
            have hlong : ¬short (.pair p) b = true := fun h =>
              Bool.false_ne_true (hother.symm.trans (hshort h))
            cases b with
            | pair q => exact absurd rfl (hne q)
            | _ => exact if_neg hlong
        | _ => exact .of_eq rfl
      | @vec p ds hds =>
        cases hb with
        | @vec q ds' hds' =>
          simp only []
          split
          · have hall := allEqual_answers heq hds hds' hself
            refine ⟨hall.sound, fun hdepth => hall.total (Nat.lt_of_succ_lt_succ hdepth)⟩
          · rename_i hsize
            have hlen : ds.length ≠ ds'.length := by
              rw [← hds.length_eq, ← hds'.length_eq]
              exact hsize
            have hfalse : Datum.alike (.vec ds) (.vec ds') = false :=
              Bool.eq_false_iff.2 fun h => hlen (Datum.length_of_alikeAll h)
            rw [hfalse]
            exact .of_eq rfl
        | _ => exact .of_eq rfl
      | _ => cases hb <;> exact .of_eq rfl

end Compare

theorem equalWithin_answers (n : Nat) {a b : Value} {da db : Datum} (ha : s.Unfolds a da)
    (hb : s.Unfolds b db) (hself : da.alike da = true) :
    Answers (s.equalWithin n a b) (da.alike db) (da.depth < n) := by
  rw [equalWithin_eq_comparedWithin]
  exact comparedWithin_answers same_of_sameCell n ha hb hself

end Store

end LispCore

import LispCore.Proofs.Trees

/-!
# Equality is an equivalence

Two trees are alike or not (`Datum.alike`). On trees without foreign objects and without a number
that is no number, being alike is reflexive, symmetric and transitive: the one leaf where this takes
an argument is the floating-point number, of which two that differ, the zeros, are equal.

Equality of values decides whether their trees are alike (`Store.equality_decides_trees`), so it is
an equivalence too. That it takes one object for equal to itself without a look at what it holds
makes no difference: a comparison that does so nowhere, and one that does so at every value, give
the same answer.
-/

namespace LispCore

/-! ## Floating-point numbers -/

section Floats

open Float.Model (UnpackedFloat)

theorem compare_self {x : UnpackedFloat} (hx : x ≠ .notANumber) : x.compare x = some .eq := by
  cases x with
  | notANumber => exact absurd rfl hx
  | infinity a => cases a <;> rfl
  | zero a => rfl
  | finite a m e hm =>
    have hparts : (compare e e).then (compare m m) = .eq := by simp
    cases a with
    | negative => exact congrArg (some ·.swap) hparts
    | positive => exact congrArg some hparts

/-- Numbers compare as equal if they are zeros of any sign or the same number. -/
theorem compare_eq_some_eq_iff {x y : UnpackedFloat} :
    x.compare y = some .eq ↔
      (∃ a b, x = .zero a ∧ y = .zero b) ∨ x = y ∧ x ≠ .notANumber := by
  constructor
  · intro h
    cases x with
    | notANumber => cases h
    | infinity a =>
      cases y with
      | infinity b =>
        cases a <;> cases b <;> cases h <;> exact .inr ⟨rfl, fun h => (by cases h)⟩
      | _ => cases a <;> cases h
    | zero a =>
      cases y with
      | zero b => exact .inl ⟨a, b, rfl, rfl⟩
      | notANumber => cases h
      | infinity b => cases b <;> cases h
      | finite b => cases b <;> cases h
    | finite a m e hm =>
      cases y with
      | finite b n k hn =>
        obtain ⟨rfl, hparts⟩ : a = b ∧ (compare e k).then (compare m n) = .eq := by
          cases a <;> cases b
          · exact ⟨rfl, Ordering.swap_inj.1 (Option.some.inj h)⟩
          · cases h
          · cases h
          · exact ⟨rfl, Option.some.inj h⟩
        rw [Ordering.then_eq_eq, Int.compare_eq_eq, Nat.compare_eq_eq] at hparts
        obtain ⟨rfl, rfl⟩ := hparts
        exact .inr ⟨rfl, fun h => (by cases h)⟩
      | notANumber => cases a <;> cases h
      | infinity b => cases a <;> cases b <;> cases h
      | zero b => cases a <;> cases h
  · rintro (⟨a, b, rfl, rfl⟩ | ⟨rfl, hx⟩)
    · rfl
    · exact compare_self hx

theorem float_beq_iff {x y : Float} :
    (x == y) = true ↔
      (∃ a b, x.toModel.unpack = .zero a ∧ y.toModel.unpack = .zero b)
        ∨ x.toModel.unpack = y.toModel.unpack ∧ x.toModel.unpack ≠ .notANumber := by
  rw [← compare_eq_some_eq_iff]
  show (x.toModel.unpack.compare y.toModel.unpack == some .eq) = true ↔ _
  exact beq_iff_eq

theorem float_beq_self {x : Float} (h : x.isNaN = false) : (x == x) = true := by
  refine float_beq_iff.2 (.inr ⟨rfl, fun hx => ?_⟩)
  have hnan : x.isNaN = true := by
    show x.toModel.unpack.isNaN = true
    rw [hx]
    rfl
  exact Bool.false_ne_true (h.symm.trans hnan)

theorem float_beq_symm {x y : Float} (h : (x == y) = true) : (y == x) = true := by
  obtain ⟨a, b, hx, hy⟩ | ⟨hxy, hx⟩ := float_beq_iff.1 h
  · exact float_beq_iff.2 (.inl ⟨b, a, hy, hx⟩)
  · exact float_beq_iff.2 (.inr ⟨hxy.symm, hxy ▸ hx⟩)

theorem float_beq_trans {x y z : Float} (h : (x == y) = true) (h' : (y == z) = true) :
    (x == z) = true := by
  obtain ⟨a, b, hx, hy⟩ | ⟨hxy, hx⟩ := float_beq_iff.1 h
  · obtain ⟨-, c, -, hz⟩ | ⟨hyz, -⟩ := float_beq_iff.1 h'
    · exact float_beq_iff.2 (.inl ⟨a, c, hx, hz⟩)
    · exact float_beq_iff.2 (.inl ⟨a, b, hx, hyz ▸ hy⟩)
  · rw [float_beq_iff, hxy]
    exact float_beq_iff.1 h'

end Floats

/-! ## Trees -/

namespace Datum

/-- A leaf that equality treats as its like: no foreign object and no number that is no number. -/
def IsComparable : Datum → Prop
  | .float x => x.isNaN = false
  | .foreign _ => False
  | _ => True

mutual

theorem alike_self : ∀ {d : Datum}, d.Every IsComparable → d.alike d = true
  | .pair .., hd => by rw [alike, alike_self hd.1, alike_self hd.2, Bool.and_self]
  | .vec _, hd => alikeAll_self hd
  | .float _, hd => float_beq_self hd
  | .nil, _ => rfl
  | .bool _, _ | .int _, _ | .str _, _ | .sym _, _ | .prim _, _ | .closure .., _ =>
    beq_self_eq_true _

theorem alikeAll_self : ∀ {ds : List Datum}, EveryOf IsComparable ds → alikeAll ds ds = true
  | [], _ => rfl
  | _ :: _, hds => by rw [alikeAll, alike_self hds.1, alikeAll_self hds.2, Bool.and_self]

end

mutual

theorem alike_symm : ∀ {d d' : Datum}, d.alike d' = true → d'.alike d = true
  | .pair .., .pair .., h => by
    rw [alike, Bool.and_eq_true] at h ⊢
    exact ⟨alike_symm h.1, alike_symm h.2⟩
  | .vec _, .vec _, h => alikeAll_symm h
  | .float _, .float _, h => float_beq_symm h
  | .nil, .nil, _ => rfl
  | .bool _, .bool _, h | .int _, .int _, h | .str _, .str _, h | .sym _, .sym _, h
  | .prim _, .prim _, h | .closure .., .closure .., h | .foreign _, .foreign _, h => BEq.symm h

theorem alikeAll_symm : ∀ {ds ds' : List Datum}, alikeAll ds ds' = true → alikeAll ds' ds = true
  | [], [], _ => rfl
  | _ :: _, _ :: _, h => by
    rw [alikeAll, Bool.and_eq_true] at h ⊢
    exact ⟨alike_symm h.1, alikeAll_symm h.2⟩

end

mutual

theorem alike_trans :
    ∀ {d d' d'' : Datum}, d.alike d' = true → d'.alike d'' = true → d.alike d'' = true
  | .pair .., .pair .., .pair .., h, h' => by
    rw [alike, Bool.and_eq_true] at h h' ⊢
    exact ⟨alike_trans h.1 h'.1, alike_trans h.2 h'.2⟩
  | .vec _, .vec _, .vec _, h, h' => alikeAll_trans h h'
  | .float _, .float _, .float _, h, h' => float_beq_trans h h'
  | .nil, .nil, .nil, _, _ => rfl
  | .bool _, .bool _, .bool _, h, h' | .int _, .int _, .int _, h, h'
  | .str _, .str _, .str _, h, h' | .sym _, .sym _, .sym _, h, h'
  | .prim _, .prim _, .prim _, h, h' | .closure .., .closure .., .closure .., h, h'
  | .foreign _, .foreign _, .foreign _, h, h' => BEq.trans h h'

theorem alikeAll_trans :
    ∀ {ds ds' ds'' : List Datum}, alikeAll ds ds' = true → alikeAll ds' ds'' = true →
      alikeAll ds ds'' = true
  | [], [], [], _, _ => rfl
  | _ :: _, _ :: _, _ :: _, h, h' => by
    rw [alikeAll, Bool.and_eq_true] at h h' ⊢
    exact ⟨alike_trans h.1 h'.1, alikeAll_trans h.2 h'.2⟩

end

end Datum

/-! ## Values -/

namespace Store

/-- A value unfolds to a tree all of whose leaves can be compared. -/
structure Comparable (s : Store) (v : Value) (d : Datum) : Prop where
  unfolds : s.Unfolds v d
  leaves : d.Every Datum.IsComparable

variable {s : Store}

theorem Comparable.answers {a b : Value} {da db : Datum} (ha : s.Comparable a da)
    (hb : s.Comparable b db) (limit : Nat) :
    Answers (s.equalWithin limit a b) (da.alike db) (da.depth < limit) :=
  equalWithin_answers limit ha.unfolds hb.unfolds (Datum.alike_self ha.leaves)

/-- Equality says whether two trees are alike. It is reflexive, symmetric and transitive, with an
answer wherever the first tree does not nest as deep as the limit. It takes a pair and a vector for
equal to itself at once; a comparison that does so with other values that are one object, or with
none, has the same answer. -/
theorem equality_decides_trees {a b c : Value} {da db dc : Datum} (ha : s.Comparable a da)
    (hb : s.Comparable b db) (hc : s.Comparable c dc) :
    (∀ limit, Answers (s.equalWithin limit a b) (da.alike db) (da.depth < limit))
      ∧ (∀ limit, Answers (s.equalWithin limit a a) true (da.depth < limit))
      ∧ (∀ {limit x}, s.equalWithin limit a b = .ok x →
          ∀ limit', Answers (s.equalWithin limit' b a) x (db.depth < limit'))
      ∧ (∀ {limit limit'}, s.equalWithin limit a b = .ok true →
          s.equalWithin limit' b c = .ok true →
          ∀ limit'', Answers (s.equalWithin limit'' a c) true (da.depth < limit''))
      ∧ s.equalWithin = s.comparedWithin sameCell
      ∧ ∀ {short : Value → Value → Bool}, (∀ {x y}, short x y = true → x.same y = true) →
          ∀ limit, Answers (s.comparedWithin short limit a b) (da.alike db) (da.depth < limit) := by
  have hself := Datum.alike_self ha.leaves
  refine ⟨ha.answers hb, fun limit => ?_, fun {limit x} h limit' => ?_,
    fun {limit limit'} h h' limit'' => ?_, funext fun _ => equalWithin_eq_comparedWithin _,
    fun {short} hshort limit => comparedWithin_answers hshort limit ha.unfolds hb.unfolds hself⟩
  · rw [← hself]
    exact ha.answers ha limit
  · have hx : x = db.alike da := by
      rw [(ha.answers hb limit).sound h]
      exact Bool.eq_iff_iff.2 ⟨Datum.alike_symm, Datum.alike_symm⟩
    rw [hx]
    exact hb.answers ha limit'
  · have hab := (ha.answers hb limit).sound h
    have hbc := (hb.answers hc limit').sound h'
    rw [← Datum.alike_trans hab.symm hbc.symm]
    exact ha.answers hc limit''

/-- Three lists of a zero and a vector. The first two share their tail and differ in the sign of the
zero, the third has cells of its own. -/
def zeros : Store where
  pairs := #[⟨.float 0, .pair 2⟩, ⟨.float (-0), .pair 2⟩, ⟨.vec 0, .nil⟩, ⟨.float 0, .pair 4⟩,
    ⟨.vec 1, .nil⟩]
  vecs := #[#[.int 1, .str "a"], #[.int 1, .str "a"]]

/-- The first list equals the second and the second the third, so the first equals the third, also
if no two values are taken for equal at once. -/
theorem equality_decides_trees_zeros :
    zeros.equalWithin 3 (.pair 0) (.pair 1) = .ok true
      ∧ zeros.equalWithin 3 (.pair 1) (.pair 0) = .ok true
      ∧ zeros.equalWithin 3 (.pair 0) (.pair 3) = .ok true
      ∧ zeros.comparedWithin (fun _ _ => false) 3 (.pair 0) (.pair 1) = .ok true := by
  have htail {r : PairRef} (hr : r = 2 ∨ r = 4) :
      zeros.Unfolds (.pair r) (.pair (.vec [.int 1, .str "a"]) .nil) := by
    rcases hr with rfl | rfl <;>
      exact .pair (by decide) (.vec (.cons (.int 1) (.cons (.str "a") .nil))) .nil
  have hleaves {x : Float} (hx : x.isNaN = false) :
      (Datum.pair (.float x) (.pair (.vec [.int 1, .str "a"]) .nil)).Every Datum.IsComparable :=
    ⟨hx, ⟨trivial, trivial, trivial⟩, trivial⟩
  obtain ⟨hdecides, -, hsymm, htrans, -, hshort⟩ := equality_decides_trees
    (s := zeros) (a := .pair 0) (b := .pair 1) (c := .pair 3)
    ⟨.pair (by decide) (.float 0) (htail (.inl rfl)), hleaves (by decide)⟩
    ⟨.pair (by decide) (.float (-0)) (htail (.inl rfl)), hleaves (by decide)⟩
    ⟨.pair (by decide) (.float 0) (htail (.inr rfl)), hleaves (by decide)⟩
  have hfirst := (hdecides 3).total (by decide)
  have hsecond : zeros.equalWithin 3 (.pair 1) (.pair 3) = .ok true := rfl
  exact ⟨hfirst, (hsymm hfirst 3).total (by decide), (htrans hfirst hsecond 3).total (by decide),
    (hshort (fun h => absurd h Bool.false_ne_true) 3).total (by decide)⟩

end Store

end LispCore

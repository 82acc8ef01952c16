import LispCore.Proofs.WellFormed
import Mathlib.Data.List.Induction

/-!
# Names after a change of bindings

A name means what the first frame on the way outward that binds it says (`Store.lookup?_chain`). So
a definition in a frame `f` shows from a frame `g` if `f` lies on the way outward from `g` and
nothing before it binds the name (`Store.Exposes`), and it shows nowhere else; an assignment shows
from the frames for which the name meant the very binding that is changed.
`Store.define_assign_lookups` says this of all frames and names at once.
-/

namespace LispCore

namespace Bindings

variable {α β : Type} [BEq α] [LawfulBEq α] (k m : α) (v : β)

theorem any_put :
    ∀ bs : List (α × β),
      (put (· == ·) k v bs).any (·.1 == m) = (k == m || bs.any (·.1 == m))
  | [] => by simp [put]
  | (l, w) :: bs => by
    rw [put]
    split
    · rename_i hl
      simp [← eq_of_beq hl]
    · simp [any_put bs, Bool.or_left_comm]

theorem lookup_put :
    ∀ bs : List (α × β), (put (· == ·) k v bs).lookup m = if m == k then some v else bs.lookup m
  | [] => by
    simp only [put, List.lookup_cons, List.lookup_nil]
    split <;> simp_all
  | (l, w) :: bs => by
    rw [put]
    split
    · rename_i hl
      cases eq_of_beq hl
      simp only [List.lookup_cons]
      split <;> simp_all
    · rename_i hl
      simp only [List.lookup_cons, lookup_put bs]
      split <;> split <;> simp_all

variable {k m v} {bs bs' : List (α × β)}

/-! ### Every key once -/

omit [LawfulBEq α] in
theorem merge_concat (b : α × β) :
    merge (· == ·) (bs ++ [b]) = put (· == ·) b.1 b.2 (merge (· == ·) bs) := by
  simp only [merge, List.foldl_append, List.foldl_cons, List.foldl_nil]

omit [LawfulBEq α] in
theorem forall_mem_merge {P : β → Prop} (h : ∀ b ∈ bs, P b.2) :
    ∀ b ∈ merge (· == ·) bs, P b.2 := by
  induction bs using List.reverseRecOn with
  | nil => exact h
  | append_singleton bs c ih =>
    rw [List.forall_mem_append, List.forall_mem_singleton] at h
    intro b hb
    rw [merge_concat] at hb
    rcases mem_put hb with hb | heq
    · exact ih h.1 b hb
    · exact heq ▸ h.2

theorem any_merge (bs : List (α × β)) :
    (merge (· == ·) bs).any (·.1 == m) = bs.any (·.1 == m) := by
  induction bs using List.reverseRecOn with
  | nil => rfl
  | append_singleton bs b ih =>
    rw [merge_concat, any_put, ih, List.any_append]
    simp [Bool.or_comm]

theorem mem_keys_merge : m ∈ (merge (· == ·) bs).map Prod.fst ↔ m ∈ bs.map Prod.fst := by
  have hany (cs : List (α × β)) : cs.any (·.1 == m) = true ↔ m ∈ cs.map Prod.fst := by simp
  rw [← hany, ← hany, any_merge]

theorem nodup_merge (bs : List (α × β)) : ((merge (· == ·) bs).map Prod.fst).Nodup := by
  induction bs using List.reverseRecOn with
  | nil => exact .nil
  | append_singleton bs b ih =>
    rw [merge_concat]
    exact nodup_put ih

theorem lookup_merge (bs : List (α × β)) (v : β) (hk : k ∉ bs'.map Prod.fst) :
    (merge (· == ·) (bs ++ (k, v) :: bs')).lookup k = some v := by
  induction bs' using List.reverseRecOn with
  | nil => rw [merge_concat, lookup_put, if_pos BEq.rfl]
  | append_singleton bs' b ih =>
    rw [List.map_append, List.mem_append, not_or] at hk
    have hne : ¬(k == b.1) = true := by
      rw [beq_iff_eq]
      exact fun heq => hk.2 (List.mem_singleton.2 heq)
    rw [← List.cons_append, ← List.append_assoc, merge_concat, lookup_put, if_neg hne]
    exact ih hk.1

/-- The last value of a key is its only one after merging. -/
theorem merge_split (bs : List (α × β)) (v : β) (hk : k ∉ bs'.map Prod.fst) :
    ∃ cs cs', merge (· == ·) (bs ++ (k, v) :: bs') = cs ++ (k, v) :: cs'
      ∧ k ∉ cs'.map Prod.fst := by
  obtain ⟨cs, cs', heq, -⟩ := List.lookup_eq_some_iff.1 (lookup_merge bs v hk)
  have hnodup := nodup_merge (bs ++ (k, v) :: bs')
  rw [heq, List.map_append, List.map_cons] at hnodup
  exact ⟨cs, cs', heq, (List.nodup_cons.1 (List.nodup_append.1 hnodup).2.1).1⟩

end Bindings

/-- Of the results along a list the first one counts. Where the result at `f` is replaced, it is the
first if there is none before `f`, and otherwise makes no difference. -/
theorem findSome?_replaced {α β : Type} {f : α} {b : β} {w w' : α → Option β}
    (hf : w' f = some b) (hne : ∀ a, a ≠ f → w' a = w a) :
    ∀ xs : List α,
      ((∃ near far, xs = near ++ f :: far ∧ ∀ a ∈ near, w a = none) → xs.findSome? w' = some b)
        ∧ ((¬∃ near far, xs = near ++ f :: far ∧ ∀ a ∈ near, w a = none) →
          xs.findSome? w' = xs.findSome? w)
  | [] => ⟨by simp, fun _ => rfl⟩
  | a :: xs => by
    obtain ⟨ih, ih'⟩ := findSome?_replaced hf hne xs
    by_cases ha : a = f
    · subst ha
      refine ⟨fun _ => ?_, fun hno => absurd ⟨[], xs, rfl, by simp⟩ hno⟩
      rw [List.findSome?_cons, hf]
    · rw [List.findSome?_cons, List.findSome?_cons, hne a ha]
      constructor
      · rintro ⟨_ | ⟨c, near⟩, far, heq, hnone⟩
        · exact absurd (List.cons.inj heq).1 ha
        · obtain ⟨rfl, rfl⟩ := List.cons.inj heq
          rw [hnone a List.mem_cons_self]
          exact ih ⟨near, far, rfl, fun c hc => hnone c (List.mem_cons_of_mem _ hc)⟩
      · intro hno
        rcases hw : w a with _ | c
        · refine ih' ?_
          rintro ⟨near, far, rfl, hnone⟩
          exact hno ⟨a :: near, far, rfl, List.forall_mem_cons.2 ⟨hw, hnone⟩⟩
        · rfl

namespace Frame

variable (f : Frame) (n m : Symbol) (v : Value)

theorem binds_set : (f.set n v).binds m = (n == m || f.binds m) := Bindings.any_put n m v f.vars

theorem get?_set : (f.set n v).get? m = if m == n then some v else f.get? m :=
  Bindings.lookup_put n m v f.vars

theorem isSome_get? : (f.get? n).isSome = f.binds n := by
  rw [Bool.eq_iff_iff, get?, List.lookup_isSome_iff, binds, List.any_eq_true]
  simp only [Bool.beq_comm]

end Frame

namespace Store

variable {s : Store} {depth : Nat} {f g : FrameRef} {n m : Symbol} {v : Value}

/-! ## One binding more -/

theorem outer?_bind (g : FrameRef) : (s.bind f n v).outer? g = s.outer? g := by
  simp only [outer?, outer_bind]

/-- The way outward depends on the links alone. -/
theorem chain_congr {t : Store} (g : FrameRef) (h : ∀ f ≤ g, t.outer? f = s.outer? f) :
    t.chain g = s.chain g := by
  rw [t.chain_eq, s.chain_eq, h g (Nat.le_refl g)]
  rcases ho : s.outer? g with _ | o
  · rfl
  · have hlt := lt_of_outer? ho
    rw [Option.map_some, Option.map_some,
      chain_congr o fun f hf => h f (Nat.le_trans hf (Nat.le_of_lt hlt))]
termination_by g

theorem chain_bind (g : FrameRef) : (s.bind f n v).chain g = s.chain g :=
  chain_congr g fun g _ => outer?_bind g

theorem get?_bind (hf : f < s.frames.size) (g : FrameRef) (m : Symbol) :
    ((s.bind f n v).frame g).get? m = if g = f ∧ m = n then some v else (s.frame g).get? m := by
  rw [frame_bind]
  by_cases hg : g = f
  · subst hg
    rw [if_pos ⟨rfl, hf⟩, Frame.get?_set]
    simp only [beq_iff_eq, true_and]
  · rw [if_neg fun h => hg h.1.symm, if_neg fun h => hg h.1]

/-- A name that a frame binds stays bound, whatever is bound in whatever frame. -/
theorem binds_bind (g : FrameRef) (m : Symbol) (h : (s.frame g).binds m = true) :
    ((s.bind f n v).frame g).binds m = true := by
  rw [frame_bind]
  split
  · rw [Frame.binds_set, h, Bool.or_true]
  · exact h

/-- A new value for a name that is bound binds no other. -/
theorem binds_rebind (hn : (s.frame f).binds n = true) (g : FrameRef) (m : Symbol) :
    ((s.bind f n v).frame g).binds m = (s.frame g).binds m := by
  rw [frame_bind]
  split
  · rename_i hg
    rw [Frame.binds_set, ← hg.1]
    rcases hnm : n == m with _ | _
    · rfl
    · rw [← eq_of_beq hnm, hn, Bool.or_true]
  · rfl

theorem lt_of_binds (h : (s.frame f).binds n = true) : f < s.frames.size := by
  refine Decidable.byContradiction fun hf => ?_
  have hframe : s.frame f = default := by simp only [frame, Array.getD, dif_neg hf]
  rw [hframe] at h
  cases h

/-! ## The first frame that binds a name -/

theorem lookup?_chain (g : FrameRef) :
    s.lookup? g m = (s.chain g).findSome? fun h => (s.frame h).get? m := by
  rw [lookup?_eq, chain_eq, List.findSome?_cons, ← Frame.isSome_get?]
  rcases (s.frame g).get? m with _ | w
  · rcases ho : s.outer? g with _ | o
    · rfl
    · have hlt := lt_of_outer? ho
      exact lookup?_chain o
  · rfl
termination_by g

theorem isSome_lookup? : (s.lookup? g m).isSome = (s.find? g m).isSome := by
  rw [lookup?]
  rcases hh : s.find? g m with _ | h
  · rfl
  · rw [find?_chain, List.find?_eq_some_iff_append] at hh
    rw [Option.bind_some, Frame.isSome_get?]
    exact hh.1

/-- On the way outward from `g` there is `f`, and no frame nearer to `g` binds the name. -/
def Exposes (s : Store) (g f : FrameRef) (n : Symbol) : Prop :=
  ∃ near far, s.chain g = near ++ f :: far ∧ ∀ h ∈ near, (s.frame h).binds n = false

theorem find?_eq_some_iff :
    s.find? g n = some f ↔ (s.frame f).binds n = true ∧ s.Exposes g f n := by
  rw [find?_chain, List.find?_eq_some_iff_append]
  simp only [Exposes, Bool.not_eq_true']

theorem find?_eq_none_iff : s.find? g n = none ↔ ∀ h ∈ s.chain g, (s.frame h).binds n = false := by
  rw [find?_chain, List.find?_eq_none]
  simp only [Bool.not_eq_true]

theorem exposes_iff (g f : FrameRef) (n : Symbol) :
    s.Exposes g f n
      ↔ ∃ near far, s.chain g = near ++ f :: far ∧ ∀ h ∈ near, (s.frame h).get? n = none := by
  simp only [Exposes, ← Frame.isSome_get?, Option.isSome_eq_false_iff, Option.isNone_iff_eq_none]

theorem lookup?_bind_of_exposes (hf : f < s.frames.size) (h : s.Exposes g f n) :
    (s.bind f n v).lookup? g n = some v := by
  rw [lookup?_chain, chain_bind]
  refine (findSome?_replaced ?_ (fun h hne => ?_) _).1 ((exposes_iff g f n).1 h)
  · rw [get?_bind hf, if_pos ⟨rfl, rfl⟩]
  · rw [get?_bind hf, if_neg fun heq => hne heq.1]

theorem lookup?_bind_of_not_exposes (hf : f < s.frames.size) (h : ¬(m = n ∧ s.Exposes g f n)) :
    (s.bind f n v).lookup? g m = s.lookup? g m := by
  rw [lookup?_chain, lookup?_chain, chain_bind]
  by_cases hm : m = n
  · subst hm
    refine (findSome?_replaced (f := f) (b := v) ?_ (fun h hne => ?_) _).2 fun he => ?_
    · rw [get?_bind hf, if_pos ⟨rfl, rfl⟩]
    · rw [get?_bind hf, if_neg fun heq => hne heq.1]
    · exact h ⟨rfl, (exposes_iff g f m).2 he⟩
  · simp only [get?_bind hf, hm, and_false, if_false]

/-! ## Names given as symbols -/

theorem find_sym (g : FrameRef) (m : Symbol) :
    s.find g (.sym m) = .ok ((s.chain g).find? fun h => (s.frame h).binds m) :=
  congrArg Except.ok (s.find?_chain m g)

theorem lookup_sym (g : FrameRef) (m : Symbol) :
    s.lookup depth g (.sym m)
      = (s.lookup? g m).elim (.error (.failure (.unbound (.sym m) m.name))) .ok := by
  rw [lookup]
  change Except.bind (.ok (some m)) _ = _
  rw [Except.bind, Option.bind_some]
  cases s.lookup? g m <;> rfl

theorem contains_iff_lookup (g : FrameRef) (m : Symbol) :
    s.contains g (.sym m) = true ↔ ∃ w, s.lookup depth g (.sym m) = .ok w := by
  change (s.find? g m).isSome = true ↔ _
  rw [← isSome_lookup?, lookup_sym]
  cases s.lookup? g m <;> simp

/-- An assignment fails, in the store as it is, exactly if no frame outward binds the name. -/
theorem assign_eq_raised_iff :
    assign depth f (.sym n) v s = .raised (.unbound (.sym n) n.name) s
      ↔ ∀ h ∈ s.chain f, (s.frame h).binds n = false := by
  rw [assign_sym, ← find?_eq_none_iff]
  cases s.find? f n <;> simp

/-- What a binding in a frame that is there changes: the lookups of its name from the frames that it
is exposed to, and no others. -/
theorem lookup_bind (hf : f < s.frames.size) (g : FrameRef) (m : Symbol) :
    (m = n ∧ s.Exposes g f n → (s.bind f n v).lookup depth g (.sym m) = .ok v)
      ∧ (¬(m = n ∧ s.Exposes g f n) →
        (s.bind f n v).lookup depth g (.sym m) = s.lookup depth g (.sym m)) := by
  constructor
  · rintro ⟨rfl, he⟩
    rw [lookup_sym, lookup?_bind_of_exposes hf he]
    rfl
  · intro hne
    rw [lookup_sym, lookup_sym, lookup?_bind_of_not_exposes hf hne]

/-- Definitions and assignments change the lookups they should and no others. A definition in `f`
shows from the frames on whose way outward `f` comes before any frame that binds the name. An
assignment from `f` is refused, and leaves the whole store as it is, exactly if no frame outward
from `f` binds the name; otherwise it shows from the frames that find the name where `f` finds it,
and no frame binds more names or fewer. In every store a name is found in the first frame on the way
outward that binds it, and a frame contains the names whose lookups succeed; where the links lead to
earlier frames, the way outward follows them to the end. -/
theorem define_assign_lookups (depth : Nat)
    (hlinks : ∀ {h o : FrameRef}, (s.frame h).outer = some o → o < h)
    (hf : f < s.frames.size) (n : Symbol) (v : Value) :
    (∃ t, define depth f (.sym n) v s = .done () t ∧ (∀ g, t.chain g = s.chain g) ∧
      ∀ g m, (m = n ∧ s.Exposes g f n → t.lookup depth g (.sym m) = .ok v)
        ∧ (¬(m = n ∧ s.Exposes g f n) →
          t.lookup depth g (.sym m) = s.lookup depth g (.sym m)))
    ∧ (assign depth f (.sym n) v s = .raised (.unbound (.sym n) n.name) s
      ↔ ∀ h ∈ s.chain f, (s.frame h).binds n = false)
    ∧ ((∃ h ∈ s.chain f, (s.frame h).binds n = true) → ∃ h t, s.find f (.sym n) = .ok (some h)
      ∧ assign depth f (.sym n) v s = .done () t ∧ (∀ g, t.chain g = s.chain g)
      ∧ (∀ g m,
        (m = n ∧ s.find g (.sym n) = .ok (some h) → t.lookup depth g (.sym m) = .ok v)
        ∧ (¬(m = n ∧ s.find g (.sym n) = .ok (some h)) →
          t.lookup depth g (.sym m) = s.lookup depth g (.sym m)))
      ∧ ∀ g m, (t.frame g).binds m = (s.frame g).binds m)
    ∧ (∀ (u : Store) (g : FrameRef) (m : Symbol),
      u.find g (.sym m) = .ok ((u.chain g).find? fun h => (u.frame h).binds m)
        ∧ (u.contains g (.sym m) = true ↔ ∃ w, u.lookup depth g (.sym m) = .ok w))
    ∧ ∀ g, s.Outward g (s.chain g) := by
  refine ⟨⟨s.bind f n v, rfl, chain_bind, lookup_bind hf⟩, assign_eq_raised_iff, ?_,
    fun u g m => ⟨find_sym g m, contains_iff_lookup g m⟩, outward_chain_of_earlier hlinks⟩
  intro hbound
  rcases hfind : s.find? f n with _ | h
  · obtain ⟨h, hmem, hb⟩ := hbound
    rw [find?_eq_none_iff.1 hfind h hmem] at hb
    cases hb
  · have hb := (find?_eq_some_iff.1 hfind).1
    refine ⟨h, s.bind h n v, congrArg Except.ok hfind, by rw [assign_sym, hfind], chain_bind,
      fun g m => ?_, binds_rebind hb⟩
    -- The frame that `g` finds the name in is the one that exposes it and binds it.
    have hsees : s.find g (.sym n) = .ok (some h) ↔ s.Exposes g h n := by
      change Except.ok (s.find? g n) = .ok (some h) ↔ _
      rw [Except.ok.injEq, find?_eq_some_iff, and_iff_right hb]
    rw [hsees]
    exact lookup_bind (lt_of_binds hb) g m

/-- `x` is bound in the outermost frame and again in a frame below the one inside it, which has a
second frame below it that binds nothing. -/
def branched : Store where
  frames := #[⟨[(⟨"x"⟩, .int 1)], none⟩, ⟨[], some 0⟩, ⟨[(⟨"x"⟩, .int 2)], some 1⟩, ⟨[], some 1⟩]

theorem chain_branched :
    branched.chain 0 = [0] ∧ branched.chain 2 = [2, 1, 0] ∧ branched.chain 3 = [3, 1, 0] := by
  have h0 : branched.chain 0 = [0] := chain_eq ..
  have h1 : branched.chain 1 = 1 :: branched.chain 0 := chain_eq ..
  have h2 : branched.chain 2 = 2 :: branched.chain 1 := chain_eq ..
  have h3 : branched.chain 3 = 3 :: branched.chain 1 := chain_eq ..
  rw [h3, h2, h1, h0]
  exact ⟨rfl, rfl, rfl⟩

theorem earlier_branched {h o : FrameRef} (ho : (branched.frame h).outer = some o) : o < h := by
  match h with
  | 0 | _ + 4 => cases ho
  | 1 | 2 | 3 =>
    cases ho
    decide

theorem lookup_branched :
    branched.lookup depth 0 (.sym ⟨"x"⟩) = .ok (.int 1)
      ∧ branched.lookup depth 2 (.sym ⟨"x"⟩) = .ok (.int 2) := by
  obtain ⟨h0, h2, -⟩ := chain_branched
  rw [lookup_sym, lookup_sym, lookup?_chain, lookup?_chain, h0, h2]
  exact ⟨rfl, rfl⟩

theorem find_branched :
    branched.find 0 (.sym ⟨"x"⟩) = .ok (some 0) ∧ branched.find 2 (.sym ⟨"x"⟩) = .ok (some 2)
      ∧ branched.find 3 (.sym ⟨"x"⟩) = .ok (some 0) := by
  obtain ⟨h0, h2, h3⟩ := chain_branched
  rw [find_sym, find_sym, find_sym, h0, h2, h3]
  exact ⟨rfl, rfl, rfl⟩

/-- A definition in the middle shows from the branch that binds nothing, not from the other one and
not from the frame outside; an assignment from that branch changes the binding outside. -/
theorem define_assign_lookups_branched :
    (∃ t, define 9 1 (.sym ⟨"x"⟩) (.int 7) branched = .done () t
      ∧ t.lookup 9 3 (.sym ⟨"x"⟩) = .ok (.int 7) ∧ t.lookup 9 2 (.sym ⟨"x"⟩) = .ok (.int 2)
      ∧ t.lookup 9 0 (.sym ⟨"x"⟩) = .ok (.int 1))
    ∧ (∃ t, assign 9 3 (.sym ⟨"x"⟩) (.int 7) branched = .done () t
      ∧ t.lookup 9 0 (.sym ⟨"x"⟩) = .ok (.int 7) ∧ t.lookup 9 2 (.sym ⟨"x"⟩) = .ok (.int 2))
    ∧ assign 9 3 (.sym ⟨"y"⟩) (.int 7) branched
      = .raised (.unbound (.sym ⟨"y"⟩) "y") branched := by
  obtain ⟨hc0, hc2, hc3⟩ := chain_branched
  obtain ⟨hl0, hl2⟩ := lookup_branched
  obtain ⟨hf0, hf2, hf3⟩ := find_branched
  refine ⟨?_, ?_, ?_⟩
  · obtain ⟨⟨t, ht, -, hl⟩, -⟩ := define_assign_lookups (s := branched) (f := 1) 9
      earlier_branched (by decide) ⟨"x"⟩ (.int 7)
    refine ⟨t, ht, (hl 3 _).1 ⟨rfl, [3], [0], hc3, by decide⟩, ?_, ?_⟩
    · refine ((hl 2 _).2 ?_).trans hl2
      rintro ⟨-, near, far, heq, hnear⟩
      rw [hc2] at heq
      rcases near with _ | ⟨h, near⟩
      · cases heq
      · obtain ⟨rfl, -⟩ := List.cons.inj heq
        exact absurd (hnear 2 List.mem_cons_self) (by decide)
    · refine ((hl 0 _).2 ?_).trans hl0
      rintro ⟨-, near, far, heq, -⟩
      rw [hc0] at heq
      rcases near with _ | ⟨h, _ | near⟩ <;> cases heq
  · obtain ⟨-, -, hassign, -⟩ := define_assign_lookups (s := branched) (f := 3) 9
      earlier_branched (by decide) ⟨"x"⟩ (.int 7)
    obtain ⟨h, t, hfind, ht, -, hl, -⟩ := hassign ⟨0, by simp [hc3], rfl⟩
    cases hfind.symm.trans hf3
    refine ⟨t, ht, (hl 0 _).1 ⟨rfl, hf0⟩, ((hl 2 _).2 ?_).trans hl2⟩
    rintro ⟨-, h2⟩
    cases h2.symm.trans hf2
  · refine (define_assign_lookups (s := branched) (f := 3) 9 earlier_branched (by decide)
      ⟨"y"⟩ (.int 7)).2.1.2 ?_
    rw [hc3]
    decide

end Store

end LispCore

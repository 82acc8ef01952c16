import LispCore.Proofs.Changes
import LispCore.Proofs.Code

/-!
# Walking and building lists

Four walkers follow the tails of a value: one says whether it is a list, one gives the elements, one
steps through them and one counts them. If the tails come to an end, so does each of them, and it
judges the value by that end alone (`Tails.isList`, `Tails.iterate`, `Tails.length`). So they accept
the same values (`Store.WalkersAgree`).

A list is built from its last pair to its first. Each new pair has a number that no pair had before,
so what was there stays as it was, and the tails lead through the new pairs to those of the value
that the list ends in (`Tails.addList`).
-/

namespace LispCore

/-- The value can be stepped through and counted. -/
def Value.IsSequence (v : Value) : Prop := v = .nil ∨ ∃ r, v = .pair r

namespace Store

namespace Tails

variable {s t : Store} {v last : Value} {rs : List PairRef}

/-! ## Walking -/

theorem isListWithin (h : s.Tails v rs last) {n : Nat} (hn : rs.length ≤ n) :
    s.isListWithin n v = .ok last.isNil := by
  induction h generalizing n with
  | @last v hv =>
    cases v with
    | pair r => exact absurd rfl (hv r)
    | _ => simp [Store.isListWithin, Value.isNil]
  | pair _ ih =>
    rw [List.length_cons] at hn
    obtain ⟨k, rfl⟩ : ∃ k, n = k + 1 := ⟨n - 1, by omega⟩
    exact ih (Nat.le_of_succ_le_succ hn)

theorem iterateWithin (h : s.Tails v rs last) (whole : Value) {n : Nat} (hn : rs.length ≤ n) :
    s.iterateWithin whole n v = (rs.map fun r => (s.pair r).head,
      if last.isNil then .ok () else .error (.failure (.malformed .notIterable (some whole)))) := by
  induction h generalizing n with
  | @last v hv =>
    cases v with
    | pair r => exact absurd rfl (hv r)
    | _ => simp [Store.iterateWithin, Value.isNil]
  | pair _ ih =>
    rw [List.length_cons] at hn
    obtain ⟨k, rfl⟩ : ∃ k, n = k + 1 := ⟨n - 1, by omega⟩
    rw [Store.iterateWithin, ih (Nat.le_of_succ_le_succ hn)]
    rfl

theorem lengthWithin (h : s.Tails v rs last) (whole : Value) {n : Nat} (k : Nat)
    (hn : rs.length ≤ n) :
    s.lengthWithin whole n k v = if last.isNil then .ok (k + rs.length)
      else .error (.failure (.malformed .notIterable (some whole))) := by
  induction h generalizing n k with
  | @last v hv =>
    cases v with
    | pair r => exact absurd rfl (hv r)
    | _ => simp [Store.lengthWithin, Value.isNil]
  | @pair r rs last _ ih =>
    rw [List.length_cons] at hn
    obtain ⟨j, rfl⟩ : ∃ j, n = j + 1 := ⟨n - 1, by omega⟩
    rw [Store.lengthWithin, ih (k + 1) (Nat.le_of_succ_le_succ hn), List.length_cons,
      show k + 1 + rs.length = k + (rs.length + 1) by omega]

theorem isList (h : s.Tails v rs last) : s.isList v = .ok last.isNil :=
  h.isListWithin h.length_le

theorem iterate (h : s.Tails v rs last) :
    s.iterate v = (rs.map fun r => (s.pair r).head,
      if last.isNil then .ok () else .error (.failure (.malformed .notIterable (some v)))) :=
  h.iterateWithin v h.length_le

theorem length (h : s.Tails v rs last) :
    s.length v = if last.isNil then .ok rs.length
      else .error (.failure (.malformed .notIterable (some v))) := by
  rw [Store.length, h.lengthWithin v 0 h.length_le, Nat.zero_add]

/-! ## Building -/

/-- A walk sees nothing but the pairs on its way. -/
theorem congr (h : s.Tails v rs last) (hsame : ∀ r ∈ rs, t.pair r = s.pair r) :
    t.Tails v rs last := by
  induction h with
  | last hv => exact .last hv
  | @pair r rs last _ ih =>
    have hr : t.pair r = s.pair r := hsame r List.mem_cons_self
    refine .pair ?_
    rw [hr]
    exact ih fun q hq => hsame q (List.mem_cons_of_mem _ hq)

end Tails

theorem keepsPairs_addPair (s : Store) (c : Cell) : s.KeepsPairs (s.addPair c).2 := by
  intro r hr
  rw [pair_addPair, if_neg (Nat.ne_of_lt hr)]

theorem size_addPair (s : Store) (c : Cell) :
    (s.addPair c).2.pairs.size = s.pairs.size + 1 := Array.size_push ..

/-- All that a list brings is one new pair for each element. -/
theorem addList_new (s : Store) (last : Value) :
    ∀ vs : List Value, s.KeepsPairs (s.addList last vs).2
      ∧ (s.addList last vs).2.pairs.size = s.pairs.size + vs.length
      ∧ (s.addList last vs).2 = { s with pairs := (s.addList last vs).2.pairs }
  | [] => ⟨fun _ => rfl, rfl, rfl⟩
  | v :: vs => by
    obtain ⟨hkeeps, hsize, hothers⟩ := addList_new s last vs
    simp only [addList]
    refine ⟨fun {r} hr => ?_, ?_, ?_⟩
    · have hle : s.pairs.size ≤ (s.addList last vs).2.pairs.size := by omega
      exact (keepsPairs_addPair _ _ (Nat.lt_of_lt_of_le hr hle)).trans (hkeeps hr)
    · rw [size_addPair, hsize, List.length_cons]
      omega
    · exact congrArg (fun t : Store => (t.addPair ⟨v, (s.addList last vs).1⟩).2) hothers

theorem log_addList (s : Store) (last : Value) (vs : List Value) :
    (s.addList last vs).2.log = s.log := by
  rw [(addList_new s last vs).2.2]

/-- From a built list the tails lead through new pairs with the given heads, and then on as they did
from the value that it ends in. -/
theorem Tails.addList {s : Store} {v last : Value} {rs : List PairRef} (h : s.Tails v rs last)
    (hrs : ∀ r ∈ rs, r < s.pairs.size) :
    ∀ vs : List Value, ∃ qs, (s.addList v vs).2.Tails (s.addList v vs).1 qs last
      ∧ qs.map (fun r => ((s.addList v vs).2.pair r).head)
        = vs ++ rs.map (fun r => (s.pair r).head)
      ∧ ∀ r ∈ qs, r < (s.addList v vs).2.pairs.size
  | [] => ⟨rs, h, rfl, hrs⟩
  | w :: vs => by
    obtain ⟨qs, htails, hheads, hqs⟩ := Tails.addList h hrs vs
    simp only [Store.addList]
    generalize (s.addList v vs).1 = tail at htails ⊢
    generalize (s.addList v vs).2 = t at htails hheads hqs ⊢
    have hnew : (t.addPair ⟨w, tail⟩).2.pair (t.addPair ⟨w, tail⟩).1 = ⟨w, tail⟩ := by
      rw [pair_addPair]
      exact if_pos rfl
    have hold : ∀ r ∈ qs, (t.addPair ⟨w, tail⟩).2.pair r = t.pair r := fun r hr =>
      keepsPairs_addPair t _ (hqs r hr)
    refine ⟨(t.addPair ⟨w, tail⟩).1 :: qs, .pair ?_, ?_, fun r hr => ?_⟩
    · rw [hnew]
      exact htails.congr hold
    · rw [List.map_cons, hnew, List.map_congr_left fun r hr => congrArg Cell.head (hold r hr),
        hheads, List.cons_append]
    · rw [size_addPair]
      rcases List.mem_cons.1 hr with rfl | hr
      · exact Nat.lt_succ_self _
      · exact Nat.lt_succ_of_lt (hqs r hr)

/-! ## Walkers and lists -/

/-- The walkers take the same values for lists, namely those that are lists, they give the same
elements, from which such a list can be built again, and they refuse all other values alike. -/
structure WalkersAgree (s : Store) (v : Value) : Prop where
  decided : s.isList v = .ok true ∨ s.isList v = .ok false
  isList_iff : s.isList v = .ok true ↔ ∃ vs, s.IsListOf v vs
  toList_iff : ∀ what, s.isList v = .ok true ↔ ∃ vs, s.toList what v = .ok vs
  iterate_iff : v.IsSequence → (s.isList v = .ok true ↔ (s.iterate v).2 = .ok ())
  length_iff : v.IsSequence → (s.isList v = .ok true ↔ ∃ n, s.length v = .ok n)
  elements : ∀ {what vs}, s.toList what v = .ok vs → s.IsListOf v vs
  iterate : ∀ {what vs}, s.toList what v = .ok vs → v.IsSequence → s.iterate v = (vs, .ok ())
  length : ∀ {what vs}, s.toList what v = .ok vs → v.IsSequence → s.length v = .ok vs.length
  rebuilt : ∀ {what vs}, s.toList what v = .ok vs →
    (s.addList .nil vs).2.isList (s.addList .nil vs).1 = .ok true
      ∧ (s.addList .nil vs).2.toList what (s.addList .nil vs).1 = .ok vs
  toList_refused : ∀ {what}, s.isList v = .ok false →
    s.toList what v = .error (.failure (.malformed (.notProper what) (some v)))
  iterate_refused : s.isList v = .ok false → v.IsSequence →
    (s.iterate v).2 = .error (.failure (.malformed .notIterable (some v)))
  length_refused : s.isList v = .ok false → v.IsSequence →
    s.length v = .error (.failure (.malformed .notIterable (some v)))

/-- What is built of some elements before a value is a list exactly if the value is one, and then
has the elements of both. Nothing that was there is changed by it. -/
structure BuildsBefore (s : Store) (last : Value) (vs : List Value) : Prop where
  toList_iff : ∀ what, (∃ ws, (s.addList last vs).2.toList what (s.addList last vs).1 = .ok ws) ↔
    s.isList last = .ok true
  toList : ∀ {what ws}, s.toList what last = .ok ws →
    (s.addList last vs).2.toList what (s.addList last vs).1 = .ok (vs ++ ws)
  keepsPairs : s.KeepsPairs (s.addList last vs).2
  others : (s.addList last vs).2 = { s with pairs := (s.addList last vs).2.pairs }

variable {s : Store} {v last : Value} {rs : List PairRef}

theorem addList_nil (s : Store) (vs : List Value) :
    (s.addList .nil vs).2.isList (s.addList .nil vs).1 = .ok true
      ∧ ∀ what, (s.addList .nil vs).2.toList what (s.addList .nil vs).1 = .ok vs := by
  have hempty : s.Tails .nil [] .nil := .last nofun
  obtain ⟨qs, htails, hheads, -⟩ := hempty.addList nofun vs
  refine ⟨htails.isList, fun what => ?_⟩
  rw [htails.toList what, hheads, List.map_nil, List.append_nil]

namespace Tails

theorem last_eq_nil (h : s.Tails v rs last) (hv : s.isList v = .ok true) : last = .nil := by
  rw [h.isList] at hv
  cases last with
  | nil => rfl
  | _ => cases hv

theorem walkersAgree_proper (h : s.Tails v rs .nil) : s.WalkersAgree v := by
  have hlist : s.isList v = .ok true := h.isList
  have hiterate : s.iterate v = (rs.map fun r => (s.pair r).head, .ok ()) := h.iterate
  have hlength : s.length v = .ok rs.length := h.length
  have hvs {what : String} {vs : List Value} (hvs : s.toList what v = .ok vs) :
      vs = rs.map fun r => (s.pair r).head := by
    rw [h.toList] at hvs
    cases hvs
    rfl
  have hyes (hno : s.isList v = .ok false) : False := by
    rw [hlist] at hno
    cases hno
  exact {
    decided := .inl hlist
    isList_iff := iff_of_true hlist ⟨_, toList_eq_ok_iff.1 (h.toList "")⟩
    toList_iff := fun what => iff_of_true hlist ⟨_, h.toList what⟩
    iterate_iff := fun _ => iff_of_true hlist (congrArg Prod.snd hiterate)
    length_iff := fun _ => iff_of_true hlist ⟨_, hlength⟩
    elements := toList_eq_ok_iff.1
    iterate := fun h _ => by rw [hiterate, hvs h]
    length := fun h _ => by rw [hlength, hvs h, List.length_map]
    rebuilt := fun {what vs} _ => ⟨(addList_nil s vs).1, (addList_nil s vs).2 what⟩
    toList_refused := fun hno => (hyes hno).elim
    iterate_refused := fun hno _ => (hyes hno).elim
    length_refused := fun hno _ => (hyes hno).elim }

theorem walkersAgree_improper (h : s.Tails v rs last) (hlast : last.isNil = false) :
    s.WalkersAgree v := by
  have hlist : ¬s.isList v = .ok true := by simp [h.isList, hlast]
  have hiterate : (s.iterate v).2 = .error (.failure (.malformed .notIterable (some v))) := by
    simp [h.iterate, hlast]
  have hlength : s.length v = .error (.failure (.malformed .notIterable (some v))) := by
    simp [h.length, hlast]
  have hno {what : String} {vs : List Value} (hvs : s.toList what v = .ok vs) : False := by
    rw [h.toList_improper hlast what] at hvs
    cases hvs
  have hnone : ¬∃ vs, s.IsListOf v vs := by
    rintro ⟨vs, hvs⟩
    have hok : s.toList "" v = .ok vs := toList_eq_ok_iff.2 hvs
    exact hno hok
  exact {
    decided := .inr (hlast ▸ h.isList)
    isList_iff := iff_of_false hlist hnone
    toList_iff := fun what => iff_of_false hlist fun ⟨_, hvs⟩ => hno hvs
    iterate_iff := fun _ => iff_of_false hlist (by simp [hiterate])
    length_iff := fun _ => iff_of_false hlist (by simp [hlength])
    elements := fun hvs => (hno hvs).elim
    iterate := fun hvs _ => (hno hvs).elim
    length := fun hvs _ => (hno hvs).elim
    rebuilt := fun hvs => (hno hvs).elim
    toList_refused := fun {what} _ => h.toList_improper hlast what
    iterate_refused := fun _ _ => hiterate
    length_refused := fun _ _ => hlength }

theorem walkersAgree (h : s.Tails v rs last) : s.WalkersAgree v := by
  cases hlast : last.isNil with
  | true =>
    have hnil : last = .nil := h.last_eq_nil (hlast ▸ h.isList)
    exact (hnil ▸ h).walkersAgree_proper
  | false => exact h.walkersAgree_improper hlast

theorem buildsBefore (h : s.Tails v rs last) (hrs : ∀ r ∈ rs, r < s.pairs.size)
    (vs : List Value) : s.BuildsBefore v vs := by
  obtain ⟨hkeeps, -, hothers⟩ := addList_new s v vs
  obtain ⟨qs, htails, hheads, -⟩ := h.addList hrs vs
  refine ⟨fun what => ?_, fun {what ws} hws => ?_, hkeeps, hothers⟩
  · rw [← htails.walkersAgree.toList_iff what, htails.isList, h.isList]
  · have hnil : last = .nil := h.last_eq_nil ((h.walkersAgree.toList_iff what).2 ⟨ws, hws⟩)
    subst hnil
    rw [h.toList what] at hws
    cases hws
    rw [htails.toList what, hheads]

end Tails

/-- On every value whose tails come to an end the walkers of lists agree, and they read back what is
built before it, as long as its pairs are there. -/
theorem walkers_agree_and_read_back (h : s.Tails v rs last) :
    s.WalkersAgree v ∧ ((∀ r ∈ rs, r < s.pairs.size) → ∀ vs, s.BuildsBefore v vs) :=
  ⟨h.walkersAgree, h.buildsBefore⟩

/-- The lists `(1 2)` and `(0 2)`, which share their last pair, and the improper `(3 . 4)`. -/
def sharedTails : Store where
  pairs := #[⟨.int 1, .pair 1⟩, ⟨.int 2, .nil⟩, ⟨.int 0, .pair 1⟩, ⟨.int 3, .int 4⟩]

theorem walkers_agree_and_read_back_sharedTails :
    sharedTails.Tails (.pair 0) [0, 1] .nil
      ∧ sharedTails.toList "list" (.pair 0) = .ok [.int 1, .int 2]
      ∧ sharedTails.iterate (.pair 0) = ([.int 1, .int 2], .ok ())
      ∧ (sharedTails.addList (.pair 2) [.int 5]).2.toList "list"
        (sharedTails.addList (.pair 2) [.int 5]).1 = .ok [.int 5, .int 0, .int 2]
      ∧ sharedTails.KeepsPairs (sharedTails.addList (.pair 2) [.int 5]).2
      ∧ sharedTails.Tails (.pair 3) [3] (.int 4)
      ∧ sharedTails.toList "list" (.pair 3)
        = .error (.failure (.malformed (.notProper "list") (some (.pair 3))))
      ∧ ¬∃ vs, (sharedTails.addList (.pair 3) [.int 5]).2.toList "list"
        (sharedTails.addList (.pair 3) [.int 5]).1 = .ok vs := by
  have hproper : sharedTails.Tails (.pair 0) [0, 1] .nil := .pair (.pair (.last nofun))
  have hshared : sharedTails.Tails (.pair 2) [2, 1] .nil := .pair (.pair (.last nofun))
  have himproper : sharedTails.Tails (.pair 3) [3] (.int 4) := .pair (.last nofun)
  have hlist : sharedTails.toList "list" (.pair 0) = .ok [.int 1, .int 2] := rfl
  have hbuilt := (walkers_agree_and_read_back hshared).2 (by decide) [.int 5]
  obtain ⟨hrefused, hbefore⟩ := walkers_agree_and_read_back himproper
  refine ⟨hproper, hlist, ?_, hbuilt.toList rfl, hbuilt.keepsPairs, himproper,
    hrefused.toList_refused rfl, ?_⟩
  · exact (walkers_agree_and_read_back hproper).1.iterate hlist (.inr ⟨0, rfl⟩)
  · rw [(hbefore (by decide) [.int 5]).toList_iff]
    nofun

end Store

end LispCore

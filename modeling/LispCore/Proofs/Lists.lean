import LispCore.Store.Lists
import Mathlib.Data.List.Perm.Subperm

/-!
# Lists as they stand in the store

`Store.Tails` says which pairs are met when the tails are followed from a value, and where that
ends. A walk that ends meets no pair twice, so it is over within the steps after which a walker of
lists is known to run in a circle (`Tails.length_le`). If it ends in the empty list, the elements of
a list are found (`Tails.toList`), and if it ends elsewhere the value is refused
(`Tails.toList_improper`). Where it never ends (`Store.Circular`) there is no answer at all
(`Circular.toList`). A value is the list of its elements (`Store.IsListOf`) exactly if the walk
gives them (`toList_eq_ok_iff`).
-/

namespace LispCore.Store

/-- The pairs met when the tails are followed from a value to the end, and the end. -/
inductive Tails (s : Store) : Value → List PairRef → Value → Prop
  | last {v : Value} (h : ∀ r, v ≠ .pair r) : Tails s v [] v
  | pair {r : PairRef} {rs : List PairRef} {last : Value}
    (rest : Tails s (s.pair r).tail rs last) : Tails s (.pair r) (r :: rs) last

namespace Tails

variable {s : Store} {v last last' : Value} {rs rs' : List PairRef}

theorem unique (h : s.Tails v rs last) (h' : s.Tails v rs' last') : rs = rs' := by
  induction h generalizing rs' with
  | last hv =>
    cases h' with
    | last _ => rfl
    | pair _ => exact absurd rfl (hv _)
  | pair _ ih =>
    cases h' with
    | last hv => exact absurd rfl (hv _)
    | pair rest => rw [ih rest]

/-- From a pair on the way the walk goes on as it did. -/
theorem of_mem (h : s.Tails v rs last) {r : PairRef} (hr : r ∈ rs) :
    ∃ rs', s.Tails (.pair r) rs' last ∧ rs'.length ≤ rs.length := by
  induction h with
  | last _ => cases hr
  | @pair q qs _ rest ih =>
    rcases List.mem_cons.1 hr with rfl | hr
    · exact ⟨r :: qs, .pair rest, Nat.le_refl _⟩
    · obtain ⟨rs', h', hle⟩ := ih hr
      exact ⟨rs', h', Nat.le_succ_of_le hle⟩

theorem nodup (h : s.Tails v rs last) : rs.Nodup := by
  induction h with
  | last _ => exact .nil
  | @pair r rs last rest ih =>
    refine List.nodup_cons.2 ⟨fun hr => ?_, ih⟩
    -- A pair met again would be as far from the end as before.
    obtain ⟨rs', h', hle⟩ := rest.of_mem hr
    have heq : r :: rs = rs' := unique (.pair rest) h'
    have hlen := congrArg List.length heq
    rw [List.length_cons] at hlen
    omega

/-- A number that no pair has ends the walk, so it can only be the last. -/
theorem lt_of_mem_dropLast (h : s.Tails v rs last) : ∀ r ∈ rs.dropLast, r < s.pairs.size := by
  induction h with
  | last _ => simp
  | @pair r rs last rest ih =>
    intro q hq
    rcases rs with _ | ⟨r', rs⟩
    · simp at hq
    · rw [List.dropLast_cons_cons] at hq
      rcases List.mem_cons.1 hq with rfl | hq
      · refine Nat.lt_of_not_le fun hle => ?_
        have htail : (s.pair q).tail = .nil := by
          simp only [Store.pair, Array.getD_eq_getD_getElem?, Array.getElem?_eq_none hle]
          rfl
        rw [htail] at rest
        cases rest
      · exact ih q hq

theorem length_le (h : s.Tails v rs last) : rs.length ≤ s.chainBound := by
  have hnodup : rs.dropLast.Nodup := h.nodup.sublist (List.dropLast_sublist rs)
  have hsub : rs.dropLast ⊆ List.range s.pairs.size := fun r hr =>
    List.mem_range.2 (h.lt_of_mem_dropLast r hr)
  have hle := (hnodup.subperm hsub).length_le
  rw [List.length_dropLast, List.length_range] at hle
  simp only [chainBound]
  omega

theorem elementsWithin (h : s.Tails v rs last) (stop : Failure) {n : Nat} (hn : rs.length ≤ n) :
    s.elementsWithin stop n v =
      if last.isNil then .ok (rs.map fun r => (s.pair r).head) else .error (.failure stop) := by
  induction h generalizing n with
  | @last v hv =>
    cases v with
    | pair r => exact absurd rfl (hv r)
    | _ => simp [Store.elementsWithin, Value.isNil]
  | @pair r rs last _ ih =>
    rw [List.length_cons] at hn
    obtain ⟨k, rfl⟩ : ∃ k, n = k + 1 := ⟨n - 1, by omega⟩
    rw [Store.elementsWithin, ih (Nat.le_of_succ_le_succ hn)]
    cases last.isNil <;> rfl

theorem toList (h : s.Tails v rs .nil) (what : String) :
    s.toList what v = .ok (rs.map fun r => (s.pair r).head) := h.elementsWithin _ h.length_le

theorem toList_improper (h : s.Tails v rs last) (hlast : last.isNil = false) (what : String) :
    s.toList what v = .error (.failure (.malformed (.notProper what) (some v))) := by
  rw [Store.toList, h.elementsWithin _ h.length_le, hlast]
  rfl

end Tails

/-- The tails of a value never end. -/
def Circular (s : Store) (v : Value) : Prop := ∀ rs last, ¬s.Tails v rs last

namespace Circular

variable {s : Store} {v : Value}

/-- From every pair on the way there is another to go on to. -/
theorem exists_pair (h : s.Circular v) : ∃ r, v = .pair r ∧ s.Circular (s.pair r).tail := by
  cases v with
  | pair r => exact ⟨r, rfl, fun rs last htails => h _ _ (.pair htails)⟩
  | _ => exact absurd (.last nofun) (h [] _)

theorem elementsWithin (stop : Failure) :
    ∀ (n : Nat) {v : Value}, s.Circular v → s.elementsWithin stop n v = .error .endless
  | n, v, h => by
    obtain ⟨r, rfl, htail⟩ := h.exists_pair
    cases n with
    | zero => rfl
    | succ n =>
      rw [Store.elementsWithin, elementsWithin stop n htail]
      rfl

theorem toList (h : s.Circular v) (what : String) : s.toList what v = .error .endless :=
  elementsWithin _ _ h

/-- A pair that is its own tail. -/
theorem of_tail {r : PairRef} (h : (s.pair r).tail = .pair r) : s.Circular (.pair r) := by
  suffices hne : ∀ {v : Value} {rs : List PairRef} {last : Value}, s.Tails v rs last →
      v ≠ .pair r from fun _ _ htails => hne htails rfl
  intro v rs last htails
  induction htails with
  | last hv => exact hv r
  | pair _ ih =>
    rintro ⟨⟩
    exact ih h

end Circular

/-- A value is the list of the given elements. -/
inductive IsListOf (s : Store) : Value → List Value → Prop
  | nil : IsListOf s .nil []
  | cons {r : PairRef} {vs : List Value} (rest : IsListOf s (s.pair r).tail vs) :
    IsListOf s (.pair r) ((s.pair r).head :: vs)

section Elements

variable {s : Store} {v : Value} {vs : List Value}

theorem IsListOf.tails (h : s.IsListOf v vs) :
    ∃ rs, s.Tails v rs .nil ∧ vs = rs.map fun r => (s.pair r).head := by
  induction h with
  | nil => exact ⟨[], .last nofun, rfl⟩
  | @cons r vs _ ih =>
    obtain ⟨rs, htails, rfl⟩ := ih
    exact ⟨r :: rs, .pair htails, rfl⟩

theorem isListOf_of_elementsWithin {stop : Failure} :
    ∀ (n : Nat) {v : Value} {vs : List Value}, s.elementsWithin stop n v = .ok vs →
      s.IsListOf v vs
  | n, v, vs, h => by
    cases v with
    | pair r =>
      cases n with
      | zero => cases h
      | succ n =>
        rw [elementsWithin] at h
        rcases hws : s.elementsWithin stop n (s.pair r).tail with o | ws <;> rw [hws] at h
        · cases h
        · cases h
          exact .cons (isListOf_of_elementsWithin n hws)
    | nil =>
      simp only [elementsWithin, Except.ok.injEq] at h
      exact h ▸ .nil
    | _ => simp [elementsWithin] at h

theorem toList_eq_ok_iff {what : String} : s.toList what v = .ok vs ↔ s.IsListOf v vs := by
  constructor
  · exact isListOf_of_elementsWithin _
  · intro h
    obtain ⟨rs, htails, rfl⟩ := h.tails
    exact htails.toList what

/-- A value is a list, it ends elsewhere, or it does not end. -/
theorem toList_cases (s : Store) (what : String) (v : Value) :
    (∃ vs, s.IsListOf v vs ∧ s.toList what v = .ok vs)
      ∨ (∃ rs last, s.Tails v rs last ∧ last.isNil = false
        ∧ s.toList what v = .error (.failure (.malformed (.notProper what) (some v))))
      ∨ s.Circular v ∧ s.toList what v = .error .endless := by
  by_cases hends : ∃ rs last, s.Tails v rs last
  · obtain ⟨rs, last, htails⟩ := hends
    cases hlast : last.isNil with
    | true =>
      cases last <;> cases hlast
      exact .inl ⟨_, toList_eq_ok_iff.1 (htails.toList what), htails.toList what⟩
    | false => exact .inr (.inl ⟨rs, last, htails, hlast, htails.toList_improper hlast what⟩)
  · have hcircular : s.Circular v := fun rs last htails => hends ⟨rs, last, htails⟩
    exact .inr (.inr ⟨hcircular, hcircular.toList what⟩)

/-- Only a chain that ends, and not in the empty list, is refused. -/
theorem tails_of_toList {what : String} {x : Failure} (h : s.toList what v = .error (.failure x)) :
    x = .malformed (.notProper what) (some v)
      ∧ ∃ rs last, s.Tails v rs last ∧ last.isNil = false := by
  rcases s.toList_cases what v with ⟨vs, -, heq⟩ | ⟨rs, last, htails, hlast, heq⟩ | ⟨-, heq⟩ <;>
    rw [heq] at h <;> cases h
  exact ⟨rfl, rs, last, htails, hlast⟩

end Elements

end LispCore.Store

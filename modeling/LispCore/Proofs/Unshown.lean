import LispCore.Store.View
import Mathlib.Tactic.SplitIfs

/-!
# Values that have no text

A text can fail in two ways only: the host raises an exception while it writes it, as for an integer
that is too long or an object of its own, or the stack is exhausted, as for a value that nests too
deep.
-/

namespace LispCore

/-- How a text can fail. -/
def Failure.IsUnshown (x : Failure) : Prop := x = .overflow ∨ ∃ f, x = .fault f

namespace Failure

theorem IsUnshown.fault (f : Fault) : (Failure.fault f).IsUnshown := .inr ⟨f, rfl⟩

theorem IsUnshown.isEvaluation_eq {x : Failure} (h : x.IsUnshown) : x.isEvaluation = false := by
  rcases h with rfl | ⟨f, rfl⟩ <;> rfl

theorem isUnshown_of_answer {w : Writing} {x : Failure} (h : w.answer = .error (.failure x)) :
    x.IsUnshown := by
  cases w with
  | text t => cases h
  | fault f =>
    cases h
    exact .fault f
  | overflow =>
    cases h
    exact .inl rfl
  | endless => cases h

/-- A message has the failures of the innermost cause's message only. -/
theorem isUnshown_of_text : ∀ {x y : Failure}, x.text = .error (.failure y) → y.IsUnshown
  | .primitive name cause, y, h => by
    simp only [text] at h
    rcases hc : cause.text with o | t <;> rw [hc] at h <;> cases h
    exact isUnshown_of_text hc
  | .fault f, y, h => isUnshown_of_answer h
  | .unbound .., _, h | .notCallable .., _, h | .arity .., _, h | .malformed .., _, h
  | .recursionLimit _, _, h | .overflow, _, h => by cases h

end Failure

namespace Decimal

theorem fits_iff : ∀ {k n : Nat}, 0 < k → (fits k n = true ↔ n < Nat.pow 10 k)
  | 1, n, _ => by simp [fits]
  | k + 2, n, _ => by
    rw [fits, Bool.or_eq_true, fits_iff k.succ_pos, decide_eq_true_eq,
      Nat.div_lt_iff_lt_mul (by decide)]
    have hle : 10 ≤ Nat.pow 10 (k + 2) := Nat.le_self_pow (by omega) 10
    exact ⟨fun h => h.elim (Nat.lt_of_lt_of_le · hle) id, .inr⟩

theorem isWritable_iff {i : Int} : isWritable i = true ↔ i.natAbs < Nat.pow 10 digitLimit :=
  fits_iff (by decide)

/-- The first integer that is too long. -/
theorem le_natAbs_pow :
    Nat.pow 10 digitLimit ≤ ((Nat.pow 10 digitLimit : Nat) : Int).natAbs :=
  Nat.le_of_eq (Int.natAbs_natCast _).symm

end Decimal

theorem mapM_error {ε α β : Type} {f : α → Except ε β} {x : ε} :
    ∀ {as : List α}, as.mapM f = .error x → ∃ a ∈ as, f a = .error x
  | [], h => by cases h
  | a :: as, h => by
    rw [List.mapM_cons] at h
    rcases ha : f a with y | b <;> rw [ha] at h
    · cases h
      exact ⟨a, List.mem_cons_self, ha⟩
    · rcases has : as.mapM f with y | bs <;> rw [has] at h <;> cases h
      obtain ⟨a', hmem, ha'⟩ := mapM_error has
      exact ⟨a', List.mem_cons_of_mem _ hmem, ha'⟩

namespace Store

variable {s : Store} {x : Failure}

theorem viewWithin_error :
    ∀ {n : Nat} {v : Value}, s.viewWithin n v = .error (.failure x) → x.IsUnshown
  | n, .int i, h => by
    cases n <;> simp only [viewWithin] at h <;> split_ifs at h <;> cases h <;> exact .fault _
  | n, .foreign o, h => by
    cases n <;> simp only [viewWithin] at h <;> rcases ho : o.text.answer with y | t <;>
      rw [ho] at h <;> cases h <;> exact Failure.isUnshown_of_answer ho
  | 0, .pair _, h | 0, .vec _, h | 0, .closure _, h => by
    cases h
    exact .inl rfl
  | n + 1, .pair r, h => by
    simp only [viewWithin] at h
    rcases hds : (s.spine (.pair r)).1.mapM (s.viewWithin n) with y | ds <;> rw [hds] at h
    · cases h
      obtain ⟨w, -, hw⟩ := mapM_error hds
      exact viewWithin_error hw
    · rcases hlast : (s.spine (.pair r)).2 with _ | w <;> rw [hlast] at h
      · cases h
      · rcases hd : s.viewWithin n w with y | d <;> simp only [hd] at h <;> cases h
        exact viewWithin_error hd
  | n + 1, .vec r, h => by
    simp only [viewWithin] at h
    rcases hds : (s.vec r).toList.mapM (s.viewWithin n) with y | ds <;> rw [hds] at h <;> cases h
    obtain ⟨w, -, hw⟩ := mapM_error hds
    exact viewWithin_error hw
  | n + 1, .closure r, h => by
    simp only [viewWithin] at h
    rcases hds : (s.closure r).body.mapM (s.viewWithin n) with y | ds <;> rw [hds] at h <;>
      cases h
    obtain ⟨w, -, hw⟩ := mapM_error hds
    exact viewWithin_error hw
  | n, .nil, h | n, .bool _, h | n, .float _, h | n, .str _, h | n, .sym _, h | n, .prim _, h => by
    cases n <;> simp [viewWithin] at h

variable {depth : Nat}

theorem textIn_error {st : Datum.Style} {v : Value}
    (h : s.textIn depth st v = .error (.failure x)) : x.IsUnshown := by
  simp only [textIn] at h
  rcases hd : s.viewWithin depth v with y | d <;> rw [hd] at h <;> cases h
  exact viewWithin_error hd

theorem describeWithin_error :
    ∀ {n : Nat} {path : List VecRef} {v : Value},
      s.describeWithin n path v = .error (.failure x) → x.IsUnshown
  | 0, path, .vec r, h => by
    cases h
    exact .inl rfl
  | n + 1, path, .vec r, h => by
    simp only [describeWithin] at h
    split_ifs at h
    rcases hts : (s.vec r).toList.mapM (s.describeWithin n (r :: path)) with y | ts <;>
      rw [hts] at h <;> cases h
    obtain ⟨w, -, hw⟩ := mapM_error hts
    exact describeWithin_error hw
  | n, path, .foreign o, h => by
    cases n <;> simp only [describeWithin] at h <;> exact Failure.isUnshown_of_answer h
  | n, path, .str _, h | n, path, .sym _, h => by
    cases n <;> simp [describeWithin] at h
  | n, path, .nil, h | n, path, .bool _, h | n, path, .int _, h | n, path, .float _, h
  | n, path, .pair _, h | n, path, .prim _, h | n, path, .closure _, h => by
    cases n <;> simp only [describeWithin] at h <;> exact textIn_error h

theorem describe_error {v : Value} (h : s.describe depth v = .error (.failure x)) : x.IsUnshown :=
  describeWithin_error h

theorem display_error {v : Value} (h : s.display depth v = .error (.failure x)) :
    x.IsUnshown := by
  cases v with
  | str _ | sym _ => simp [display] at h
  | foreign o => exact Failure.isUnshown_of_answer h
  | _ => exact describe_error h

theorem text_unwritable {i : Int} (hi : Nat.pow 10 Decimal.digitLimit ≤ i.natAbs) :
    s.text depth (.int i) = .error (.failure (.fault .integerTooLong)) := by
  have hw : ¬Decimal.isWritable i = true := by
    rw [Decimal.isWritable_iff]
    exact Nat.not_lt.2 hi
  cases depth <;> simp only [text, textIn, viewWithin, hw] <;> rfl

theorem describe_unwritable {i : Int} (hi : Nat.pow 10 Decimal.digitLimit ≤ i.natAbs) :
    s.describe depth (.int i) = .error (.failure (.fault .integerTooLong)) := by
  cases depth <;> exact text_unwritable hi

end Store

end LispCore

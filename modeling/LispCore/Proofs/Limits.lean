import LispCore.Proofs.Catching
import LispCore.Proofs.Failures

/-!
# The limit on nesting

A run that comes to the end of its stack fails, and the failure says so at its root, however many
primitives it goes through, as long as none of them catches it. So of two runs with different limits
the one with the lower limit is either cut short, and then its outcome shows it, or both go the same
way (`Outcome.CutOf`). This holds for each part of the evaluator if it holds one level below
(`Evaluator.CutOf.above`), hence for a machine with either limit (`Machine.evaluate_cutOf`).
-/

namespace LispCore

/-- The failure is an exhausted stack or comes from one. -/
def Failure.IsCut (x : Failure) : Prop := x = .overflow ∨ ∃ limit, x.root = .recursionLimit limit

theorem Failure.IsCut.isEvaluation {x : Failure} (h : x.IsCut) (hne : x ≠ .overflow) :
    x.isEvaluation = true := by
  obtain ⟨limit, hroot⟩ := h.resolve_left hne
  cases x with
  | primitive name cause => rfl
  | recursionLimit limit => rfl
  | _ => nomatch hroot

theorem Failure.IsCut.primitive {x : Failure} (h : x.IsCut) (name : String) (hne : x ≠ .overflow) :
    (Failure.primitive name x).IsCut := .inr (h.resolve_left hne)

/-- An exceeded limit can always be put into words. -/
theorem Failure.IsCut.text {x : Failure} (h : x.IsCut) (hne : x ≠ .overflow) :
    ∃ t, x.text = .ok t := by
  obtain ⟨limit, hroot⟩ := h.resolve_left hne
  rw [x.text_eq, hroot]
  exact ⟨_, rfl⟩

section Order

variable {α β : Type}

/-- The run did not come to its own end. -/
inductive Outcome.CutShort : Outcome α → Prop
  | unfinished : CutShort .unfinished
  | raised {x : Failure} (hx : x.IsCut) (t : Store) : CutShort (.raised x t)

/-- The first outcome is cut short, or both are the same. -/
def Outcome.CutOf (o o' : Outcome α) : Prop := o.CutShort ∨ o = o'

def Eval.CutOf (c c' : Eval α) : Prop := ∀ s, (c s).CutOf (c' s)

theorem Eval.CutOf.refl (c : Eval α) : c.CutOf c := fun _ => .inr rfl

theorem Outcome.CutShort.bind {c : Eval α} {s : Store} (h : (c s).CutShort) (k : α → Eval β) :
    ((c >>= k) s).CutShort := by
  rw [Eval.bind_apply]
  generalize c s = o at h ⊢
  cases h with
  | unfinished => exact .unfinished
  | raised hx t => exact .raised hx t

theorem Outcome.CutOf.bind {c c' : Eval α} {k k' : α → Eval β} {s : Store}
    (h : (c s).CutOf (c' s)) (hk : ∀ a, (k a).CutOf (k' a)) :
    ((c >>= k) s).CutOf ((c' >>= k') s) := by
  rcases h with hcut | heq
  · exact .inl (hcut.bind k)
  · rw [Eval.bind_apply, Eval.bind_apply, ← heq]
    rcases c s with ⟨a, t⟩ | ⟨x, t⟩ | _
    · exact hk a t
    · exact .inr rfl
    · exact .inr rfl

theorem Eval.CutOf.bind {c c' : Eval α} {k k' : α → Eval β} (h : c.CutOf c')
    (hk : ∀ a, (k a).CutOf (k' a)) : (c >>= k).CutOf (c' >>= k') := fun s => (h s).bind hk

/-- Where an exhausted stack becomes a failure, the limits may differ. -/
theorem Outcome.CutOf.guarded {c c' : Eval α} {s : Store} (h : (c s).CutOf (c' s)) (l l' : Nat) :
    (Eval.guarded l c s).CutOf (Eval.guarded l' c' s) := by
  have hlimit (t : Store) : (.raised (.recursionLimit l) t : Outcome α).CutShort :=
    .raised (.inr ⟨l, rfl⟩) t
  simp only [Eval.guarded]
  generalize c s = o at h ⊢
  generalize c' s = o' at h ⊢
  rcases h with hcut | rfl
  · cases hcut with
    | unfinished => exact .inl .unfinished
    | @raised x hx t =>
      cases x with
      | overflow => exact .inl (hlimit t)
      | _ => exact .inl (.raised hx t)
  · rcases o with ⟨a, t⟩ | ⟨x, t⟩ | _
    · exact .inr rfl
    · cases x with
      | overflow => exact .inl (hlimit t)
      | _ => exact .inr rfl
    · exact .inr rfl

/-- What goes on after a failure sees a run that was cut short and passes it on. -/
theorem Outcome.CutOf.caught {c c' : Eval α} {k k' : Except Failure α → Eval β} {s : Store}
    (h : (c s).CutOf (c' s)) (hne : ∀ t, c s ≠ .raised .overflow t)
    (hx : ∀ x : Failure, x.isEvaluation = true → k (.error x) = Eval.raise x)
    (hk : ∀ r, (k r).CutOf (k' r)) : (Eval.caught c k s).CutOf (Eval.caught c' k' s) := by
  simp only [Eval.caught]
  generalize c s = o at h hne ⊢
  generalize c' s = o' at h ⊢
  rcases h with hcut | rfl
  · cases hcut with
    | unfinished => exact .inl .unfinished
    | @raised x hcut t =>
      have hover : x ≠ .overflow := by
        rintro rfl
        exact hne t rfl
      simp only [hx x (hcut.isEvaluation hover)]
      exact .inl (.raised hcut t)
  · rcases o with ⟨a, t⟩ | ⟨x, t⟩ | _
    · exact hk (.ok a) t
    · exact hk (.error x) t
    · exact .inr rfl

end Order

/-- Whatever the first evaluator does is cut short, or the second does the same. -/
structure Evaluator.CutOf (ev ev' : Evaluator) : Prop where
  step : ∀ e f pos, (ev.step e f pos).CutOf (ev'.step e f pos)
  primitive : ∀ p args, (ev.primitive p args).CutOf (ev'.primitive p args)

/-- The machine with another limit on nesting. -/
def Machine.withLimit (m : Machine) (d : Nat) : Machine := { m with limit := d }

namespace Evaluator.CutOf

variable {ev ev' : Evaluator} (h : ev.CutOf ev') (f : FrameRef)

include h

theorem value (e : Value) : (ev.value e f).CutOf (ev'.value e f) := by
  intro s
  have hstep := h.step e f .inner s
  simp only [Evaluator.value]
  generalize ev.step e f .inner s = o at hstep ⊢
  generalize ev'.step e f .inner s = o' at hstep ⊢
  rcases hstep with hcut | rfl
  · cases hcut with
    | unfinished => exact .inl .unfinished
    | raised hx t => exact .inl (.raised hx t)
  · exact .inr rfl

theorem values : ∀ es : List Value, (ev.values f es).CutOf (ev'.values f es)
  | [] => .refl _
  | e :: es => (h.value f e).bind fun _ => (values es).bind fun _ => .refl _

theorem each : ∀ es : List Value, (ev.each f es).CutOf (ev'.each f es)
  | [] => .refl _
  | e :: es => (h.value f e).bind fun _ => each es

theorem body (pos : Position) : ∀ es : List Value, (ev.body f pos es).CutOf (ev'.body f pos es)
  | [] => .refl _
  | [e] => h.step e f pos
  | e :: e' :: es => (h.value f e).bind fun _ => body pos (e' :: es)

theorem loop (test : Value) (es : List Value) :
    ∀ n : Nat, (ev.loop f test es n).CutOf (ev'.loop f test es n)
  | 0 => .refl _
  | n + 1 => by
    rw [ev.loop_succ, ev'.loop_succ]
    refine (h.value f test).bind fun c => ?_
    split
    · exact (h.each f es).bind fun _ => loop test es n
    · exact .refl _

omit f in
theorem finish : ∀ (n : Nat) (st : Step), (ev.finish n st).CutOf (ev'.finish n st)
  | n, .value v => by
    rw [ev.finish_value, ev'.finish_value]
    exact .refl _
  | 0, .call c g => .refl _
  | n + 1, .call c g => fun s => by
    rw [ev.finish_call, ev'.finish_call]
    exact (h.body g .tail _ s).bind fun st => finish n st

theorem complete (turns : Nat) (e : Value) :
    (ev.complete turns e f).CutOf (ev'.complete turns e f) :=
  (h.step e f .tail).bind fun st => h.finish turns st

section Machines

variable (m : Machine) (l l' : Nat)

omit f in
theorem call {P P' : Primitive → List Value → Eval Value} (fn : Value) {args : List Value}
    (hP : ∀ p, (P p args).CutOf (P' p args)) :
    ((m.withLimit l).call ev P fn args).CutOf ((m.withLimit l').call ev' P' fn args) := by
  cases fn with
  | closure c => exact (Eval.CutOf.refl _).bind fun g => h.finish m.turns (.call c g)
  | prim p => exact hP p
  | _ => exact .refl _

theorem evaluateWith (e : Value) :
    ((m.withLimit l).evaluateWith ev e f).CutOf ((m.withLimit l').evaluateWith ev' e f) :=
  fun s => (h.complete f m.turns e s).guarded l l'

omit f in
theorem applyWith (fn : Value) (args : List Value) :
    ((m.withLimit l).applyWith ev fn args).CutOf ((m.withLimit l').applyWith ev' fn args) :=
  fun s => (h.call m l l' fn (fun p => h.primitive p args) s).guarded l l'

omit f in
/-- A routine that catches nothing is cut short with what it asks for. -/
theorem perform {r : Routine Value} (hr : r.PassesOn) :
    ((m.withLimit l).perform ev r).CutOf ((m.withLimit l').perform ev' r) := by
  induction hr with
  | done v => exact .refl _
  | raise x => exact .refl _
  | never => exact .refl _
  | read _ ih => exact fun s => ih s s
  | @update g _ _ ih => exact fun s => ih (g s).1 (g s).2
  | @eval e g k hx _ ih =>
    refine fun s => (h.evaluateWith g m l l' e s).caught (fun _ => Eval.guarded_ne_overflow) ?_ ih
    intro x hev
    rw [hx x hev]
    rfl
  | @apply fn args k hx _ ih =>
    refine fun s => (h.applyWith m l l' fn args s).caught (fun _ => Eval.guarded_ne_overflow) ?_ ih
    intro x hev
    rw [hx x hev]
    rfl

variable {m} (hm : ∀ p args, (m.library p args).PassesOn)

include hm

omit f in
/-- A primitive's failure keeps the root of its cause. -/
theorem runPrimitive (p : Primitive) (args : List Value) :
    ((m.withLimit l).runPrimitive ev p args).CutOf ((m.withLimit l').runPrimitive ev' p args) := by
  intro s
  have hrun : ((m.withLimit l).perform ev ((m.withLimit l).library p args) s).CutOf
      ((m.withLimit l').perform ev' ((m.withLimit l').library p args) s) :=
    h.perform m l l' (hm p args) s
  simp only [Machine.runPrimitive]
  generalize (m.withLimit l).perform ev ((m.withLimit l).library p args) s = o at hrun ⊢
  generalize (m.withLimit l').perform ev' ((m.withLimit l').library p args) s = o' at hrun ⊢
  rcases hrun with hcut | rfl
  · cases hcut with
    | unfinished => exact .inl .unfinished
    | @raised x hx t =>
      by_cases hne : x = .overflow
      · subst hne
        exact .inl (.raised hx t)
      · obtain ⟨text, htext⟩ := hx.text hne
        have hcut : (.blocked (.showing x.text fun _ => .primitive p.name x)
            (t.record (.primitiveRaised p.name x)) : Outcome Value).CutShort := by
          rw [htext]
          exact .raised (hx.primitive p.name hne) _
        cases x with
        | overflow => exact absurd rfl hne
        | _ => exact .inl hcut
  · exact .inr rfl

omit f in
theorem applyStep (fn : Value) (args : List Value) (pos : Position) :
    ((m.withLimit l).applyStep ev fn args pos).CutOf
      ((m.withLimit l').applyStep ev' fn args pos) := by
  have hcall := (h.call m l l' fn fun p => h.runPrimitive l l' hm p args).bind
    fun v => .refl (pure (Step.value v))
  cases pos with
  | inner => cases fn <;> exact hcall
  | tail =>
    cases fn with
    | closure c => exact .refl _
    | _ => exact hcall

omit hm in
theorem formStep (pos : Position) (form : Form) :
    ((m.withLimit l).formStep ev f pos form).CutOf ((m.withLimit l').formStep ev' f pos form) := by
  cases form with
  | define n e => exact (h.value f e).bind fun _ => .refl _
  | assign n e => exact (h.value f e).bind fun _ => .refl _
  | cond c t e =>
    refine (h.value f c).bind fun v => ?_
    split
    · exact h.step t f pos
    · cases e with
      | none => exact .refl _
      | some e => exact h.step e f pos
  | loop c es => exact (h.loop f c es m.turns).bind fun _ => .refl _
  | sequence es => exact h.body f pos es
  | lambda c => exact .refl _
  | quote v => exact .refl _

theorem stepWith (e : Value) (pos : Position) :
    ((m.withLimit l).stepWith ev e f pos).CutOf ((m.withLimit l').stepWith ev' e f pos) := by
  intro s
  cases e with
  | pair r =>
    simp only [Machine.stepWith]
    rcases Keyword.ofHead? (s.pair r).head with _ | k <;> simp only []
    · rcases s.toList "Argument list" (s.pair r).tail with o | operands <;> simp only []
      · exact .inr rfl
      · refine (h.value f _ s).bind fun fn => ?_
        exact (h.values f operands).bind fun args => h.applyStep l l' hm fn args pos
    · simp only [Machine.withLimit]
      rcases Form.read s m.depth f k (s.pair r).tail with o | form
      · exact .inr rfl
      · exact h.formStep f l l' pos form s
  | _ => exact .inr rfl

omit f in
theorem above : ((m.withLimit l).above ev).CutOf ((m.withLimit l').above ev') where
  step e f pos := h.stepWith f l l' hm e pos
  primitive p args := h.runPrimitive l l' hm p args

end Machines

end Evaluator.CutOf

theorem Evaluator.exhausted_cutOf (ev : Evaluator) : exhausted.CutOf ev where
  step _ _ _ s := .inl (.raised (.inl rfl) s)
  primitive _ _ s := .inl (.raised (.inl rfl) s)

namespace Machine

variable {m : Machine}

/-- Fewer levels cut a run short or do nothing to it. -/
theorem evaluator_cutOf (hm : ∀ p args, (m.library p args).PassesOn) (l l' k : Nat) :
    ∀ d : Nat, ((m.withLimit l).evaluator .exhausted d).CutOf
      ((m.withLimit l').evaluator .exhausted (k + d))
  | 0 => Evaluator.exhausted_cutOf _
  | d + 1 => (evaluator_cutOf hm l l' k d).above l l' hm

theorem evaluate_cutOf (hm : ∀ p args, (m.library p args).PassesOn) {d d' : Nat} (hd : d ≤ d')
    (e : Value) (f : FrameRef) :
    ((m.withLimit d).evaluate e f).CutOf ((m.withLimit d').evaluate e f) := by
  obtain ⟨k, rfl⟩ := Nat.exists_eq_add_of_le' hd
  exact (evaluator_cutOf hm d (k + d) k d).evaluateWith f m d (k + d) e

/-- The limit on nesting only ever cuts a run off. Where no primitive occurs that catches failures,
a run that ends in a value, or in a failure that has no exceeded limit at its root, ends alike, in
the same store, under every higher limit. -/
theorem evaluate_of_lower_limit {G : Primitive → Prop} (hG : m.library.Forwards G) {e : Value}
    (f : FrameRef) {s : Store} (he : e.PrimsIn G) (hs : s.PrimsIn G) {d d' : Nat} (hd : d ≤ d') :
    (∀ v t, (m.withLimit d).evaluate e f s = .done v t →
        (m.withLimit d').evaluate e f s = .done v t)
      ∧ ∀ x t, (m.withLimit d).evaluate e f s = .raised x t →
        (∀ limit, x.root ≠ .recursionLimit limit) →
        (m.withLimit d').evaluate e f s = .raised x t := by
  classical
  let only : Machine := { m with library := m.library.only G }
  have honly (d : Nat) : (only.withLimit d).evaluate e f s = (m.withLimit d).evaluate e f s :=
    hG.evaluate_only (m := m.withLimit d) rfl f he hs
  have hcut : ((m.withLimit d).evaluate e f s).CutOf ((m.withLimit d').evaluate e f s) := by
    rw [← honly d, ← honly d']
    exact evaluate_cutOf (m := only) hG.only_passesOn hd e f s
  refine ⟨fun v t hv => ?_, fun x t hx hroot => ?_⟩
  · rw [hv] at hcut
    exact (hcut.resolve_left nofun).symm
  · have hnot : ¬ x.IsCut := by
      rintro (rfl | ⟨limit, hlimit⟩)
      · exact Eval.guarded_ne_overflow hx
      · exact hroot limit hlimit
    rw [hx] at hcut
    refine (hcut.resolve_left fun hshort => ?_).symm
    cases hshort with
    | raised hx _ => exact hnot hx

/-- The sum of two integers, and a sum that has no value. -/
def sums : Store where
  pairs := #[⟨.prim ⟨0, "+", .add⟩, .pair 1⟩, ⟨.int 1, .pair 2⟩, ⟨.int 2, .nil⟩,
    ⟨.prim ⟨0, "+", .add⟩, .pair 4⟩, ⟨.nil, .nil⟩]
  frames := #[.empty none]

theorem primsIn_sums : sums.PrimsIn fun p => p.op ≠ .attempt where
  pair := by
    rintro (_ | _ | _ | _ | _ | r)
    · exact ⟨nofun, trivial⟩
    · exact ⟨trivial, trivial⟩
    · exact ⟨trivial, trivial⟩
    · exact ⟨nofun, trivial⟩
    · exact ⟨trivial, trivial⟩
    · exact ⟨trivial, trivial⟩
  vec r v hv := nomatch hv
  closure r e he := nomatch he
  frame := by
    rintro (_ | f) b hb
    · exact nomatch hb
    · exact nomatch hb

theorem evaluate_of_lower_limit_sums :
    ((standard 0).withLimit 4).evaluate (.pair 0) 0 sums = .done (.int 3) sums
      ∧ ((standard 0).withLimit 1000).evaluate (.pair 0) 0 sums = .done (.int 3) sums
      ∧ (∃ x t, ((standard 0).withLimit 4).evaluate (.pair 3) 0 sums = .raised x t
        ∧ (∀ limit, x.root ≠ .recursionLimit limit)
        ∧ ((standard 0).withLimit 1000).evaluate (.pair 3) 0 sums = .raised x t) := by
  have hG := Library.standard_forwards defaultLimit 0
  have hsum : ((standard 0).withLimit 4).evaluate (.pair 0) 0 sums = .done (.int 3) sums := rfl
  have hnone : ((standard 0).withLimit 4).evaluate (.pair 3) 0 sums
      = .raised (.primitive "+" (.fault (.badArgument .add)))
        (sums.record (.primitiveRaised "+" (.fault (.badArgument .add)))) := rfl
  have hroot : ∀ limit, (Failure.primitive "+" (.fault (.badArgument .add))).root
      ≠ .recursionLimit limit := nofun
  have hd : 4 ≤ 1000 := by decide
  have hvalue := (evaluate_of_lower_limit (m := standard 0) hG (e := .pair 0) 0 trivial
    primsIn_sums hd).1
  have hfailure := (evaluate_of_lower_limit (m := standard 0) hG (e := .pair 3) 0 trivial
    primsIn_sums hd).2
  exact ⟨hsum, hvalue _ _ hsum, _, _, hnone, hroot, hfailure _ _ hnone hroot⟩

end Machine

end LispCore

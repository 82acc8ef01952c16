import LispCore.Proofs.Catching
import LispCore.Proofs.Complaints
import LispCore.Proofs.Courses
import LispCore.Proofs.Programs

/-!
# What the log tells of a run

A primitive that fails puts what it failed with in the log and raises its own failure around it, or,
if that cannot be put into words, whatever stands in the way of that. So a failure has left a record
for each layer that was put around it, the innermost first, and for each cause that got lost because
it had no text (`Failure.Leaves`). As long as no primitive catches failures, nothing else gets into
the log: an evaluation that ends with a value has left no record, and one that fails has left those
of its failure (`Outcome.Accounts`). This holds for each part of the evaluator if it holds one level
below (`Evaluator.Accounts.above`). Around that a run of a program records how it began and, if the
failure is one of the language, how it failed (`Interpreter.log_tells_run`).

If every cause in the log has a text and no primitive makes up the failure of another one, the
records are exactly those of the layers of the failure (`Failure.Leaves.eq_records`).
-/

namespace LispCore

/-- The records of a failure's layers, the innermost first. -/
def Failure.records : Failure → List LogRecord
  | .primitive name cause => cause.records ++ [.primitiveRaised name cause]
  | _ => []

/-- The records of a run of `n` expressions that failed. -/
def Failure.report (n : Nat) (x : Failure) : List LogRecord :=
  .running n :: (x.records ++ [.failed x])

/-- Where a record comes from and what it says. -/
def LogRecord.line (r : LogRecord) : String × Answer String := (r.source, r.text)

/-- The layers of a failure in words, the innermost first. -/
def Failure.layerLines : Failure → List (String × Answer String)
  | .primitive name cause =>
    cause.layerLines
      ++ [("sail.evaluation.apply", cause.repr.map ("Primitive " ++ name ++ " raised " ++ ·))]
  | _ => []

theorem Failure.records_lines (x : Failure) : x.records.map LogRecord.line = x.layerLines := by
  induction x with
  | primitive name cause ih =>
    rw [records, List.map_append, ih]
    rfl
  | _ => rfl

theorem Failure.report_lines (n : Nat) (x : Failure) :
    (x.report n).map LogRecord.line =
      ("sail.interpreter", .ok ("Running program of " ++ toString n ++ " expression(s)"))
        :: (x.layerLines ++ [("sail.interpreter", x.text.map ("Program failed: " ++ ·))]) := by
  rw [report, List.map_cons, List.map_append, x.records_lines]
  rfl

/-- What a failure can have left in the log, if primitives fail by themselves with failures in `own`
only. -/
inductive Failure.Leaves (own : Failure → Prop) : Failure → List LogRecord → Prop
  | own {x : Failure} (hx : own x) : Leaves own x []
  | refused {x : Failure} (hx : x.IsBare) : Leaves own x []
  | limited {records : List LogRecord} (limit : Nat) (h : Leaves own .overflow records) :
    Leaves own (.recursionLimit limit) records
  | layer {x : Failure} {records : List LogRecord} {text : String} (name : String)
    (h : Leaves own x records) (hx : x ≠ .overflow) (htext : x.text = .ok text) :
    Leaves own (.primitive name x) (records ++ [.primitiveRaised name x])
  | unsaid {x y : Failure} {records : List LogRecord} (name : String) (h : Leaves own x records)
    (hx : x ≠ .overflow) (htext : x.text = .error (.failure y)) :
    Leaves own y (records ++ [.primitiveRaised name x])

/-- All causes in the log can be put into words. -/
def LogRecord.Worded (records : List LogRecord) : Prop :=
  ∀ name x, .primitiveRaised name x ∈ records → ∃ text, x.text = .ok text

namespace Failure

theorem IsBare.records_eq {x : Failure} (hx : x.IsBare) : x.records = [] := by
  cases x with
  | primitive name cause => cases hx
  | _ => rfl

theorem isBare_of_root {x : Failure} (hx : x.root = x) : x.IsBare := by
  cases x with
  | primitive name cause => exact absurd hx (root_ne_primitive name cause _)
  | _ => rfl

/-- Where nothing gets lost, a failure has left the records of its layers. -/
theorem Leaves.eq_records {own : Failure → Prop} {x : Failure} {records : List LogRecord}
    (h : x.Leaves own records) (hown : ∀ y, own y → y.IsBare) (hworded : LogRecord.Worded records) :
    records = x.records := by
  induction h with
  | own hx => rw [(hown _ hx).records_eq]
  | refused hx => rw [hx.records_eq]
  | limited limit _ ih => exact ih hworded
  | layer name _ _ _ ih =>
    rw [Failure.records, ih fun n y hy => hworded n y (List.mem_append_left _ hy)]
  | @unsaid x y _ name _ _ htext _ =>
    obtain ⟨text, hx⟩ := hworded name x (List.mem_append_right _ List.mem_cons_self)
    cases htext.symm.trans hx

end Failure

section Accounts

variable {α β : Type} {own : Failure → Prop} {s t : Store}

/-- An outcome accounts for what the log has gained since the store `s`. -/
inductive Outcome.Accounts (own : Failure → Prop) (s : Store) : Outcome α → Prop
  | unfinished : Accounts own s .unfinished
  | done {a : α} {t : Store} (h : t.log = s.log) : Accounts own s (.done a t)
  | raised {x : Failure} {t : Store} {records : List LogRecord} (hx : x.Leaves own records)
    (h : t.log.toList = s.log.toList ++ records) : Accounts own s (.raised x t)

def Eval.Accounts (own : Failure → Prop) (c : Eval α) : Prop := ∀ s, (c s).Accounts own s

namespace Outcome.Accounts

theorem raise {x : Failure} (hx : x.Leaves own []) : (.raised x s : Outcome α).Accounts own s :=
  .raised hx (List.append_nil _).symm

theorem blocked {V : Value → Prop} {o : Obstacle} (ho : Blocks V o) :
    (.blocked o s : Outcome α).Accounts own s := by
  cases o with
  | failure x => exact raise (.refused (Failure.isBare_of_root (ho x rfl).root_eq))
  | endless => exact .unfinished

theorem of_log {o : Outcome α} (h : o.Accounts own t) (hlog : t.log = s.log) :
    o.Accounts own s := by
  cases h with
  | unfinished => exact .unfinished
  | done h => exact .done (h.trans hlog)
  | raised hx h => exact .raised hx (hlog ▸ h)

theorem bind {c : Eval α} {k : α → Eval β} (h : (c s).Accounts own s)
    (hk : ∀ a, (k a).Accounts own) : ((c >>= k) s).Accounts own s := by
  rw [Eval.bind_apply]
  generalize c s = o at h ⊢
  cases h with
  | unfinished => exact .unfinished
  | done h => exact (hk _ _).of_log h
  | raised hx h => exact .raised hx h

/-- What an exhausted stack has left is left by the failure that it becomes. -/
theorem guarded {c : Eval α} (h : (c s).Accounts own s) (limit : Nat) :
    (Eval.guarded limit c s).Accounts own s := by
  simp only [Eval.guarded]
  generalize c s = o at h ⊢
  cases h with
  | unfinished => exact .unfinished
  | done h => exact .done h
  | @raised x t records hx h =>
    cases x with
    | overflow => exact .raised (.limited limit hx) h
    | _ => exact .raised hx h

/-- What goes on after a value only accounts for a failure that it raises as it is. -/
theorem caught {c : Eval α} {k : Except Failure α → Eval β} (h : (c s).Accounts own s)
    (hx : ∀ x, k (.error x) = Eval.raise x) (hk : ∀ a, (k (.ok a)).Accounts own) :
    (Eval.caught c k s).Accounts own s := by
  simp only [Eval.caught]
  generalize c s = o at h ⊢
  cases h with
  | unfinished => exact .unfinished
  | done h => exact (hk _ _).of_log h
  | @raised x t records hleaves h =>
    simp only [hx x]
    exact .raised hleaves h

end Outcome.Accounts

namespace Eval.Accounts

theorem pure (a : α) : (Pure.pure a : Eval α).Accounts own := fun _ => .done rfl

theorem never : (Eval.never : Eval α).Accounts own := fun _ => .unfinished

theorem bind {c : Eval α} {k : α → Eval β} (h : c.Accounts own) (hk : ∀ a, (k a).Accounts own) :
    (c >>= k).Accounts own := fun s => (h s).bind hk

end Eval.Accounts

end Accounts

/-- Whatever the evaluator comes to accounts for the log. -/
structure Evaluator.Accounts (own : Failure → Prop) (ev : Evaluator) : Prop where
  step : ∀ e f pos, (ev.step e f pos).Accounts own
  primitive : ∀ p args, (ev.primitive p args).Accounts own

namespace Evaluator.Accounts

variable {own : Failure → Prop} {ev : Evaluator} (h : ev.Accounts own) (f : FrameRef)

include h

theorem value (e : Value) : (ev.value e f).Accounts own := by
  intro s
  have hstep := h.step e f .inner s
  simp only [Evaluator.value]
  generalize ev.step e f .inner s = o at hstep ⊢
  cases hstep with
  | unfinished => exact .unfinished
  | @done st t ht =>
    cases st with
    | value v => exact .done ht
    | call c g => exact .unfinished
  | raised hx ht => exact .raised hx ht

theorem values : ∀ es : List Value, (ev.values f es).Accounts own
  | [] => .pure _
  | e :: es => (h.value f e).bind fun _ => (values es).bind fun _ => .pure _

theorem each : ∀ es : List Value, (ev.each f es).Accounts own
  | [] => .pure _
  | e :: es => (h.value f e).bind fun _ => each es

theorem body (pos : Position) : ∀ es : List Value, (ev.body f pos es).Accounts own
  | [] => .pure _
  | [e] => h.step e f pos
  | e :: e' :: es => (h.value f e).bind fun _ => body pos (e' :: es)

theorem loop (test : Value) (es : List Value) : ∀ n : Nat, (ev.loop f test es n).Accounts own
  | 0 => .never
  | n + 1 => by
    rw [ev.loop_succ]
    refine (h.value f test).bind fun c => ?_
    split
    · exact (h.each f es).bind fun _ => loop test es n
    · exact .pure _

omit f in
theorem finish : ∀ (n : Nat) (st : Step), (ev.finish n st).Accounts own
  | n, .value v => by
    rw [ev.finish_value]
    exact .pure v
  | 0, .call c g => .never
  | n + 1, .call c g => fun s => by
    rw [ev.finish_call]
    exact (h.body g .tail _ s).bind fun st => finish n st

theorem complete (turns : Nat) (e : Value) : (ev.complete turns e f).Accounts own :=
  (h.step e f .tail).bind fun st => h.finish turns st

omit h f in
theorem enter (c : ClosureRef) (args : List Value) : (LispCore.enter c args).Accounts own := by
  intro s
  simp only [LispCore.enter]
  split
  · exact .done rfl
  · exact .raise (.refused rfl)

omit h f in
theorem notCallable {α : Type} (depth : Nat) (v : Value) :
    (LispCore.notCallable depth v : Eval α).Accounts own := fun _ =>
  .blocked (.showing (fun _ => Store.textIn_error) fun t => .notCallable (V := fun _ => True) v t
    trivial)

variable (m : Machine)

omit f in
theorem call {P : Primitive → List Value → Eval Value} (fn : Value) {args : List Value}
    (hP : ∀ p, (P p args).Accounts own) : (m.call ev P fn args).Accounts own := by
  cases fn with
  | closure c => exact (enter c args).bind fun g => h.finish m.turns (.call c g)
  | prim p => exact hP p
  | _ => exact notCallable m.depth _

theorem evaluateWith (e : Value) : (m.evaluateWith ev e f).Accounts own :=
  fun s => (h.complete f m.turns e s).guarded m.limit

omit f in
theorem applyWith (fn : Value) (args : List Value) : (m.applyWith ev fn args).Accounts own :=
  fun s => (h.call m fn (fun p => h.primitive p args) s).guarded m.limit

omit f in
/-- A routine that relays failures adds nothing of its own to the log. -/
theorem perform {r : Routine Value} (hr : r.Relays own) : (m.perform ev r).Accounts own := by
  induction hr with
  | done v => exact .pure v
  | raise hx => exact fun s => .raise (.own hx)
  | never => exact fun s => .unfinished
  | read _ ih => exact fun s => ih s s
  | @update g _ hlog _ ih => exact fun s => (ih (g s).1 (g s).2).of_log (hlog s)
  | @eval e g k hx _ ih =>
    refine fun s => (h.evaluateWith g m e s).caught (fun x => ?_) ih
    rw [hx x]
    rfl
  | @apply fn args k hx _ ih =>
    refine fun s => (h.applyWith m fn args s).caught (fun x => ?_) ih
    rw [hx x]
    rfl

variable {m} (hm : ∀ p args, (m.library p args).Relays own)

include hm

omit h f hm in
/-- A primitive's failure leaves one record more, whatever becomes of it. -/
theorem blamed {x : Failure} {records : List LogRecord} (name : String)
    (hx : x.Leaves own records) (hne : x ≠ .overflow) {s t : Store}
    (ht : t.log.toList = s.log.toList ++ records) :
    (.blocked (.showing x.text fun _ => .primitive name x)
      (t.record (.primitiveRaised name x)) : Outcome Value).Accounts own s := by
  have hlog : (t.record (.primitiveRaised name x)).log.toList
      = s.log.toList ++ (records ++ [.primitiveRaised name x]) := by
    rw [← List.append_assoc, ← ht]
    exact Array.toList_push ..
  rcases htext : x.text with (y | _) | text
  · exact .raised (.unsaid name hx hne htext) hlog
  · exact .unfinished
  · exact .raised (.layer name hx hne htext) hlog

omit f in
theorem runPrimitive (p : Primitive) (args : List Value) :
    (m.runPrimitive ev p args).Accounts own := by
  intro s
  have hrun := h.perform m (hm p args) s
  simp only [Machine.runPrimitive]
  generalize m.perform ev (m.library p args) s = o at hrun ⊢
  cases hrun with
  | unfinished => exact .unfinished
  | done ht => exact .done ht
  | @raised x t records hx ht =>
    by_cases hne : x = .overflow
    · subst hne
      exact .raised hx ht
    · have hblamed := blamed p.name hx hne ht
      cases x with
      | overflow => exact absurd rfl hne
      | _ => exact hblamed

omit f in
theorem applyStep (fn : Value) (args : List Value) (pos : Position) :
    (m.applyStep ev fn args pos).Accounts own := by
  have hcall := (h.call m fn fun p => h.runPrimitive hm p args).bind
    fun v => .pure (Step.value v)
  cases pos with
  | inner => cases fn <;> exact hcall
  | tail =>
    cases fn with
    | closure c => exact (enter c args).bind fun g => .pure _
    | _ => exact hcall

omit hm in
theorem formStep (pos : Position) (form : Form) : (m.formStep ev f pos form).Accounts own := by
  cases form with
  | define n e => exact (h.value f e).bind fun v s => .done rfl
  | assign n e =>
    refine (h.value f e).bind fun v s => ?_
    rw [Eval.bind_apply, Store.assign_sym]
    rcases s.find? f n with _ | g
    · exact .raise (.refused rfl)
    · exact .done rfl
  | cond c t e =>
    refine (h.value f c).bind fun v => ?_
    split
    · exact h.step t f pos
    · cases e with
      | none => exact .pure _
      | some e => exact h.step e f pos
  | loop c es => exact (h.loop f c es m.turns).bind fun _ => .pure _
  | sequence es => exact h.body f pos es
  | lambda c => exact fun s => .done rfl
  | quote v => exact .pure _

theorem stepWith (e : Value) (pos : Position) : (m.stepWith ev e f pos).Accounts own := by
  intro s
  have hagree : Agreement (fun _ => True) (fun _ => True) s s := Simulation.identity.agree rfl
  cases e with
  | sym n =>
    simp only [Machine.stepWith]
    rcases s.lookup? f n with _ | v
    · exact .raise (.refused rfl)
    · exact .done rfl
  | pair r =>
    simp only [Machine.stepWith]
    rcases Keyword.ofHead? (s.pair r).head with _ | k <;> simp only []
    · rcases hl : s.toList "Argument list" (s.pair r).tail with o | operands <;> simp only []
      · exact .blocked (Blocks.of_toList (V := fun _ => True) trivial hl)
      · refine (h.value f _ s).bind fun fn => ?_
        exact (h.values f operands).bind fun args => h.applyStep hm fn args pos
    · rcases hform : Form.read s m.depth f k (s.pair r).tail with o | form <;> simp only []
      · exact .blocked (hagree.read_blocks trivial hform)
      · exact h.formStep f pos form s
  | foreign o =>
    exact .blocked (.showing (fun _ => Failure.isUnshown_of_answer)
      fun _ => .malformed (V := fun _ => True) _ _ fun _ _ => trivial)
  | _ => exact .done rfl

omit f in
theorem above : (m.above ev).Accounts own where
  step e f pos := h.stepWith f hm e pos
  primitive p args := h.runPrimitive hm p args

end Evaluator.Accounts

namespace Machine

variable {m : Machine} {G : Primitive → Prop} {own : Failure → Prop} {s t : Store} {e : Value}

theorem evaluator_accounts (hm : ∀ p args, (m.library p args).Relays own) :
    ∀ d : Nat, (m.evaluator .exhausted d).Accounts own
  | 0 => ⟨fun _ _ _ _ => .raise (.refused rfl), fun _ _ _ => .raise (.refused rfl)⟩
  | d + 1 => (evaluator_accounts hm d).above hm

/-- Where only primitives occur that relay failures, what an evaluation comes to accounts for the
log, and no others occur afterwards. -/
theorem evaluate_accounts (hG : m.library.Relays G own) (f : FrameRef) (he : e.PrimsIn G)
    (hs : s.PrimsIn G) :
    (m.evaluate e f s).Accounts own s ∧ ∀ v t, m.evaluate e f s = .done v t → t.PrimsIn G := by
  classical
  let only : Machine := { m with library := m.library.only G }
  have honly : only.evaluate e f s = m.evaluate e f s := hG.forwards.evaluate_only rfl f he hs
  have hrelays (p : Primitive) (args : List Value) : (only.library p args).Relays own := by
    simp only [only, Library.only]
    split
    · rename_i hp
      exact hG.relays hp args
    · exact .never
  have hm : (Simulation.primsIn G).Machines m m :=
    ⟨Nat.le_refl _, rfl, rfl, fun {s s' p args} hs hp ha => by
      obtain ⟨rfl, hs⟩ := hs
      exact hG.keeps hs.primsIn hp ha⟩
  refine ⟨?_, fun v t hv => ?_⟩
  · rw [← honly]
    exact (evaluator_accounts hrelays only.limit).evaluateWith f only e s
  · have hends := hm.evaluate (e := e) (f := f) ⟨rfl, hs.agreement⟩ he trivial
    rw [hv] at hends
    cases hends with
    | done h => exact h.1.2.primsIn

theorem evaluate_raised {f : FrameRef} {x : Failure} (h : m.evaluate e f s = .raised x t) :
    x ≠ .overflow ∧ x.Worded := by
  have hm := Simulation.identity_machines m m.turns.le_refl
  have hends := hm.evaluate (s := s) (e := e) (f := f) rfl trivial trivial
  rw [show ({ m with turns := m.turns } : Machine).evaluate e f s = _ from h] at hends
  rcases hends with _ | _ | ⟨-, -, hx⟩
  exact ⟨fun hover => Eval.guarded_ne_overflow (hover ▸ h), hx⟩

/-- The complaint that a program comes to, in the frame that it runs in. -/
def blameAll (m : Machine) (f : FrameRef) : List Value → Store → Complaint.Trail
  | [], _ => none
  | e :: es, s => (m.evaluate e f s).complaint (m.blame e f s) fun _ t => m.blameAll f es t

theorem blameAll_of_raised {f : FrameRef} {x : Failure} (h : m.evaluate e f s = .raised x t)
    (es : List Value) : m.blameAll f (e :: es) s = m.blame e f s := by
  rw [blameAll, h]
  rfl

theorem runAll_blames (m : Machine) (f : FrameRef) :
    ∀ (es : List Value) (last : Value) (s : Store),
      (runAll m.evaluate f last es s).Blames m.depth (m.blameAll f es s)
  | [], last, s => Outcome.blames_done last
  | e :: es, last, s => by
    rw [runAll_cons]
    exact .bind (m.evaluate_blames e f s) fun v t => runAll_blames m f es v t

theorem runAll_raised (m : Machine) (f : FrameRef) {x : Failure} :
    ∀ (es : List Value) (last : Value) (s : Store), runAll m.evaluate f last es s = .raised x t →
      x ≠ .overflow ∧ x.Worded
  | [], last, s, h => by cases h
  | e :: es, last, s, h => by
    rw [runAll_cons, Eval.bind_apply] at h
    rcases ho : m.evaluate e f s with ⟨v, u⟩ | ⟨y, u⟩ | _ <;> rw [ho] at h
    · exact runAll_raised m f es v u h
    · cases h
      exact evaluate_raised ho
    · cases h

theorem runAll_accounts (hG : m.library.Relays G own) (f : FrameRef) :
    ∀ (es : List Value) (last : Value) {s : Store}, s.PrimsIn G → (∀ e ∈ es, e.PrimsIn G) →
      (runAll m.evaluate f last es s).Accounts own s
  | [], last, s, _, _ => .done rfl
  | e :: es, last, s, hs, hes => by
    obtain ⟨hfirst, hprims⟩ := evaluate_accounts hG f (hes e List.mem_cons_self) hs
    rw [runAll_cons, Eval.bind_apply]
    rcases ho : m.evaluate e f s with ⟨v, t⟩ | ⟨x, t⟩ | _ <;> rw [ho] at hfirst
    · cases hfirst with
      | done hlog =>
        have hrest := runAll_accounts hG f es v (hprims v t ho)
          fun e he => hes e (List.mem_cons_of_mem _ he)
        exact hrest.of_log hlog
    · exact hfirst
    · exact .unfinished

end Machine

namespace Interpreter

/-- What the log tells of a run: that it began, and then what a failure has left and the failure
itself, unless this is one of the host. What a failure has left are the records of its layers, if
the run has put no cause in the log that has no text and no primitive makes up the failure of
another. -/
structure Tells (own : Failure → Prop) (es : List Value) (s : Store) (o : Outcome Value) :
    Prop where
  done : ∀ {v : Value} {t : Store}, o = .done v t →
    t.log.toList = s.log.toList ++ [.running es.length]
  failed : ∀ {x : Failure} {t : Store}, o = .raised x t → x.isEvaluation = true →
    (∃ message, x.text = .ok message) ∧ ∃ records, x.Leaves own records
      ∧ t.log.toList = s.log.toList ++ .running es.length :: (records ++ [.failed x])
  reported : ∀ {x : Failure} {t : Store}, o = .raised x t → x.isEvaluation = true →
    (∀ y, own y → y.IsBare) → LogRecord.Worded (t.log.toList.drop s.log.size) →
    t.log.toList = s.log.toList ++ x.report es.length
  escaped : ∀ {x : Failure} {t : Store}, o = .raised x t → x.isEvaluation = false →
    ∃ records, x.Leaves own records
      ∧ t.log.toList = s.log.toList ++ .running es.length :: records

/-- The store that a run of `n` expressions begins in, with its record and its frame. -/
def begun (i : Interpreter) (n : Nat) (s : Store) : Store :=
  ((s.record (.running n)).addEmptyFrame (some i.globals)).2

/-- The complaint that a run comes to. -/
def blame (i : Interpreter) (es : List Value) (s : Store) : Complaint.Trail :=
  i.machine.blameAll s.frames.size es (i.begun es.length s)

variable {i : Interpreter} {G : Primitive → Prop} {own : Failure → Prop} {es : List Value}
  {s : Store}

theorem log_begun (i : Interpreter) (n : Nat) (s : Store) :
    (i.begun n s).log.toList = s.log.toList ++ [.running n] := Array.toList_push ..

theorem primsIn_begun (i : Interpreter) (n : Nat) (hs : s.PrimsIn G) :
    (i.begun n s).PrimsIn G := by
  have hrecord : (s.record (.running n)).PrimsIn G := (hs.agreement.record _).primsIn
  exact (hrecord.agreement.addFrame (fun _ => trivial) (fun _ => .inl trivial)
    (by simp [Frame.empty]) fun _ _ => trivial).primsIn

theorem submit_eq (hi : i.traced = false) : i.submit = i.machine.evaluate := by
  funext e f s
  simp only [submit, hi]
  rfl

/-- A run is its program in a fresh frame, between the records of its beginning and its failure. -/
theorem run_eq (hi : i.traced = false) (es : List Value) (s : Store) :
    i.run es s =
      match runAll i.machine.evaluate s.frames.size .nil es (i.begun es.length s) with
      | .raised x t => .raised x (if x.isEvaluation then t.record (.failed x) else t)
      | o => o := by
  rw [run, submit_eq hi]
  rfl

theorem run_closed (hi : i.traced = false) (es : List Value) (s : Store) :
    (i.run es s).Closed i.machine.depth (i.blame es s) := by
  have hblames := i.machine.runAll_blames s.frames.size es .nil (i.begun es.length s)
  rw [run_eq hi]
  rcases ho : runAll i.machine.evaluate s.frames.size .nil es (i.begun es.length s) with
    ⟨v, t⟩ | ⟨x, t⟩ | _ <;> rw [ho] at hblames
  · exact .of_blames nofun hblames
  · refine .of_blames (fun u hu => ?_) fun k u => ?_
    · cases hu
      exact (i.machine.runAll_raised _ es .nil _ ho).1 rfl
    · -- The failures of the host leave no record, so the store is the one that they are blamed in.
      rw [blame, ← hblames k u, Outcome.raised.injEq, Outcome.raised.injEq]
      refine and_congr_right fun hx => ?_
      rw [hx]
      rfl
  · exact .of_blames nofun hblames

theorem run_tells (hG : i.machine.library.Relays G own) (hi : i.traced = false)
    (hs : s.PrimsIn G) (hes : ∀ e ∈ es, e.PrimsIn G) : Tells own es s (i.run es s) := by
  have hlog := i.log_begun es.length s
  have haccounts := Machine.runAll_accounts hG s.frames.size es .nil
    (i.primsIn_begun es.length hs) hes
  rw [run_eq hi]
  rcases ho : runAll i.machine.evaluate s.frames.size .nil es (i.begun es.length s) with
    ⟨v, t⟩ | ⟨x, t⟩ | _ <;> rw [ho] at haccounts
  · cases haccounts with
    | done h =>
      refine ⟨fun ht => ?_, nofun, nofun, nofun⟩
      cases ht
      rw [h, hlog]
  · cases haccounts with
    | @raised _ _ records hx h =>
      have hrecords : t.log.toList = s.log.toList ++ .running es.length :: records := by
        rw [h, hlog, List.append_assoc]
        rfl
      have hfailed (hown : x.isEvaluation = true) :
          (if x.isEvaluation then t.record (.failed x) else t).log.toList
            = s.log.toList ++ .running es.length :: (records ++ [.failed x]) := by
        rw [if_pos hown, ← List.cons_append, ← List.append_assoc, ← hrecords]
        exact Array.toList_push ..
      refine ⟨nofun, fun ht hown => ?_, fun ht hown hbare hworded => ?_, fun ht hown => ?_⟩
      · cases ht
        exact ⟨(i.machine.runAll_raised _ es .nil _ ho).2 hown, records, hx, hfailed hown⟩
      · cases ht
        rw [hfailed hown] at hworded ⊢
        rw [← Array.length_toList, List.drop_left] at hworded
        rw [Failure.report, hx.eq_records hbare fun name y hy => hworded name y ?_]
        exact List.mem_cons_of_mem _ (List.mem_append_left _ hy)
      · cases ht
        refine ⟨records, hx, ?_⟩
        rw [if_neg (by simp [hown]), hrecords]
  · exact ⟨nofun, nofun, nofun, nofun⟩

/-- Where only primitives occur that relay failures and do not write to the log themselves, the log
of a run tells how it failed, from the innermost primitive on. It tells exactly the layers of the
failure, each with its cause, if all causes in it can be put into words and no primitive makes up
the failure of another one. Only a failure of the host, which escapes exactly if it stands in the
way of a text, goes without a last word. -/
theorem log_tells_run (hG : i.machine.library.Relays G own) (hi : i.traced = false)
    (es : List Value) (hs : s.PrimsIn G) (hes : ∀ e ∈ es, e.PrimsIn G) :
    Tells own es s (i.run es s)
      ∧ (i.run es s).Closed i.machine.depth (i.blame es s)
      ∧ (∀ (n : Nat) (x : Failure), (x.report n).map LogRecord.line =
          ("sail.interpreter", .ok ("Running program of " ++ toString n ++ " expression(s)"))
            :: (x.layerLines ++ [("sail.interpreter", x.text.map ("Program failed: " ++ ·))]))
      ∧ ∀ limit globals,
        (Library.standard limit globals).Relays (fun p => p.op ≠ .attempt) Failure.IsBare :=
  ⟨run_tells hG hi hs hes, run_closed hi es s, Failure.report_lines, Library.standard_relays⟩

/-- The code `(apply head '(5))` and the code `(n)`, which calls an integer. -/
def failing (n : Int) : Store where
  pairs := #[⟨.prim ⟨0, "apply", .apply⟩, .pair 1⟩, ⟨.prim ⟨1, "head", .head⟩, .pair 2⟩,
    ⟨.pair 3, .nil⟩, ⟨.symbol "quote", .pair 4⟩, ⟨.pair 5, .nil⟩, ⟨.int 5, .nil⟩, ⟨.int n, .nil⟩]
  frames := #[.empty none, .empty (some 0)]
  primitives := 2

theorem primsIn_failing (n : Int) : (failing n).PrimsIn fun p => p.op ≠ .attempt := by
  refine .of_contents ?_ ?_ ?_ ?_ <;> simp [failing, Value.PrimsIn, Value.symbol, Frame.empty]

/-- An integer that cannot be shown is what a call of it is blamed on. -/
theorem blame_failing (i : Interpreter) {n : Int}
    (hm : i.machine = ⟨.standard 9 0, 9, 9, 9⟩) (hn : Nat.pow 10 Decimal.digitLimit ≤ n.natAbs) :
    i.blame [.pair 6] (failing n) = some (.notCallable (.int n), i.begun 1 (failing n)) := by
  have hstep : i.machine.top.step (.pair 6) 2 .tail (i.begun 1 (failing n))
      = .raised (.fault .integerTooLong) (i.begun 1 (failing n)) := by
    rw [hm]
    change (notCallable 9 (.int n) >>= fun v => pure (Step.value v)) (i.begun 1 (failing n)) = _
    rw [Eval.bind_apply, notCallable, Store.text_unwritable hn]
    rfl
  have hblame : i.machine.blame (.pair 6) 2 (i.begun 1 (failing n))
      = some (.notCallable (.int n), i.begun 1 (failing n)) := by
    rw [Machine.blame, hstep, hm]
    rfl
  have hescape : i.machine.evaluate (.pair 6) 2 (i.begun 1 (failing n))
      = .raised (.fault .integerTooLong) (i.begun 1 (failing n)) :=
    (i.machine.evaluate_blames _ _ _ _ _).2 ⟨_, hblame, Store.text_unwritable hn⟩
  exact (Machine.blameAll_of_raised hescape []).trans hblame

/-- What `head` fails with, and `apply` around it. -/
def nested : Failure := .primitive "apply" (.primitive "head" (.fault (.badArgument .head)))

theorem worded_nested : LogRecord.Worded (nested.report 1) := by
  intro name x hx
  simp only [nested, Failure.report, Failure.records, List.nil_append, List.mem_cons,
    List.mem_append, List.not_mem_nil, or_false, reduceCtorEq, false_or,
    LogRecord.primitiveRaised.injEq] at hx
  rcases hx with ⟨-, rfl⟩ | ⟨-, rfl⟩ <;> exact ⟨_, rfl⟩

/-- What `head` has to say comes before what `apply` makes of it. Of an integer that cannot be shown
the log says nothing. -/
theorem log_tells_run_failing :
    ∃ t u, (Interpreter.mk ⟨.standard 9 0, 9, 9, 9⟩ 0 1 false).run [.pair 0] (failing 5)
          = .raised nested t
      ∧ t.log.toList = [.running 1, .primitiveRaised "head" (.fault (.badArgument .head)),
          .primitiveRaised "apply" (.primitive "head" (.fault (.badArgument .head))),
          .failed nested]
      ∧ (Interpreter.mk ⟨.standard 9 0, 9, 9, 9⟩ 0 1 false).run [.pair 6]
          (failing (Nat.pow 10 Decimal.digitLimit)) = .raised (.fault .integerTooLong) u
      ∧ u.log.toList = [.running 1] := by
  have htells (r : PairRef) (n : Int) :=
    log_tells_run (i := ⟨⟨.standard 9 0, 9, 9, 9⟩, 0, 1, false⟩) (Library.standard_relays 9 0) rfl
      [.pair r] (primsIn_failing n) (List.forall_mem_singleton.2 trivial)
  obtain ⟨t, ht, hworded⟩ : ∃ t, (Interpreter.mk ⟨.standard 9 0, 9, 9, 9⟩ 0 1 false).run [.pair 0]
      (failing 5) = .raised nested t ∧ LogRecord.Worded (t.log.toList.drop 0) :=
    ⟨_, rfl, worded_nested⟩
  have hu := ((htells 6 _).2.1.escape _ _).2 ⟨_, blame_failing _ rfl Decimal.le_natAbs_pow,
    Store.text_unwritable Decimal.le_natAbs_pow⟩
  have hlog := (htells 0 5).1.reported ht rfl (fun _ hy => hy) hworded
  exact ⟨t, _, ht, hlog, hu, log_begun _ 1 _⟩

end Interpreter

end LispCore

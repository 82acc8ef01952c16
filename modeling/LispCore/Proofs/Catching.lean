import LispCore.Interpreter
import LispCore.Proofs.Bounds
import LispCore.Proofs.Changes
import LispCore.Proofs.Failures
import LispCore.Proofs.Standard
import LispCore.Proofs.Walkers

/-!
# Primitives that catch no failure

A routine catches nothing if every failure of the language that comes back to it is its own failure
(`Routine.PassesOn`). It relays failures if this holds of every failure, be it one of the host, and
it does not write to the log (`Routine.Relays`). Where only certain primitives occur in a store, and
these bring in no others, no others ever run: a machine goes the same way if it has no others to
begin with (`Library.Forwards.evaluate_only`). The standard library has one operation that catches
failures, and the rest of it relays them (`Library.standard_relays`).
-/

namespace LispCore

/-! ## Routines -/

/-- A failure of the language that comes back to the routine is its own failure. -/
inductive Routine.PassesOn {α : Type} : Routine α → Prop
  | done (a : α) : PassesOn (.done a)
  | raise (x : Failure) : PassesOn (.raise x)
  | never : PassesOn .never
  | read {k : Store → Routine α} (h : ∀ s, PassesOn (k s)) : PassesOn (.read k)
  | update {g : Store → Value × Store} {k : Value → Routine α} (h : ∀ v, PassesOn (k v)) :
    PassesOn (.update g k)
  | eval {e : Value} {f : FrameRef} {k : Except Failure Value → Routine α}
    (hx : ∀ x : Failure, x.isEvaluation = true → k (.error x) = .raise x)
    (h : ∀ r, PassesOn (k r)) : PassesOn (.eval e f k)
  | apply {fn : Value} {args : List Value} {k : Except Failure Value → Routine α}
    (hx : ∀ x : Failure, x.isEvaluation = true → k (.error x) = .raise x)
    (h : ∀ r, PassesOn (k r)) : PassesOn (.apply fn args k)

/-- A failure that comes back to the routine is its own failure. What it fails with by itself is in
`own`, and it writes nothing to the log. -/
inductive Routine.Relays {α : Type} (own : Failure → Prop) : Routine α → Prop
  | done (a : α) : Relays own (.done a)
  | raise {x : Failure} (hx : own x) : Relays own (.raise x)
  | never : Relays own .never
  | read {k : Store → Routine α} (h : ∀ s, Relays own (k s)) : Relays own (.read k)
  | update {g : Store → Value × Store} {k : Value → Routine α} (hlog : ∀ s, (g s).2.log = s.log)
    (h : ∀ v, Relays own (k v)) : Relays own (.update g k)
  | eval {e : Value} {f : FrameRef} {k : Except Failure Value → Routine α}
    (hx : ∀ x, k (.error x) = .raise x) (h : ∀ v, Relays own (k (.ok v))) :
    Relays own (.eval e f k)
  | apply {fn : Value} {args : List Value} {k : Except Failure Value → Routine α}
    (hx : ∀ x, k (.error x) = .raise x) (h : ∀ v, Relays own (k (.ok v))) :
    Relays own (.apply fn args k)

/-- The failure is no primitive's. -/
def Failure.IsBare (x : Failure) : Prop := x.layers = []

theorem Failure.IsUnshown.isBare {x : Failure} (h : x.IsUnshown) : x.IsBare := by
  rcases h with rfl | ⟨f, rfl⟩ <;> rfl

theorem Store.isBare_of_toList {s : Store} {what : String} {v : Value} {x : Failure}
    (h : s.toList what v = .error (.failure x)) : x.IsBare := by
  rw [(Store.tails_of_toList h).1]
  rfl

namespace Routine.Relays

variable {α β : Type} {own : Failure → Prop} {op : Operation} {args : List Value}

theorem passesOn {r : Routine α} (h : r.Relays own) : r.PassesOn := by
  induction h with
  | done a => exact .done a
  | raise _ => exact .raise _
  | never => exact .never
  | read _ ih => exact .read ih
  | update _ _ ih => exact .update ih
  | eval hx _ ih =>
    refine .eval (fun x _ => hx x) fun r => ?_
    cases r with
    | ok v => exact ih v
    | error x =>
      rw [hx x]
      exact .raise x
  | apply hx _ ih =>
    refine .apply (fun x _ => hx x) fun r => ?_
    cases r with
    | ok v => exact ih v
    | error x =>
      rw [hx x]
      exact .raise x

theorem bind {r : Routine α} {k : α → Routine β} (hr : r.Relays own)
    (hk : ∀ a, (k a).Relays own) : (r >>= k).Relays own := by
  induction hr with
  | done a => exact hk a
  | raise hx => exact .raise hx
  | never => exact .never
  | read _ ih => exact .read ih
  | update hlog _ ih => exact .update hlog ih
  | eval hx _ ih => exact .eval (fun x => congrArg (Routine.bind · k) (hx x)) ih
  | apply hx _ ih => exact .apply (fun x => congrArg (Routine.bind · k) (hx x)) ih

theorem ofExcept {r : Except Failure α} (hr : ∀ x, r = .error x → own x) :
    (Routine.ofExcept r).Relays own := by
  cases r with
  | ok a => exact .done a
  | error x => exact .raise (hr x rfl)

theorem ofAnswer {r : Answer α} (hr : ∀ x, r = .error (.failure x) → own x) :
    (Routine.ofAnswer r).Relays own := by
  match r with
  | .ok a => exact .done a
  | .error (.failure x) => exact .raise (hr x rfl)
  | .error .endless => exact .never

theorem ask (f : Store → α) : (Routine.ask f).Relays own := .read fun s => .done (f s)

theorem query {f : Store → Answer α} (hf : ∀ s x, f s = .error (.failure x) → own x) :
    (Routine.query f).Relays own := .read fun s => .ofAnswer (hf s)

theorem change {g : Store → Value × Store} (hlog : ∀ s, (g s).2.log = s.log) :
    (Routine.change g).Relays own := .update hlog .done

theorem unary {k : Value → Routine Value} (hk : ∀ a, (k a).Relays Failure.IsBare) :
    (Library.unary op args k).Relays Failure.IsBare := by
  simp only [Library.unary]
  split
  · exact hk _
  · exact .raise rfl

theorem binary {k : Value → Value → Routine Value} (hk : ∀ a b, (k a b).Relays Failure.IsBare) :
    (Library.binary op args k).Relays Failure.IsBare := by
  simp only [Library.binary]
  split
  · exact hk _ _
  · exact .raise rfl

theorem numeric {k : List Number → Routine Value} (hk : ∀ ns, (k ns).Relays Failure.IsBare) :
    (Library.numeric op args k).Relays Failure.IsBare := by
  simp only [Library.numeric]
  split
  · exact hk _
  · exact .raise rfl

theorem combine {f : Number → Number → Except Failure Number}
    (hf : ∀ a b x, f a b = .error x → x = .fault .integerTooLarge) (n : Number)
    (ns : List Number) : (Library.combine f n ns).Relays Failure.IsBare := by
  refine .ofExcept fun x hx => ?_
  rcases hr : ns.foldlM f n with y | r <;> rw [hr] at hx <;> cases hx
  rw [Simulation.foldlM_error (fun a b => hf a b x) ns n hr]
  rfl

theorem newList (vs : List Value) : (Library.newList vs).Relays Failure.IsBare :=
  .change fun s => s.log_addList .nil vs

theorem mapEach (fn : Value) :
    ∀ vs sofar : List Value, (Library.mapEach fn sofar vs).Relays Failure.IsBare
  | [], sofar => .newList sofar.reverse
  | _ :: vs, sofar => .apply (fun _ => rfl) fun w => mapEach fn vs (w :: sofar)

/-- Of the standard operations, all but `try` relay failures. -/
theorem operate (limit : Nat) (globals : FrameRef) (hop : op ≠ .attempt) :
    (Library.operate limit globals op args).Relays Failure.IsBare := by
  cases op <;> simp only [Library.operate]
  case add => exact .numeric fun ns => .combine (fun _ _ _ => Simulation.lift_error) _ _
  case sub =>
    refine .numeric fun ns => ?_
    cases ns with
    | nil => exact .raise rfl
    | cons n ns => exact .combine (fun _ _ _ => Simulation.lift_error) _ _
  case mul => exact .numeric fun ns => .combine (fun _ _ _ => Simulation.lift_error) _ _
  case less =>
    refine .binary fun a b => ?_
    split
    · exact .done _
    · exact .raise rfl
  case equal =>
    refine .binary fun a b => .bind (.query fun s x hx => ?_) fun r => .done _
    rw [Simulation.equalWithin_error hx]
    rfl
  case list => exact .newList args
  case cons => exact .binary fun a b => .change fun _ => rfl
  case head =>
    refine .unary fun a => ?_
    split
    · exact .ask _
    · exact .raise rfl
  case tail =>
    refine .unary fun a => ?_
    split
    · exact .ask _
    · exact .raise rfl
  case setHead =>
    refine .binary fun a b => ?_
    split
    · exact .change fun _ => rfl
    · exact .raise rfl
  case setTail =>
    refine .binary fun a b => ?_
    split
    · exact .change fun _ => rfl
    · exact .raise rfl
  case vector => exact .change fun _ => rfl
  case push =>
    refine .binary fun a b => ?_
    split
    · exact .change fun _ => rfl
    · exact .raise rfl
  case nth =>
    refine .binary fun a b => ?_
    split
    · refine .bind (.ask _) fun item => ?_
      cases item with
      | some v => exact .done v
      | none => exact .raise rfl
    · exact .raise rfl
  case count =>
    refine .unary fun a => ?_
    split
    · exact .done _
    · refine .bind (.query fun s x hx => ?_) fun n => .done _
      rw [Simulation.lengthWithin_error _ _ _ hx]
      rfl
    · exact .ask _
    · exact .raise rfl
  case note =>
    refine .unary fun a => .bind (.query fun s x hx => ?_) fun d => .change fun _ => rfl
    exact (Store.viewWithin_error hx).isBare
  case fail =>
    split
    · exact .raise rfl
    · refine .bind (.query fun s x hx => ?_) fun text => .raise rfl
      exact (Store.textIn_error hx).isBare
  case reject => exact .unary fun a => .raise rfl
  case overflow => exact .raise rfl
  case unit => exact .done _
  case nothing => exact .done _
  case truth => exact .unary fun a => .ask _
  case print =>
    refine .unary fun a => .bind (.query fun s x hx => ?_) fun text => .done _
    exact (Store.textIn_error hx).isBare
  case eval => exact .unary fun e => .eval (fun _ => rfl) .done
  case apply =>
    refine .binary fun fn list => ?_
    refine .bind (.query fun s x hx => Store.isBare_of_toList hx) fun vs => ?_
    exact .apply (fun _ => rfl) .done
  case map =>
    refine .binary fun fn list => ?_
    refine .bind (.query fun s x hx => Store.isBare_of_toList hx) fun vs => ?_
    exact .mapEach fn vs []
  case attempt => exact absurd rfl hop

end Routine.Relays

/-! ## The primitives that occur -/

/-- If the value is a primitive, it is one of `G`. -/
def Value.PrimsIn (G : Primitive → Prop) : Value → Prop
  | .prim p => G p
  | _ => True

/-- All primitives in the store are in `G`. -/
structure Store.PrimsIn (s : Store) (G : Primitive → Prop) : Prop where
  pair : ∀ r : PairRef, (s.pair r).head.PrimsIn G ∧ (s.pair r).tail.PrimsIn G
  vec : ∀ r : VecRef, ∀ v ∈ (s.vec r).toList, v.PrimsIn G
  closure : ∀ r : ClosureRef, ∀ e ∈ (s.closure r).body, e.PrimsIn G
  frame : ∀ f : FrameRef, ∀ b ∈ (s.frame f).vars, b.2.PrimsIn G

variable {G : Primitive → Prop}

theorem Store.PrimsIn.agreement {s : Store} (h : s.PrimsIn G) :
    Agreement (Value.PrimsIn G) (fun _ => True) s s where
  pairs_size := rfl
  vecs_size := rfl
  closures_size := rfl
  frames_size := rfl
  plain {v} hv := by cases v <;> trivial
  pair _ := ⟨rfl, h.pair _⟩
  vec _ := ⟨rfl, h.vec _⟩
  closure _ := ⟨rfl, h.closure _⟩
  frame _ := ⟨rfl, h.frame _, fun _ _ => trivial⟩

theorem Agreement.primsIn {s : Store}
    (h : Agreement (Value.PrimsIn G) (fun _ => True) s s) : s.PrimsIn G where
  pair r := (h.pair (r := r) trivial).2
  vec r := (h.vec (r := r) trivial).2
  closure r := (h.closure (r := r) trivial).2
  frame f := (h.frame (f := f) trivial).2.1

/-- Runs of which all primitives are in `G`. -/
def Simulation.primsIn (G : Primitive → Prop) : Simulation where
  stores s s' := s = s' ∧ Agreement (Value.PrimsIn G) (fun _ => True) s s
  le _ _ := True
  value _ v := v.PrimsIn G
  frame _ _ := True
  scope _ _ := True
  failure _ _ := True
  cause _ _ := True
  le_refl _ := trivial
  le_trans _ _ := trivial
  value_mono _ hv := hv
  frame_mono _ _ := trivial
  scope_mono _ _ := trivial
  cause_mono _ _ := trivial
  frame_of_scope _ := trivial
  agree := by
    rintro s _ ⟨rfl, h⟩
    exact h
  define := by
    rintro s _ f v n ⟨rfl, h⟩ - hv
    exact ⟨⟨rfl, h.bind hv f n⟩, trivial⟩
  assign := by
    rintro s _ f v n ⟨rfl, h⟩ - - hv
    exact ⟨⟨rfl, h.bind hv f n⟩, trivial⟩
  lambda := by
    rintro s _ c ⟨rfl, h⟩ - - hb
    exact ⟨⟨rfl, h.addClosure (fun hv => hv) .inl hb⟩, trivial, trivial⟩
  enter := by
    rintro s _ c args ⟨rfl, h⟩ - ha -
    exact ⟨⟨rfl, h.addFrame (fun _ => trivial) (fun _ => .inl trivial)
      (fun b hb => ha b.2 (List.of_mem_zip hb).2) fun _ _ => trivial⟩, trivial, trivial⟩
  record := by
    rintro s _ x name ⟨rfl, h⟩ -
    exact ⟨⟨rfl, h.record _⟩, trivial⟩
  refusal _ _ := trivial
  recursionLimit _ _ := trivial
  primitive _ _ _ _ := trivial
  cause_of_failure _ := trivial

theorem Simulation.primsIn_data (globals : FrameRef) : (Simulation.primsIn G).Data globals where
  addPair := by
    rintro s _ head tail ⟨rfl, h⟩ hh ht
    exact ⟨⟨rfl, h.addPair (fun hv => hv) .inl hh ht⟩, trivial, trivial⟩
  addVec := by
    rintro s _ items ⟨rfl, h⟩ hi
    exact ⟨⟨rfl, h.addVec (fun hv => hv) .inl hi⟩, trivial, trivial⟩
  setHead := by
    rintro s _ p r v ⟨rfl, h⟩ - - - hv
    exact ⟨⟨rfl, h.setHead hv r⟩, trivial⟩
  setTail := by
    rintro s _ p r v ⟨rfl, h⟩ - - - hv
    exact ⟨⟨rfl, h.setTail hv r⟩, trivial⟩
  push := by
    rintro s _ p r v ⟨rfl, h⟩ - - - hv
    exact ⟨⟨rfl, h.push hv r⟩, trivial⟩
  note := by
    rintro s _ d ⟨rfl, h⟩
    exact ⟨⟨rfl, h.note d⟩, trivial⟩
  globals _ _ _ := trivial
  fault _ _ := trivial

/-- The primitives of `G` catch nothing, and where no others are around, they bring in none. -/
structure Library.Forwards (library : Library) (G : Primitive → Prop) : Prop where
  passesOn : ∀ {p : Primitive}, G p → ∀ args, (library p args).PassesOn
  keeps : ∀ {s : Store} {p : Primitive} {args : List Value}, s.PrimsIn G → G p →
    (∀ a ∈ args, a.PrimsIn G) →
    (Simulation.primsIn G).Routines s s (library p args) (library p args)

/-- The primitives of `G` relay failures, and where no others are around, they bring in none. -/
structure Library.Relays (library : Library) (G : Primitive → Prop) (own : Failure → Prop) :
    Prop where
  relays : ∀ {p : Primitive}, G p → ∀ args, (library p args).Relays own
  keeps : ∀ {s : Store} {p : Primitive} {args : List Value}, s.PrimsIn G → G p →
    (∀ a ∈ args, a.PrimsIn G) →
    (Simulation.primsIn G).Routines s s (library p args) (library p args)

theorem Library.Relays.forwards {library : Library} {own : Failure → Prop}
    (h : library.Relays G own) : library.Forwards G where
  passesOn hp args := (h.relays hp args).passesOn
  keeps := h.keeps

theorem Library.standard_relays (limit : Nat) (globals : FrameRef) :
    (Library.standard limit globals).Relays (fun p => p.op ≠ .attempt) Failure.IsBare where
  relays hp _ := .operate limit globals hp
  keeps hs hp ha := (Simulation.primsIn_data globals).operate limit ⟨rfl, hs.agreement⟩ hp ha

theorem Library.standard_forwards (limit : Nat) (globals : FrameRef) :
    (Library.standard limit globals).Forwards fun p => p.op ≠ .attempt :=
  (Library.standard_relays limit globals).forwards

/-- The library with the primitives of `G` only. -/
def Library.only (library : Library) (G : Primitive → Prop) [DecidablePred G] : Library :=
  fun p args => if G p then library p args else .never

namespace Library.Forwards

variable {library : Library} [DecidablePred G] (h : library.Forwards G)

include h

theorem only_passesOn (p : Primitive) (args : List Value) : (library.only G p args).PassesOn := by
  simp only [only]
  split
  · rename_i hp
    exact h.passesOn hp args
  · exact .never

/-- Where only primitives of `G` occur, the others need not be there. -/
theorem evaluate_only {m : Machine} (hm : m.library = library) {e : Value} (f : FrameRef)
    {s : Store} (he : e.PrimsIn G) (hs : s.PrimsIn G) :
    { m with library := library.only G }.evaluate e f s = m.evaluate e f s := by
  have hroutines {s s' : Store} {p : Primitive} {args : List Value}
      (hs : (Simulation.primsIn G).stores s s') (hp : G p) (ha : ∀ a ∈ args, a.PrimsIn G) :
      (Simulation.primsIn G).Routines s s' (library p args) (library p args) := by
    obtain ⟨rfl, hs⟩ := hs
    exact h.keeps hs.primsIn hp ha
  have honly {p : Primitive} (hp : G p) : library.only G p = library p := by
    funext args
    exact if_pos hp
  have hto : (Simulation.primsIn G).Machines { m with library := library.only G } m :=
    ⟨Nat.le_refl _, rfl, rfl, fun hs hp ha => by
      simp only [hm, honly hp]
      exact hroutines hs hp ha⟩
  have hfrom : (Simulation.primsIn G).Machines m { m with library := library.only G } :=
    ⟨Nat.le_refl _, rfl, rfl, fun hs hp ha => by
      simp only [hm, honly hp]
      exact hroutines hs hp ha⟩
  refine Outcome.le_antisymm ?_ ?_
  · exact (hto.evaluate ⟨rfl, hs.agreement⟩ he trivial).le And.left
  · exact (hfrom.evaluate ⟨rfl, hs.agreement⟩ he trivial).le And.left

end Library.Forwards

end LispCore

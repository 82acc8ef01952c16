import LispCore.Proofs.Complaints
import LispCore.Proofs.Host
import LispCore.Proofs.Names

/-!
# A table is registered as a whole or not at all

An entry of a table is good if its key spells a name and its target is a primitive or an operation.
The entries are checked in order before any name is defined, and then no definition fails. The first
bad one decides: its key is complained about, or else its target, with a complaint that shows the
target, unless the target has no text (`Store.RefusesEntry`); the store is left as it was. If there
is none, every name is bound as the last entry with that name says, and nothing else changes
(`Store.Registered`). Both are one statement about registering (`Store.register_all_or_nothing`).
-/

namespace LispCore

namespace Registry

/-- The name that a key spells, be it a text or a symbol. -/
def Key.name? : Key → Option Symbol
  | .text t => some ⟨t⟩
  | .symbol n => some n
  | .other _ => none

/-- What a name is bound to for the sake of a target: a primitive is taken as it is, an operation
becomes a new primitive of that name, numbered `next`. -/
inductive Target.Gives (next : Nat) (n : Symbol) : Target → Primitive → Prop
  | operation (op : Operation) : Gives next n (.operation op) ⟨next, n.name, op⟩
  | primitive (p : Primitive) : Gives next n (.value (.prim p)) p

/-- The target is a primitive or an operation. -/
def Target.IsNative (target : Target) : Prop :=
  (∃ op, target = .operation op) ∨ ∃ p, target = .value (.prim p)

def IsGood (e : Key × Target) : Prop := (∃ n, e.1.name? = some n) ∧ e.2.IsNative

/-- The table has an entry with this name. -/
def Table.Names (table : Table) (n : Symbol) : Prop := ∃ e ∈ table, e.1.name? = some n

end Registry

namespace Store

open Registry

/-- What stands in the way of an entry that is not good, for the sake of its key or else of its
target. -/
inductive RefusesEntry (s : Store) (depth : Nat) : Key × Target → Obstacle → Prop
  | key (type : String) (target : Target) :
    RefusesEntry s depth (.other type, target) (.failure (.fault (.symbolName type)))
  | target {key : Key} {n : Symbol} {v : Value} {shown : String} (name : key.name? = some n)
    (text : s.describe depth v = .ok shown) :
    RefusesEntry s depth (key, .value v) (.failure (.fault (.target n.name shown)))
  | unshown {key : Key} {n : Symbol} {v : Value} {o : Obstacle} (name : key.name? = some n)
    (text : s.describe depth v = .error o) : RefusesEntry s depth (key, .value v) o

/-- The store after a table was registered in a frame. -/
structure Registered (s : Store) (f : FrameRef) (table : Table) (t : Store) : Prop where
  bound : ∀ {before rest : Table} {key : Key} {target : Target} {n : Symbol},
    table = before ++ (key, target) :: rest → key.name? = some n → ¬rest.Names n →
    ∃ p, target.Gives (after s.primitives before) n p ∧ (t.frame f).get? n = some (.prim p)
  unbound : ∀ {n : Symbol}, ¬table.Names n → (t.frame f).get? n = (s.frame f).get? n
  outer : (t.frame f).outer = (s.frame f).outer
  frame : ∀ {g : FrameRef}, g ≠ f → t.frame g = s.frame g
  others : t = { s with frames := t.frames, primitives := after s.primitives table }

/-- The first bad entry stands in the way of registering, which leaves the whole store as it was;
without one, the table is registered. -/
structure AllOrNothing (s : Store) (depth : Nat) (f : FrameRef) (table : Table)
    (result : Outcome Unit) : Prop where
  refused : ∀ {before rest : Table} {e : Key × Target}, table = before ++ e :: rest →
    (∀ e' ∈ before, IsGood e') → ¬IsGood e →
    ∃ o, result = .blocked o s ∧ s.RefusesEntry depth e o
  registered : (∀ e ∈ table, IsGood e) → ∃ t, result = .done () t ∧ s.Registered f table t

end Store

/-! ## Checking the entries -/

namespace Registry

variable (s : Store) (depth : Nat) {key : Key} {target : Target} {n : Symbol}

theorem Key.toSymbol_eq (h : key.name? = some n) : key.toSymbol = .ok n := by
  cases key <;> cases h <;> rfl

theorem Target.IsNative.gives (h : target.IsNative) (next : Nat) (n : Symbol) :
    ∃ p, target.Gives next n p ∧ target.primitive s depth next n = .ok p := by
  rcases h with ⟨op, rfl⟩ | ⟨p, rfl⟩
  · exact ⟨_, .operation op, rfl⟩
  · exact ⟨_, .primitive p, rfl⟩

/-- A good entry is one binding more. -/
theorem bindings_cons (hn : key.name? = some n) (ht : target.IsNative) (next : Nat) :
    ∃ p, target.Gives next n p ∧ ∀ rest, bindings s depth next ((key, target) :: rest)
      = (bindings s depth (next + target.fresh) rest).map ((n, p) :: ·) := by
  obtain ⟨p, hgives, hp⟩ := ht.gives s depth next n
  refine ⟨p, hgives, fun rest => ?_⟩
  rw [bindings, Key.toSymbol_eq hn]
  simp only [Bind.bind, Except.bind, hp]
  cases bindings s depth (next + target.fresh) rest <;> rfl

/-- Good entries at the beginning are as many bindings, under their names. -/
theorem bindings_append :
    ∀ {before : Table} (next : Nat), (∀ e ∈ before, IsGood e) →
      ∃ bs, (before.map fun e => e.1.name?) = bs.map (some ∘ Prod.fst) ∧
        ∀ rest, bindings s depth next (before ++ rest)
          = (bindings s depth (after next before) rest).map (bs ++ ·)
  | [], next, _ => by
    refine ⟨[], rfl, fun rest => ?_⟩
    simp only [List.nil_append, after, List.foldl_nil]
    cases bindings s depth next rest <;> rfl
  | (key, target) :: before, next, h => by
    obtain ⟨⟨n, hn⟩, ht⟩ := h _ List.mem_cons_self
    obtain ⟨p, -, hfirst⟩ := bindings_cons s depth hn ht next
    obtain ⟨bs, hnames, hrest⟩ := bindings_append (next + target.fresh) fun e he =>
      h e (List.mem_cons_of_mem _ he)
    have hafter : after next ((key, target) :: before) = after (next + target.fresh) before := rfl
    refine ⟨(n, p) :: bs, ?_, fun rest => ?_⟩
    · simp only [List.map_cons, hnames]
      exact congrArg (· :: _) hn
    · rw [List.cons_append, hfirst, hrest, hafter]
      cases bindings s depth (after (next + target.fresh) before) rest <;> rfl

theorem bindings_ok {table : Table} (next : Nat) (h : ∀ e ∈ table, IsGood e) :
    ∃ bs, (table.map fun e => e.1.name?) = bs.map (some ∘ Prod.fst) ∧
      bindings s depth next table = .ok bs := by
  obtain ⟨bs, hnames, hbs⟩ := bindings_append s depth next h
  have hend := hbs []
  rw [List.append_nil] at hend
  exact ⟨bs, hnames, hend.trans (congrArg Except.ok (List.append_nil bs))⟩

/-- A target that is neither is a value, which the complaint shows. -/
theorem Target.primitive_bad (h : ¬target.IsNative) :
    ∃ v, target = .value v ∧ ∀ next (n : Symbol), target.primitive s depth next n
      = .error (.showing (s.describe depth v) fun shown => .fault (.target n.name shown)) := by
  cases target with
  | operation op => exact absurd (.inl ⟨op, rfl⟩) h
  | value v =>
    refine ⟨v, rfl, fun next n => ?_⟩
    cases v with
    | prim p => exact absurd (.inr ⟨p, rfl⟩) h
    | _ => rfl

/-- A bad entry is refused, whatever comes after it. -/
theorem bindings_bad {e : Key × Target} (he : ¬IsGood e) (next : Nat) (rest : Table) :
    ∃ o, bindings s depth next (e :: rest) = .error o ∧ s.RefusesEntry depth e o := by
  obtain ⟨key, target⟩ := e
  rcases hn : key.name? with _ | n
  · cases key with
    | other type => exact ⟨_, rfl, .key type target⟩
    | _ => cases hn
  · obtain ⟨v, rfl, hp⟩ := Target.primitive_bad s depth fun ht => he ⟨⟨n, hn⟩, ht⟩
    refine ⟨.showing (s.describe depth v) fun shown => .fault (.target n.name shown), ?_, ?_⟩
    · rw [bindings, Key.toSymbol_eq hn]
      simp only [Bind.bind, Except.bind, hp]
    · rcases htext : s.describe depth v with o | shown
      · exact .unshown hn htext
      · exact .target hn htext

theorem isGood_ofPrimitives {ps : List Primitive} {e : Key × Target} (he : e ∈ ofPrimitives ps) :
    IsGood e := by
  obtain ⟨p, -, rfl⟩ := List.mem_map.1 he
  exact ⟨⟨_, rfl⟩, .inr ⟨p, rfl⟩⟩

end Registry

/-! ## Binding the names -/

namespace Store

open Registry

variable {s : Store} {depth : Nat} {f : FrameRef}

theorem frame_bindAll {g : FrameRef} (hg : g ≠ f) :
    ∀ (bs : List (Symbol × Primitive)) (s : Store), (s.bindAll f bs).frame g = s.frame g
  | [], _ => rfl
  | b :: bs, s => by
    have hfirst : (s.bind f b.1 (.prim b.2)).frame g = s.frame g := by
      rw [frame_bind, if_neg fun h => hg h.1.symm]
    exact (frame_bindAll hg bs _).trans hfirst

theorem outer_bindAll (g : FrameRef) :
    ∀ (bs : List (Symbol × Primitive)) (s : Store),
      ((s.bindAll f bs).frame g).outer = (s.frame g).outer
  | [], _ => rfl
  | _ :: bs, s => (outer_bindAll g bs _).trans (outer_bind s ..)

theorem others_bindAll :
    ∀ (bs : List (Symbol × Primitive)) (s : Store),
      s.bindAll f bs = { s with frames := (s.bindAll f bs).frames }
  | [], _ => rfl
  | b :: bs, s => others_bindAll bs (s.bind f b.1 (.prim b.2))

theorem size_bindAll :
    ∀ (bs : List (Symbol × Primitive)) (s : Store),
      (s.bindAll f bs).frames.size = s.frames.size
  | [], _ => rfl
  | _ :: bs, _ => (size_bindAll bs _).trans (Array.size_modify ..)

theorem get?_bindAll {n : Symbol} :
    ∀ {bs : List (Symbol × Primitive)} {s : Store}, f < s.frames.size → n ∉ bs.map Prod.fst →
      ((s.bindAll f bs).frame f).get? n = (s.frame f).get? n
  | [], _, _, _ => rfl
  | b :: bs, s, hf, hn => by
    rw [List.map_cons, List.mem_cons, not_or] at hn
    have hsize : f < (s.bind f b.1 (.prim b.2)).frames.size :=
      Nat.lt_of_lt_of_eq hf (Array.size_modify ..).symm
    have hrest := get?_bindAll hsize hn.2
    rw [get?_bind hf, if_neg fun h => hn.1 h.2] at hrest
    exact hrest

/-- Of the bindings of one name the last one counts. -/
theorem get?_bindAll_last {n : Symbol} {p : Primitive} {bs bs' : List (Symbol × Primitive)}
    (hf : f < s.frames.size) (hn : n ∉ bs'.map Prod.fst) :
    ((s.bindAll f (bs ++ (n, p) :: bs')).frame f).get? n = some (.prim p) := by
  have hsplit : s.bindAll f (bs ++ (n, p) :: bs')
      = ((s.bindAll f bs).bind f n (.prim p)).bindAll f bs' := List.foldl_append
  have hbefore : f < (s.bindAll f bs).frames.size := Nat.lt_of_lt_of_eq hf (size_bindAll bs s).symm
  have hafter : f < ((s.bindAll f bs).bind f n (.prim p)).frames.size :=
    Nat.lt_of_lt_of_eq hbefore (Array.size_modify ..).symm
  rw [hsplit, get?_bindAll hafter hn, get?_bind hbefore, if_pos ⟨rfl, rfl⟩]

/-! ## Both together -/

theorem names_iff {table : Table} {bs : List (Symbol × Primitive)} {n : Symbol}
    (h : (table.map fun e => e.1.name?) = bs.map (some ∘ Prod.fst)) :
    table.Names n ↔ n ∈ bs.map Prod.fst := by
  have hmem : some n ∈ table.map (fun e => e.1.name?) ↔ some n ∈ bs.map (some ∘ Prod.fst) := by
    rw [h]
  simpa [Table.Names] using hmem

/-- A table without a bad entry is as many bindings, and each entry is one of them. -/
theorem bindings_good (s : Store) (depth : Nat) {table : Table} (hgood : ∀ e ∈ table, IsGood e) :
    ∃ bs, bindings s depth s.primitives table = .ok bs ∧
      (table.map fun e => e.1.name?) = bs.map (some ∘ Prod.fst) ∧
      ∀ {before rest : Table} {key : Key} {target : Target} {n : Symbol},
        table = before ++ (key, target) :: rest → key.name? = some n →
        ∃ p bs₁ bs₂, target.Gives (after s.primitives before) n p ∧ bs = bs₁ ++ (n, p) :: bs₂ ∧
          (rest.map fun e => e.1.name?) = bs₂.map (some ∘ Prod.fst) := by
  obtain ⟨bs, hnames, hall⟩ := bindings_ok s depth s.primitives hgood
  refine ⟨bs, hall, hnames, ?_⟩
  rintro before rest key target n rfl hn
  rw [List.forall_mem_append, List.forall_mem_cons] at hgood
  obtain ⟨hbefore, hentry, hrest⟩ := hgood
  obtain ⟨bs₁, -, hbs₁⟩ := bindings_append s depth s.primitives hbefore
  obtain ⟨p, hp, hcons⟩ := bindings_cons s depth hn hentry.2 (after s.primitives before)
  obtain ⟨bs₂, hnames₂, hbs₂⟩ := bindings_ok s depth (after s.primitives before + target.fresh)
    hrest
  refine ⟨p, bs₁, bs₂, hp, ?_, hnames₂⟩
  rw [hbs₁, hcons, hbs₂] at hall
  exact (Except.ok.inj hall).symm

theorem register_good (hf : f < s.frames.size) {table : Table}
    (hgood : ∀ e ∈ table, IsGood e) :
    ∃ t, Store.register depth f table s = .done () t ∧ s.Registered f table t := by
  obtain ⟨bs, hall, hnames, hentries⟩ := bindings_good s depth hgood
  rcases register_cases depth f table s with ⟨bs', hbs', heq⟩ | ⟨o, ho, -⟩
  · cases hall.symm.trans hbs'
    refine ⟨_, heq, ?_, ?_, ?_, ?_, ?_⟩
    · intro before rest key target n htable hn hlast
      obtain ⟨p, bs₁, bs₂, hp, rfl, hrest⟩ := hentries htable hn
      obtain ⟨cs, cs', hcs, hcs'⟩ := Bindings.merge_split bs₁ p fun hm =>
        hlast ((names_iff hrest).2 hm)
      rw [hcs]
      exact ⟨p, hp, get?_bindAll_last hf hcs'⟩
    · intro n hn
      exact get?_bindAll hf fun hm => hn ((names_iff hnames).2 (Bindings.mem_keys_merge.1 hm))
    · exact outer_bindAll f _ _
    · intro g hg
      exact frame_bindAll hg _ _
    · exact others_bindAll _ _
  · cases hall.symm.trans ho

theorem register_refused (s : Store) (depth : Nat) (f : FrameRef) {before : Table} (rest : Table)
    {e : Key × Target} (hbefore : ∀ e' ∈ before, IsGood e') (he : ¬IsGood e) :
    ∃ o, Store.register depth f (before ++ e :: rest) s = .blocked o s
      ∧ s.RefusesEntry depth e o := by
  obtain ⟨bs, -, hbs⟩ := bindings_append s depth s.primitives hbefore
  obtain ⟨o, ho, hrefuses⟩ := bindings_bad s depth he (after s.primitives before) rest
  have hall : bindings s depth s.primitives (before ++ e :: rest) = .error o := by
    rw [hbs, ho]
    rfl
  rcases register_cases depth f (before ++ e :: rest) s with ⟨bs', hbs', -⟩ | ⟨o', ho', heq⟩
  · cases hall.symm.trans hbs'
  · cases hall.symm.trans ho'
    exact ⟨o, heq, hrefuses⟩

theorem register_allOrNothing (depth : Nat) (hf : f < s.frames.size) (table : Table) :
    s.AllOrNothing depth f table (Store.register depth f table s) where
  refused htable hbefore he := by
    subst htable
    exact register_refused s depth f _ hbefore he
  registered := register_good hf

/-- Of a table with a bad entry nothing is registered, in whatever frame. -/
theorem register_blocked {table : Table} (hbad : ∃ e ∈ table, ¬IsGood e) (depth : Nat)
    (f : FrameRef) : ∃ o, Store.register depth f table s = .blocked o s := by
  classical
  have hfound : (table.find? (¬IsGood ·)).isSome = true := List.find?_isSome.2 (by simpa using hbad)
  obtain ⟨e, he⟩ := Option.isSome_iff_exists.1 hfound
  obtain ⟨hfirst, before, rest, rfl, hgood⟩ := List.find?_eq_some_iff_append.1 he
  have hbefore : ∀ e' ∈ before, IsGood e' := by simpa using hgood
  have hbad : ¬IsGood e := by simpa using hfirst
  obtain ⟨o, ho, -⟩ := register_refused s depth f rest hbefore hbad
  exact ⟨o, ho⟩

/-- What stands in the way is a `TypeError`, or else it is that the target has no text. -/
theorem RefusesEntry.kind_eq {e : Key × Target} {o : Obstacle} (h : s.RefusesEntry depth e o) :
    (∃ x, o = .failure x ∧ x.kind = "TypeError")
      ∨ ∃ v, e.2 = .value v ∧ s.describe depth v = .error o
        ∧ ∀ x, o = .failure x → x.IsUnshown := by
  cases h with
  | key => exact .inl ⟨_, rfl, rfl⟩
  | target => exact .inl ⟨_, rfl, rfl⟩
  | unshown _ text =>
    refine .inr ⟨_, rfl, text, fun x hx => ?_⟩
    rw [hx] at text
    exact describe_error text

/-- Registering a table, in any frame as in the globals of an interpreter, comes to a stop at the
first bad entry and leaves the whole store as it is, or binds every name as its last entry says and
changes nothing else. The failure is a `TypeError` unless its message would have to show a value
that has no text. A table made of primitives has no bad entry. -/
theorem register_all_or_nothing (s : Store) (table : Table) :
    (∀ depth f, f < s.frames.size →
        s.AllOrNothing depth f table (Store.register depth f table s))
      ∧ (∀ i : Interpreter, i.globals < s.frames.size →
          s.AllOrNothing i.machine.depth i.globals table (i.register table s))
      ∧ ((∃ e ∈ table, ¬IsGood e) →
          (∀ depth f, ∃ o, Store.register depth f table s = .blocked o s)
          ∧ ∀ i : Interpreter, ∃ o, i.register table s = .blocked o s)
      ∧ (∀ depth e o, s.RefusesEntry depth e o →
          (∃ x, o = .failure x ∧ x.kind = "TypeError")
          ∨ ∃ v, e.2 = .value v ∧ s.describe depth v = .error o
            ∧ ∀ x, o = .failure x → x.IsUnshown)
      ∧ ∀ ps, ∀ e ∈ ofPrimitives ps, IsGood e :=
  ⟨fun depth _ hf => register_allOrNothing depth hf table,
    fun _ hi => register_allOrNothing _ hi table,
    fun hbad => ⟨register_blocked hbad, fun _ => register_blocked hbad _ _⟩,
    fun _ _ _ => RefusesEntry.kind_eq, fun _ _ => isGood_ofPrimitives⟩

/-- A store with one frame, which binds nothing. -/
def blank : Store := { frames := #[.empty none] }

theorem register_all_or_nothing_blank :
    Store.register 9 0 [(.text "ok", .operation .add), (.text "x", .value Machine.unwritable)] blank
        = .raised (.fault .integerTooLong) blank
      ∧ ∃ t, Store.register 9 0
          [(.text "a", .operation .add), (.symbol ⟨"a"⟩, .operation .sub)] blank = .done () t
        ∧ (t.frame 0).get? ⟨"a"⟩ = some (.prim ⟨1, "a", .sub⟩) := by
  have hall (table : Table) := (register_all_or_nothing blank table).1 9 0 (by decide)
  have hadd (a : String) : IsGood (.text a, .operation .add) := ⟨⟨_, rfl⟩, .inl ⟨_, rfl⟩⟩
  constructor
  · have hshown := (Machine.shown_unwritable blank 9).2
    have hbad : ¬IsGood (.text "x", .value Machine.unwritable) := by
      rintro ⟨-, ⟨op, hop⟩ | ⟨p, hp⟩⟩
      · cases hop
      · cases hp
    obtain ⟨o, ho, hrefuses⟩ := (hall _).refused
      (show _ = [(.text "ok", .operation .add)] ++ _ :: [] from rfl)
      (List.forall_mem_singleton.2 (hadd "ok")) hbad
    rw [List.singleton_append] at ho
    rw [ho]
    cases hrefuses with
    | target _ text => cases hshown.symm.trans text
    | unshown _ text => cases hshown.symm.trans text; rfl
  · have hsub : IsGood (.symbol ⟨"a"⟩, .operation .sub) := ⟨⟨_, rfl⟩, .inl ⟨_, rfl⟩⟩
    obtain ⟨t, ht, hregistered⟩ := (hall _).registered
      (List.forall_mem_cons.2 ⟨hadd "a", List.forall_mem_singleton.2 hsub⟩)
    obtain ⟨p, hp, hget⟩ := hregistered.bound
      (show _ = [(.text "a", .operation .add)] ++ _ :: [] from rfl) rfl (by simp [Table.Names])
    cases hp
    exact ⟨t, ht, hget⟩

end Store

end LispCore

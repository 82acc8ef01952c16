import LispCore.Proofs.Trees
import LispCore.Proofs.Unshown
import Mathlib.Tactic.SplitIfs

/-!
# Texts and trees

The text of a tree says which tree it is, as long as the names in it can be told from everything
else that is written (`Symbol.Readable`). A text is compared with another from left to right, with
whatever follows on either side: a word ends where a delimiter follows, a string at the first quote
that is not escaped, and a list or a vector at its own bracket (`Datum.separates`). So two values
with one text stand for one tree, and values that stand for one tree have the same text or fail to
have one in the same way (`Store.texts_agree_with_equality`).
-/

namespace LispCore

/-- The characters that no word holds. -/
def Text.delimiters : List Char := [' ', '(', ')', '[', ']', '"']

/-- The words that are no names. -/
def Text.reserved : List String := [".", "nil", "#T", "#F"]

/-- A name that is a word and is written like nothing else. -/
structure Symbol.Readable (n : Symbol) : Prop where
  nonempty : n.name ≠ ""
  word : ∀ c ∈ n.name.toList, c ∉ Text.delimiters
  free : n.name ∉ Text.reserved
  numeral : ∀ i : Int, n.name ≠ toString i

namespace Datum

/-- A leaf that can be told from others by its text. -/
def IsReadable : Datum → Prop
  | .nil | .bool _ | .int _ | .str _ => True
  | .sym n => n.Readable
  | _ => False

/-- A leaf that is not too long to be written. -/
def IsWritable : Datum → Prop
  | .int i => Decimal.isWritable i = true
  | _ => True

/-! ## Words -/

/-- The word that a leaf is written as. -/
def word? : Datum → Option String
  | .nil => some "nil"
  | .bool b => some (boolText b)
  | .int i => some (toString i)
  | .sym n => some n.name
  | _ => none

theorem toString_int_ne_empty (i : Int) : toString i ≠ "" := by
  rw [Int.toString_eq_repr, Int.repr_eq_if]
  split
  · exact Nat.repr_ne_empty
  · simp

theorem mem_toString_int {i : Int} {c : Char} (h : c ∈ (toString i).toList) :
    c = '-' ∨ c.isDigit = true := by
  have hnat {n : Nat} (h : c ∈ n.repr.toList) : c.isDigit = true := by
    rw [Nat.repr_eq_ofList_toDigits, String.toList_ofList] at h
    exact Nat.isDigit_of_mem_toDigits (by decide) (by decide) h
  rw [Int.toString_eq_repr, Int.repr_eq_if] at h
  split at h
  · exact .inr (hnat h)
  · rw [String.toList_append, List.mem_append] at h
    rcases h with h | h
    · exact .inl (by simpa using h)
    · exact .inr (hnat h)

theorem toString_int_notMem_reserved (i : Int) : toString i ∉ Text.reserved := by
  intro h
  have hfirst (c : Char) (hc : c ∈ (toString i).toList) : c ∉ ['.', 'n', '#'] := by
    rcases mem_toString_int hc with rfl | hdigit
    · decide
    · intro hmem
      simp only [List.mem_cons, List.not_mem_nil, or_false] at hmem
      rcases hmem with rfl | rfl | rfl <;> exact absurd hdigit (by decide)
  simp only [Text.reserved, List.mem_cons, List.not_mem_nil, or_false] at h
  rcases h with h | h | h | h <;> rw [h] at hfirst
  · exact hfirst '.' (by decide) (by decide)
  · exact hfirst 'n' (by decide) (by decide)
  · exact hfirst '#' (by decide) (by decide)
  · exact hfirst '#' (by decide) (by decide)

/-- Words of readable leaves hold no delimiters. -/
theorem word_chars {d : Datum} {w : String} (hd : d.IsReadable) (hw : d.word? = some w) :
    w ≠ "" ∧ w ≠ "." ∧ ∀ c ∈ w.toList, c ∉ Text.delimiters := by
  cases d with
  | nil =>
    cases hw
    simp [Text.delimiters]
  | bool b =>
    cases hw
    cases b <;> simp [boolText, Text.delimiters]
  | int i =>
    cases hw
    refine ⟨toString_int_ne_empty i, ?_, fun c hc => ?_⟩
    · intro h
      exact toString_int_notMem_reserved i (h ▸ by decide)
    · rcases mem_toString_int hc with rfl | hdigit
      · decide
      · intro hmem
        simp only [Text.delimiters, List.mem_cons, List.not_mem_nil, or_false] at hmem
        rcases hmem with rfl | rfl | rfl | rfl | rfl | rfl <;> exact absurd hdigit (by decide)
  | sym n =>
    cases hw
    exact ⟨hd.nonempty, fun h => hd.free (h ▸ by decide), hd.word⟩
  | _ => cases hw

/-- The integer whose numeral a word is, if it is one. -/
def numeral (w : String) : Int :=
  match w.toList with
  | '-' :: cs => -Nat.ofDigitChars 10 cs 0
  | cs => Nat.ofDigitChars 10 cs 0

theorem numeral_toString (i : Int) : numeral (toString i) = i := by
  have hdigits (n : Nat) : Nat.ofDigitChars 10 n.repr.toList 0 = n := by
    rw [Nat.repr_eq_ofList_toDigits, String.toList_ofList, Nat.ofDigitChars_ten_toDigits]
  rw [Int.toString_eq_repr, Int.repr_eq_if, numeral]
  split_ifs with hi
  · split
    · rename_i cs hcs
      rw [Nat.repr_eq_ofList_toDigits, String.toList_ofList] at hcs
      have hmem : '-' ∈ Nat.toDigits 10 i.toNat := hcs ▸ List.mem_cons_self
      exact absurd (Nat.isDigit_of_mem_toDigits (by decide) (by decide) hmem) (by decide)
    · rw [hdigits, Int.toNat_of_nonneg hi]
  · have hminus : ("-" ++ (-i).toNat.repr).toList = '-' :: (-i).toNat.repr.toList := by
      rw [String.toList_append]
      rfl
    simp only [hminus, hdigits]
    omega

/-- The leaf that a word stands for. -/
def ofWord (w : String) : Datum :=
  if w = "nil" then .nil
  else if w = "#T" then .bool true
  else if w = "#F" then .bool false
  else if toString (numeral w) = w then .int (numeral w)
  else .sym ⟨w⟩

theorem ofWord_of_notMem_reserved {w : String} (h : w ∉ Text.reserved) :
    ofWord w = if toString (numeral w) = w then .int (numeral w) else .sym ⟨w⟩ := by
  simp only [Text.reserved, List.mem_cons, List.not_mem_nil, or_false, not_or] at h
  obtain ⟨-, hnil, htrue, hfalse⟩ := h
  rw [ofWord, if_neg hnil, if_neg htrue, if_neg hfalse]

theorem ofWord_word {d : Datum} {w : String} (hd : d.IsReadable) (hw : d.word? = some w) :
    ofWord w = d := by
  cases d with
  | nil =>
    cases hw
    rfl
  | bool b =>
    cases hw
    cases b <;> rfl
  | int i =>
    cases hw
    rw [ofWord_of_notMem_reserved (toString_int_notMem_reserved i)]
    rw [numeral_toString, if_pos rfl]
  | sym n =>
    cases hw
    rw [ofWord_of_notMem_reserved hd.free]
    exact if_neg (hd.numeral _).symm
  | _ => cases hw

/-! ## Characters -/

/-- The characters of a tree's text. -/
def chars (inTail : Bool) (d : Datum) : List Char := (write .plain inTail d).toList

/-- The characters of elements, each after a space. -/
def restChars : List Datum → List Char
  | [] => []
  | d :: ds => ' ' :: (chars false d ++ restChars ds)

/-- The characters of elements, with spaces between them. -/
def itemChars : List Datum → List Char
  | [] => []
  | d :: ds => chars false d ++ restChars ds

theorem chars_word {d : Datum} {w : String} (hw : d.word? = some w) : chars false d = w.toList := by
  cases d <;> cases hw <;> simp [chars, write, ending, Style.paint, Style.plain]

theorem chars_str (t : String) :
    chars false (.str t) = '"' :: (t.toList.flatMap escapeChar ++ ['"']) := by
  simp [chars, write, ending, Style.plain, readableString]

theorem chars_pair (h t : Datum) :
    chars false (.pair h t) = '(' :: (chars false h ++ (chars true t ++ [')'])) := by
  simp [chars, write]

theorem chars_pair_tail (h t : Datum) :
    chars true (.pair h t) = ' ' :: (chars false h ++ chars true t) := by
  simp [chars, write]

theorem chars_nil_tail : chars true .nil = [] := by
  simp [chars, write]

theorem chars_tail {d : Datum} (hnil : d ≠ .nil) (hpair : ∀ h t, d ≠ .pair h t) :
    chars true d = ' ' :: '.' :: ' ' :: chars false d := by
  cases d with
  | nil => exact absurd rfl hnil
  | pair h t => exact absurd rfl (hpair h t)
  | _ => simp [chars, write, ending]

theorem tail_cases (d : Datum) :
    d = .nil ∨ (∃ h t, d = .pair h t) ∨ chars true d = ' ' :: '.' :: ' ' :: chars false d := by
  cases d with
  | nil => exact .inl rfl
  | pair h t => exact .inr (.inl ⟨h, t, rfl⟩)
  | _ => exact .inr (.inr (chars_tail nofun nofun))

theorem intercalate_writeAll :
    ∀ ds : List Datum, (" ".intercalate (writeAll .plain ds)).toList = itemChars ds
  | [] => by simp [writeAll, itemChars]
  | [d] => by simp [writeAll, itemChars, restChars, chars]
  | d :: d' :: ds => by
    have hrest := intercalate_writeAll (d' :: ds)
    rw [writeAll] at hrest
    rw [writeAll, writeAll, String.intercalate_cons_cons]
    simp [hrest, itemChars, restChars, chars]

theorem chars_vec (ds : List Datum) :
    chars false (.vec ds) = '[' :: (itemChars ds ++ [']']) := by
  rw [← intercalate_writeAll]
  simp [chars, write, ending]

/-! ## Where a text ends -/

/-- What follows a tree's text: nothing, or something else that is no part of a word. -/
def Follows (u : List Char) : Prop := ∀ c ∈ u.head?, c ∈ Text.delimiters

theorem follows_close (u : List Char) : Follows (')' :: u) := by
  simp [Follows, Text.delimiters]

theorem follows_tail (t : Datum) (u : List Char) : Follows (chars true t ++ ')' :: u) := by
  cases t with
  | nil => exact chars_nil_tail ▸ follows_close u
  | pair h t => simp [Follows, chars_pair_tail, Text.delimiters]
  | _ => simp [Follows, chars_tail, Text.delimiters]

theorem follows_rest (ds : List Datum) (u : List Char) : Follows (restChars ds ++ ']' :: u) := by
  cases ds <;> simp [Follows, restChars, Text.delimiters]

/-- A word ends where a delimiter follows. -/
theorem word_separates {u u' : List Char} (hu : Follows u) (hu' : Follows u') :
    ∀ {w w' : List Char}, (∀ c ∈ w, c ∉ Text.delimiters) → (∀ c ∈ w', c ∉ Text.delimiters) →
      w ++ u = w' ++ u' → w = w' ∧ u = u'
  | [], [], _, _, h => ⟨rfl, h⟩
  | [], c :: w', _, hw', h => by
    have hc : c ∈ Text.delimiters := hu c (by rw [show u = c :: (w' ++ u') from h]; rfl)
    exact absurd hc (hw' c List.mem_cons_self)
  | c :: w, [], hw, _, h => by
    have hc : c ∈ Text.delimiters := hu' c (by rw [show u' = c :: (w ++ u) from h.symm]; rfl)
    exact absurd hc (hw c List.mem_cons_self)
  | c :: w, c' :: w', hw, hw', h => by
    rw [List.cons_append, List.cons_append, List.cons.injEq] at h
    obtain ⟨rfl, h⟩ := h
    obtain ⟨rfl, rfl⟩ := word_separates hu hu' (fun c hc => hw c (List.mem_cons_of_mem _ hc))
      (fun c hc => hw' c (List.mem_cons_of_mem _ hc)) h
    exact ⟨rfl, rfl⟩

/-! ## Strings -/

/-- The character that a letter after a backslash stands for. -/
def unescaped : Char → Char
  | 'n' => '\n'
  | 't' => '\t'
  | 'r' => '\r'
  | c => c

theorem escapeChar_cases (c : Char) :
    (escapeChar c = [c] ∧ c ≠ '\\' ∧ c ≠ '"')
      ∨ ∃ k, escapeChar c = ['\\', k] ∧ unescaped k = c := by
  fun_cases escapeChar c with
  | case1 => exact .inr ⟨'\\', rfl, rfl⟩
  | case2 => exact .inr ⟨'"', rfl, rfl⟩
  | case3 => exact .inr ⟨'n', rfl, rfl⟩
  | case4 => exact .inr ⟨'t', rfl, rfl⟩
  | case5 => exact .inr ⟨'r', rfl, rfl⟩
  | case6 => exact .inl ⟨rfl, by assumption, by assumption⟩

theorem escapeChar_separates {c c' : Char} {u u' : List Char}
    (h : escapeChar c ++ u = escapeChar c' ++ u') : c = c' ∧ u = u' := by
  rcases escapeChar_cases c with ⟨hc, hne, -⟩ | ⟨k, hc, hk⟩ <;>
    rcases escapeChar_cases c' with ⟨hc', hne', -⟩ | ⟨k', hc', hk'⟩ <;>
    rw [hc, hc'] at h <;> simp only [List.cons_append, List.nil_append, List.cons.injEq] at h
  · exact h
  · exact absurd h.1 hne
  · exact absurd h.1.symm hne'
  · exact ⟨by rw [← hk, ← hk', h.2.1], h.2.2⟩

/-- A string ends at the first quote that is not escaped. -/
theorem string_separates {u u' : List Char} :
    ∀ {t t' : List Char}, t.flatMap escapeChar ++ '"' :: u = t'.flatMap escapeChar ++ '"' :: u' →
      t = t' ∧ u = u'
  | [], [], h => ⟨rfl, (List.cons.inj h).2⟩
  | [], c :: t', h => by
    rw [List.flatMap_cons] at h
    rcases escapeChar_cases c with ⟨hc, -, hne⟩ | ⟨k, hc, -⟩ <;> rw [hc] at h
    · exact absurd (List.cons.inj h).1.symm hne
    · simp at h
  | c :: t, [], h => by
    rw [List.flatMap_cons] at h
    rcases escapeChar_cases c with ⟨hc, -, hne⟩ | ⟨k, hc, -⟩ <;> rw [hc] at h
    · exact absurd (List.cons.inj h).1 hne
    · simp at h
  | c :: t, c' :: t', h => by
    rw [List.flatMap_cons, List.flatMap_cons, List.append_assoc, List.append_assoc] at h
    obtain ⟨rfl, hrest⟩ := escapeChar_separates h
    obtain ⟨rfl, rfl⟩ := string_separates hrest
    exact ⟨rfl, rfl⟩

/-! ## Trees -/

/-- What the text of a tree begins with, unless that is a word. -/
def opening : Datum → Option Char
  | .pair .. => some '('
  | .vec _ => some '['
  | .str _ => some '"'
  | _ => none

theorem word_of_opening {d : Datum} (hd : d.Every IsReadable) (ho : d.opening = none) :
    d.IsReadable ∧ ∃ w, d.word? = some w := by
  cases d with
  | nil | bool _ | int _ | sym _ => exact ⟨hd, _, rfl⟩
  | str _ | pair _ _ | vec _ => cases ho
  | _ => exact hd.elim

theorem chars_eq_cons {d : Datum} (hd : d.Every IsReadable) :
    ∃ c cs, chars false d = c :: cs
      ∧ (d.opening = some c ∨ d.opening = none ∧ c ∉ Text.delimiters) := by
  rcases ho : d.opening with _ | c
  · obtain ⟨hleaf, w, hw⟩ := word_of_opening hd ho
    obtain ⟨hne, -, hdelimiters⟩ := word_chars hleaf hw
    rw [chars_word hw]
    rcases hcs : w.toList with _ | ⟨c, cs⟩
    · exact absurd (String.toList_eq_nil_iff.1 hcs) hne
    · exact ⟨c, cs, rfl, .inr ⟨rfl, hdelimiters c (hcs ▸ List.mem_cons_self)⟩⟩
  · cases d <;> cases ho
    · exact ⟨_, _, chars_str _, .inl rfl⟩
    · exact ⟨_, _, chars_pair _ _, .inl rfl⟩
    · exact ⟨_, _, chars_vec _, .inl rfl⟩

theorem opening_mem_delimiters {d : Datum} {c : Char} (h : d.opening = some c) :
    c ∈ Text.delimiters := by
  cases d <;> cases h <;> simp [Text.delimiters]

/-- Trees whose texts go on alike begin alike. -/
theorem opening_eq {d d' : Datum} {u u' : List Char} (hd : d.Every IsReadable)
    (hd' : d'.Every IsReadable) (h : chars false d ++ u = chars false d' ++ u') :
    d.opening = d'.opening := by
  obtain ⟨c, cs, hc, ho⟩ := chars_eq_cons hd
  obtain ⟨c', cs', hc', ho'⟩ := chars_eq_cons hd'
  rw [hc, hc', List.cons_append, List.cons_append, List.cons.injEq] at h
  obtain ⟨rfl, -⟩ := h
  rcases ho with ho | ⟨ho, hne⟩ <;> rcases ho' with ho' | ⟨ho', hne'⟩
  · rw [ho, ho']
  · exact absurd (opening_mem_delimiters ho) hne'
  · exact absurd (opening_mem_delimiters ho') hne
  · rw [ho, ho']

/-- The text of a tree tells it from every other one, whatever follows. -/
def Separates (d : Datum) : Prop :=
  ∀ (d' : Datum) (u u' : List Char), d'.Every IsReadable → Follows u → Follows u' →
    chars false d ++ u = chars false d' ++ u' → d = d' ∧ u = u'

/-- So does its text in the tail of a list, up to the end of the list. -/
def SeparatesTail (d : Datum) : Prop :=
  ∀ (d' : Datum) (u u' : List Char), d'.Every IsReadable →
    chars true d ++ ')' :: u = chars true d' ++ ')' :: u' → d = d' ∧ u = u'

theorem separates_word {d : Datum} (hd : d.Every IsReadable) (ho : d.opening = none) :
    Separates d := by
  intro d' u u' hd' hu hu' h
  obtain ⟨hleaf, w, hw⟩ := word_of_opening hd ho
  obtain ⟨hleaf', w', hw'⟩ := word_of_opening hd' (opening_eq hd hd' h ▸ ho)
  rw [chars_word hw, chars_word hw'] at h
  obtain ⟨hww, rfl⟩ := word_separates hu hu' (word_chars hleaf hw).2.2 (word_chars hleaf' hw').2.2 h
  rw [String.toList_inj] at hww
  subst hww
  rw [← ofWord_word hleaf hw, ← ofWord_word hleaf' hw']
  exact ⟨rfl, rfl⟩

theorem separates_str (t : String) : Separates (.str t) := by
  intro d' u u' hd' _ _ h
  have ho := opening_eq (d := .str t) trivial hd' h
  cases d' <;> cases ho
  rw [chars_str, chars_str] at h
  simp only [List.cons_append, List.append_assoc, List.cons.injEq, true_and, List.nil_append] at h
  obtain ⟨ht, rfl⟩ := string_separates h
  rw [String.toList_inj] at ht
  exact ⟨ht ▸ rfl, rfl⟩

/-- A word is never the dot of a list. -/
theorem chars_ne_dot {d : Datum} {u v : List Char} (hd : d.Every IsReadable) (hu : Follows u) :
    '.' :: ' ' :: v ≠ chars false d ++ u := by
  intro h
  have hdot : Follows (' ' :: v) := by simp [Follows, Text.delimiters]
  rcases ho : d.opening with _ | c
  · obtain ⟨hleaf, w, hw⟩ := word_of_opening hd ho
    obtain ⟨-, hne, hdelimiters⟩ := word_chars hleaf hw
    rw [chars_word hw] at h
    have hword := (word_separates (w := ['.']) hdot hu (by simp [Text.delimiters]) hdelimiters h).1
    exact hne (String.toList_inj.1 hword.symm)
  · obtain ⟨c', cs, hc, ho'⟩ := chars_eq_cons hd
    rw [hc, List.cons_append, List.cons.injEq] at h
    obtain ⟨rfl, -⟩ := h
    rcases ho' with ho' | ⟨ho', -⟩
    · exact absurd (opening_mem_delimiters ho') (by simp [Text.delimiters])
    · rw [ho] at ho'
      cases ho'

theorem Separates.tail {d : Datum} (h : Separates d)
    (hdot : chars true d = ' ' :: '.' :: ' ' :: chars false d) : SeparatesTail d := by
  intro d' u u' hd' heq
  rw [hdot] at heq
  rcases tail_cases d' with rfl | ⟨h', t', rfl⟩ | hdot'
  · simp [chars_nil_tail] at heq
  · rw [chars_pair_tail] at heq
    simp only [List.cons_append, List.append_assoc, List.cons.injEq, true_and] at heq
    exact absurd heq (chars_ne_dot hd'.1 (follows_tail t' u'))
  · rw [hdot'] at heq
    simp only [List.cons_append, List.cons.injEq, true_and] at heq
    obtain ⟨rfl, hrest⟩ := h d' _ _ hd' (follows_close u) (follows_close u') heq
    exact ⟨rfl, (List.cons.inj hrest).2⟩

theorem separatesTail_nil : SeparatesTail .nil := by
  intro d' u u' _ heq
  rcases tail_cases d' with rfl | ⟨h', t', rfl⟩ | hdot'
  · exact ⟨rfl, (List.cons.inj (List.append_cancel_left heq)).2⟩
  · simp [chars_nil_tail, chars_pair_tail] at heq
  · simp [chars_nil_tail, hdot'] at heq

/-- A list goes on as another one if its first element and its tail do. -/
theorem separates_pair {h t : Datum} (hd : (Datum.pair h t).Every IsReadable) (hh : Separates h)
    (ht : SeparatesTail t) : Separates (.pair h t) := by
  intro d' u u' hd' _ _ heq
  have ho := opening_eq hd hd' heq
  cases d' <;> cases ho
  rw [chars_pair, chars_pair] at heq
  simp only [List.cons_append, List.append_assoc, List.cons.injEq, true_and,
    List.nil_append] at heq
  obtain ⟨rfl, hrest⟩ := hh _ _ _ hd'.1 (follows_tail _ u) (follows_tail _ u') heq
  obtain ⟨rfl, rfl⟩ := ht _ _ _ hd'.2 hrest
  exact ⟨rfl, rfl⟩

theorem separatesTail_pair {h t : Datum} (hd : h.Every IsReadable) (hh : Separates h)
    (ht : SeparatesTail t) : SeparatesTail (.pair h t) := by
  intro d' u u' hd' heq
  rw [chars_pair_tail] at heq
  rcases tail_cases d' with rfl | ⟨h', t', rfl⟩ | hdot'
  · simp [chars_nil_tail] at heq
  · rw [chars_pair_tail] at heq
    simp only [List.cons_append, List.append_assoc, List.cons.injEq, true_and] at heq
    obtain ⟨rfl, hrest⟩ := hh _ _ _ hd'.1 (follows_tail t u) (follows_tail t' u') heq
    obtain ⟨rfl, rfl⟩ := ht _ _ _ hd'.2 hrest
    exact ⟨rfl, rfl⟩
  · rw [hdot'] at heq
    simp only [List.cons_append, List.append_assoc, List.cons.injEq, true_and] at heq
    exact absurd heq.symm (chars_ne_dot hd (follows_tail t u))

theorem chars_ne_close {d : Datum} {u v : List Char} (hd : d.Every IsReadable) :
    ']' :: v ≠ chars false d ++ u := by
  intro h
  obtain ⟨c, cs, hc, ho⟩ := chars_eq_cons hd
  rw [hc, List.cons_append, List.cons.injEq] at h
  obtain ⟨rfl, -⟩ := h
  rcases ho with ho | ⟨-, hne⟩
  · cases d <;> simp [opening] at ho
  · exact hne (by simp [Text.delimiters])

/-- Elements go on as others do up to the end of the vector. -/
def SeparatesAll (ds : List Datum) : Prop :=
  ∀ (ds' : List Datum) (u u' : List Char), EveryOf IsReadable ds' →
    restChars ds ++ ']' :: u = restChars ds' ++ ']' :: u' → ds = ds' ∧ u = u'

theorem separates_vec {ds : List Datum} (hds : EveryOf IsReadable ds) (h : SeparatesAll ds) :
    Separates (.vec ds) := by
  intro d' u u' hd' _ _ heq
  have ho := opening_eq (d := .vec ds) hds hd' heq
  cases d' <;> cases ho
  rename_i ds'
  rw [chars_vec, chars_vec] at heq
  simp only [List.cons_append, List.append_assoc, List.cons.injEq, true_and,
    List.nil_append] at heq
  suffices hall : ds = ds' ∧ u = u' from ⟨by rw [hall.1], hall.2⟩
  cases ds with
  | nil =>
    cases ds' with
    | nil => exact ⟨rfl, (List.cons.inj heq).2⟩
    | cons d' ds' =>
      simp only [itemChars, List.nil_append, List.append_assoc] at heq
      exact absurd heq (chars_ne_close hd'.1)
  | cons d ds =>
    cases ds' with
    | nil =>
      simp only [itemChars, List.nil_append, List.append_assoc] at heq
      exact absurd heq.symm (chars_ne_close hds.1)
    | cons d' ds' => exact h _ _ _ hd' (congrArg (' ' :: ·) heq)

-- The induction is on the tree of the first text. What follows either text is left open, so the
-- first element of a list is told from that of the other before anything is known of their tails.
mutual

theorem separates : ∀ {d : Datum}, d.Every IsReadable → Separates d ∧ SeparatesTail d
  | .nil, hd => ⟨separates_word hd rfl, separatesTail_nil⟩
  | .bool b, hd =>
    have h : Separates (.bool b) := separates_word hd rfl
    ⟨h, h.tail (chars_tail nofun nofun)⟩
  | .int i, hd =>
    have h : Separates (.int i) := separates_word hd rfl
    ⟨h, h.tail (chars_tail nofun nofun)⟩
  | .sym n, hd =>
    have h : Separates (.sym n) := separates_word hd rfl
    ⟨h, h.tail (chars_tail nofun nofun)⟩
  | .str t, _ => ⟨separates_str t, (separates_str t).tail (chars_tail nofun nofun)⟩
  | .pair .., hd =>
    have hh := (separates hd.1).1
    have ht := (separates hd.2).2
    ⟨separates_pair hd hh ht, separatesTail_pair hd.1 hh ht⟩
  | .vec ds, hd =>
    have h : Separates (.vec ds) := separates_vec hd (separatesAll hd)
    ⟨h, h.tail (chars_tail nofun nofun)⟩

theorem separatesAll : ∀ {ds : List Datum}, EveryOf IsReadable ds → SeparatesAll ds
  | [], _, [], _, _, _, h => ⟨rfl, (List.cons.inj h).2⟩
  | [], _, d' :: ds', u, u', _, h => by simp [restChars] at h
  | d :: ds, _, [], u, u', _, h => by simp [restChars] at h
  | d :: ds, hds, d' :: ds', u, u', hds', h => by
    simp only [restChars, List.cons_append, List.append_assoc, List.cons.injEq, true_and] at h
    obtain ⟨rfl, hrest⟩ :=
      (separates hds.1).1 _ _ _ hds'.1 (follows_rest ds u) (follows_rest ds' u') h
    obtain ⟨rfl, rfl⟩ := separatesAll hds.2 _ _ _ hds'.2 hrest
    exact ⟨rfl, rfl⟩

end

/-- Readable trees with one text are the same. -/
theorem text_injective {d d' : Datum} (hd : d.Every IsReadable) (hd' : d'.Every IsReadable)
    (h : text .plain d = text .plain d') : d = d' := by
  have hfollows : Follows [] := by simp [Follows]
  have hchars : chars false d ++ [] = chars false d' ++ [] := by
    rw [List.append_nil, List.append_nil]
    exact congrArg String.toList h
  exact ((separates hd).1 d' [] [] hd' hfollows hfollows hchars).1

mutual

/-- Readable trees are alike if they are the same. -/
theorem alike_iff : ∀ {d d' : Datum}, d.Every IsReadable → (d.alike d' = true ↔ d = d')
  | .pair .., d', hd => by
    cases d' <;> simp [alike, alike_iff hd.1, alike_iff hd.2]
  | .vec _, d', hd => by
    cases d' <;> simp [alike, alikeAll_iff hd]
  | .nil, d', _ => by cases d' <;> simp [alike]
  | .bool _, d', _ => by cases d' <;> simp [alike]
  | .int _, d', _ => by cases d' <;> simp [alike]
  | .str _, d', _ => by cases d' <;> simp [alike]
  | .sym _, d', _ => by cases d' <;> simp [alike]

theorem alikeAll_iff :
    ∀ {ds ds' : List Datum}, EveryOf IsReadable ds → (alikeAll ds ds' = true ↔ ds = ds')
  | [], ds', _ => by cases ds' <;> simp [alikeAll]
  | _ :: _, ds', hds => by
    cases ds' <;> simp [alikeAll, alike_iff hds.1, alikeAll_iff hds.2]

end

/-! ## Trees by their spines -/

theorem ofList_spine : ∀ d : Datum, ofList d.spine.2 d.spine.1 = d
  | .pair h t => by
    have ht := ofList_spine t
    simp only [spine, ofList, ht]
  | .nil | .bool _ | .int _ | .float _ | .str _ | .sym _ | .vec _ | .prim _ | .closure ..
  | .foreign _ => rfl

theorem every_iff_spine (P : Datum → Prop) :
    ∀ d : Datum, d.Every P ↔ EveryOf P d.spine.1 ∧ d.spine.2.Every P
  | .pair h t => by
    have ht := every_iff_spine P t
    simp only [spine, Every, EveryOf, ht, and_assoc]
  | .nil | .bool _ | .int _ | .float _ | .str _ | .sym _ | .vec _ | .prim _ | .closure ..
  | .foreign _ => by simp [spine, EveryOf]

theorem depthIn_true_eq :
    ∀ d : Datum, d.depthIn true = max (deepest d.spine.1) d.spine.2.depth
  | .pair h t => by
    have ht := depthIn_true_eq t
    simp only [spine, depthIn, deepest, ht, if_true, Nat.add_zero, Nat.max_assoc]
  | .nil | .bool _ | .int _ | .float _ | .str _ | .sym _ | .vec _ | .prim _ | .closure ..
  | .foreign _ => by simp [spine, depthIn, deepest, depth]

end Datum

namespace Store

variable {s : Store}

theorem Tails.spineWithin {v last : Value} {rs : List PairRef} (h : s.Tails v rs last) :
    ∀ {k : Nat}, rs.length ≤ k →
      s.spineWithin k v = (rs.map fun r => (s.pair r).head, some last) := by
  induction h with
  | @last v hv =>
    intro k _
    cases v with
    | pair r => exact absurd rfl (hv r)
    | _ => cases k <;> rfl
  | pair _ ih =>
    intro k hk
    obtain ⟨k, rfl⟩ : ∃ j, k = j + 1 := ⟨k - 1, by rw [List.length_cons] at hk; omega⟩
    rw [Store.spineWithin, ih (Nat.le_of_succ_le_succ hk)]
    rfl

/-- The heads of a chain of pairs and its end stand for those of the tree. -/
theorem Unfolds.spine {d : Datum} {v : Value} (h : s.Unfolds v d) :
    ∃ heads last, s.spine v = (heads, some last) ∧ List.Forall₂ s.Unfolds heads d.spine.1
      ∧ s.Unfolds last d.spine.2 := by
  obtain ⟨rs, last, htails, -, hheads, hlast⟩ := h.tails
  exact ⟨_, last, htails.spineWithin htails.length_le, List.forall₂_map_left_iff.2 hheads, hlast⟩

/-! ## Views and texts -/

theorem mapM_congr_of_unfolds {f : Value → Answer Datum}
    (hf : ∀ {a b : Value} {d : Datum}, s.Unfolds a d → s.Unfolds b d → f a = f b) :
    ∀ {as bs : List Value} {ds : List Datum}, List.Forall₂ s.Unfolds as ds →
      List.Forall₂ s.Unfolds bs ds → as.mapM f = bs.mapM f
  | [], bs, _, .nil, hbs => by
    cases hbs
    rfl
  | _ :: _, bs, _, .cons ha has, hbs => by
    cases hbs with
    | cons hb hbs =>
      rw [List.mapM_cons, List.mapM_cons, hf ha hb, mapM_congr_of_unfolds hf has hbs]

/-- Values that stand for one tree are viewed alike, be it with a tree or with a failure. -/
theorem viewWithin_congr :
    ∀ (n : Nat) {a b : Value} {d : Datum}, s.Unfolds a d → s.Unfolds b d →
      s.viewWithin n a = s.viewWithin n b
  | n, a, b, d, ha, hb => by
    cases ha with
    | @pair p h t hp hh ht =>
      cases hb with
      | @pair q _ _ hq hh' ht' =>
        cases n with
        | zero => rfl
        | succ n =>
          obtain ⟨heads, last, hspine, hheads, hlast⟩ := (Unfolds.pair hp hh ht).spine
          obtain ⟨heads', last', hspine', hheads', hlast'⟩ := (Unfolds.pair hq hh' ht').spine
          simp only [viewWithin, hspine, hspine', viewWithin_congr n hlast hlast',
            mapM_congr_of_unfolds (viewWithin_congr n) hheads hheads']
    | vec hds =>
      cases hb with
      | vec hds' =>
        cases n with
        | zero => rfl
        | succ n => simp only [viewWithin, mapM_congr_of_unfolds (viewWithin_congr n) hds hds']
    | _ =>
      cases hb
      rfl

theorem bind_eq_ok_iff {α β : Type} {r : Answer α} {k : α → Answer β} {b : β} :
    (r >>= k) = .ok b ↔ ∃ a, r = .ok a ∧ k a = .ok b := by
  cases r with
  | error x => exact ⟨nofun, nofun⟩
  | ok a => exact ⟨fun h => ⟨a, rfl, h⟩, fun ⟨_, ha, h⟩ => by cases ha; exact h⟩

/-- A view is the tree itself, within the limit on nesting and where no integer is too long. -/
def Shows (n : Nat) (d : Datum) (r : Answer Datum) : Prop :=
  ∀ d', r = .ok d' ↔ d' = d ∧ d.depth ≤ n ∧ d.Every Datum.IsWritable

theorem mapM_shows {f : Value → Answer Datum} {n : Nat}
    (hf : ∀ {v : Value} {d : Datum}, s.Unfolds v d → d.Every Datum.IsReadable → Shows n d (f v)) :
    ∀ {vs : List Value} {ds : List Datum}, List.Forall₂ s.Unfolds vs ds →
      Datum.EveryOf Datum.IsReadable ds → ∀ ds', vs.mapM f = .ok ds' ↔
        ds' = ds ∧ Datum.deepest ds ≤ n ∧ Datum.EveryOf Datum.IsWritable ds
  | [], _, .nil, _, ds' => by
    simp [Datum.deepest, Datum.EveryOf, pure, Except.pure, eq_comm]
  | v :: vs, d :: ds, .cons hv hvs, hd, ds' => by
    have hshows := hf hv hd.1
    have hrest := mapM_shows hf hvs hd.2
    simp only [List.mapM_cons, bind_eq_ok_iff, hshows _, hrest, Datum.deepest, Datum.EveryOf,
      Nat.max_le]
    constructor
    · rintro ⟨_, ⟨rfl, hdepth, hw⟩, _, ⟨rfl, hdepths, hws⟩, ⟨⟩⟩
      exact ⟨rfl, ⟨hdepth, hdepths⟩, hw, hws⟩
    · rintro ⟨rfl, ⟨hdepth, hdepths⟩, hw, hws⟩
      exact ⟨d, ⟨rfl, hdepth, hw⟩, ds, ⟨rfl, hdepths, hws⟩, rfl⟩

theorem viewWithin_shows :
    ∀ (n : Nat) {v : Value} {d : Datum}, s.Unfolds v d → d.Every Datum.IsReadable →
      Shows n d (s.viewWithin n v)
  | n, v, d, h, hd, d' => by
    cases h with
    | @pair r head tail hr hh ht =>
      cases n with
      | zero => simp [viewWithin, Datum.depth, Datum.depthIn]
      | succ n =>
        obtain ⟨heads, last, hspine, hheads, hlast⟩ := (Unfolds.pair hr hh ht).spine
        have hparts := (Datum.every_iff_spine _ _).1 hd
        have hmap := mapM_shows (viewWithin_shows n) hheads hparts.1
        have hend := viewWithin_shows n hlast hparts.2
        have hdepth : (Datum.pair head tail).depth
            = (Datum.pair head tail).depthIn true + 1 := by
          simp [Datum.depth, Datum.depthIn]
        simp only [viewWithin, hspine, bind_eq_ok_iff, hmap, hend _, hdepth,
          Datum.depthIn_true_eq, Datum.every_iff_spine Datum.IsWritable (.pair head tail),
          Nat.add_le_add_iff_right, Nat.max_le, Except.ok.injEq]
        constructor
        · rintro ⟨_, ⟨rfl, hheads, hwheads⟩, _, ⟨rfl, hlast, hwlast⟩, rfl⟩
          exact ⟨Datum.ofList_spine _, ⟨hheads, hlast⟩, hwheads, hwlast⟩
        · rintro ⟨rfl, ⟨hheads, hlast⟩, hwheads, hwlast⟩
          exact ⟨_, ⟨rfl, hheads, hwheads⟩, _, ⟨rfl, hlast, hwlast⟩, Datum.ofList_spine _⟩
    | @vec r ds hds =>
      cases n with
      | zero => simp [viewWithin, Datum.depth, Datum.depthIn]
      | succ n =>
        have hmap := mapM_shows (viewWithin_shows n) hds hd
        simp only [viewWithin, bind_eq_ok_iff, hmap, Datum.depth, Datum.depthIn, Datum.Every,
          Nat.add_le_add_iff_right, Except.ok.injEq]
        constructor
        · rintro ⟨_, ⟨rfl, hdepth, hw⟩, rfl⟩
          exact ⟨rfl, hdepth, hw⟩
        · rintro ⟨rfl, hdepth, hw⟩
          exact ⟨_, ⟨rfl, hdepth, hw⟩, rfl⟩
    | int i =>
      simp only [viewWithin, Datum.depth, Datum.depthIn, Datum.Every, Datum.IsWritable]
      split <;> rename_i hw <;> simp [hw, eq_comm]
    | nil | bool _ | str _ | sym _ =>
      simp [viewWithin, Datum.depth, Datum.depthIn, Datum.Every, Datum.IsWritable, eq_comm]
    | _ => exact hd.elim

/-- What has a text nests no deeper than the limit and holds no integer that is too long. -/
theorem text_eq_ok_iff {depth : Nat} {v : Value} {d : Datum} {t : String} (h : s.Unfolds v d)
    (hd : d.Every Datum.IsReadable) :
    s.text depth v = .ok t ↔
      t = d.text .plain ∧ d.depth ≤ depth ∧ d.Every Datum.IsWritable := by
  have hshows := viewWithin_shows depth h hd
  unfold text textIn
  constructor
  · intro ht
    cases hview : s.viewWithin depth v with
    | error x =>
      rw [hview] at ht
      cases ht
    | ok d' =>
      obtain ⟨rfl, hallowed⟩ := (hshows d').1 hview
      rw [hview] at ht
      cases ht
      exact ⟨rfl, hallowed⟩
  · rintro ⟨rfl, hallowed⟩
    rw [(hshows d).2 ⟨rfl, hallowed⟩]
    rfl

/-- Equality and text agree on trees of readable leaves, however their cells are shared. Equal
values have one text or fail alike to have one, and what has the text of another value is equal to
it. A value has a text unless it nests deeper than the stack allows or holds an integer that is too
long. All of this is so for every depth that a text may have. -/
theorem texts_agree_with_equality {a b : Value} {da db : Datum} (ha : s.Unfolds a da)
    (hb : s.Unfolds b db) (hra : da.Every Datum.IsReadable) (hrb : db.Every Datum.IsReadable) :
    (∀ limit, da.depth < limit → ∃ answer, s.equalWithin limit a b = .ok answer)
      ∧ (∀ limit depth answer, s.equalWithin limit a b = .ok answer →
          (answer = true → s.text depth a = s.text depth b)
            ∧ ∀ t, s.text depth a = .ok t → (s.text depth b = .ok t ↔ answer = true))
      ∧ ∀ depth, (∃ t, s.text depth a = .ok t)
          ↔ da.depth ≤ depth ∧ da.Every Datum.IsWritable := by
  have hself : da.alike da = true := (Datum.alike_iff hra).2 rfl
  have hanswers (limit : Nat) := equalWithin_answers limit ha hb hself
  refine ⟨fun limit hlimit => ⟨_, (hanswers limit).total hlimit⟩, fun limit depth answer h => ?_,
    fun depth => ?_⟩
  · have hanswer : answer = true ↔ da = db := by
      rw [(hanswers limit).sound h, Datum.alike_iff hra]
    have hsame : answer = true → s.text depth a = s.text depth b := fun htrue => by
      rw [← hanswer.1 htrue] at hb
      exact congrArg (Except.map (Datum.text .plain)) (viewWithin_congr depth ha hb)
    refine ⟨hsame, fun t hta => ⟨fun htb => ?_, fun htrue => (hsame htrue).symm.trans hta⟩⟩
    have hta := ((text_eq_ok_iff ha hra).1 hta).1
    have htb := ((text_eq_ok_iff hb hrb).1 htb).1
    exact hanswer.2 (Datum.text_injective hra hrb (hta.symm.trans htb))
  · simp only [text_eq_ok_iff ha hra, exists_eq_left]

/-- Two lists of one integer that share no pair. -/
def copies (i : Int) : Store where
  pairs := #[⟨.int i, .nil⟩, ⟨.int i, .nil⟩]

/-- Such lists are equal. With a short integer they have one text, with a long one they have
none. -/
theorem texts_agree_with_equality_copies :
    (copies 1).text 1 (.pair 0) = (copies 1).text 1 (.pair 1)
      ∧ (∃ t, (copies 1).text 1 (.pair 0) = .ok t)
      ∧ (copies (Nat.pow 10 Decimal.digitLimit)).equalWithin 2 (.pair 0) (.pair 1) = .ok true
      ∧ ¬∃ t, (copies (Nat.pow 10 Decimal.digitLimit)).text 1 (.pair 0) = .ok t := by
  have hunfolds (i : Int) : (copies i).Unfolds (.pair 0) (.pair (.int i) .nil) :=
    .pair Nat.zero_lt_two (.int i) .nil
  have hunfolds' (i : Int) : (copies i).Unfolds (.pair 1) (.pair (.int i) .nil) :=
    .pair Nat.one_lt_two (.int i) .nil
  have hreadable (i : Int) : (Datum.pair (.int i) .nil).Every Datum.IsReadable :=
    ⟨trivial, trivial⟩
  have hequal (i : Int) : (copies i).equalWithin 2 (.pair 0) (.pair 1) = .ok true := by
    simp [equalWithin, walkEqual, copies, pair, Value.atomEqual]
  have hagree (i : Int) :=
    texts_agree_with_equality (hunfolds i) (hunfolds' i) (hreadable i) (hreadable i)
  have htext (i : Int) : (∃ t, (copies i).text 1 (.pair 0) = .ok t)
      ↔ i.natAbs < Nat.pow 10 Decimal.digitLimit := by
    rw [(hagree i).2.2 1, ← Decimal.isWritable_iff]
    simp [Datum.Every, Datum.IsWritable, Datum.depth, Datum.depthIn]
  refine ⟨((hagree 1).2.1 2 1 true (hequal 1)).1 rfl, (htext 1).2 ?_, hequal _, fun h => ?_⟩
  · rw [Nat.pow_eq]
    exact Nat.one_lt_pow (by decide) (by decide)
  · have hlt := (htext _).1 h
    rw [Int.natAbs_natCast] at hlt
    exact Nat.lt_irrefl _ hlt

end Store

end LispCore

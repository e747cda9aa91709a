import MarkupTemplate.Proofs.Text.Bytes
import MarkupTemplate.Value.Basic

/-!
# The order of values

Values of different kinds are ordered by kind, and those of one kind by what they hold: texts by
their bytes, lists item by item, records entry by entry in the order in which these are kept. This
is a total order, and only equal values are equal in it. Values nest, so most laws need themselves
for the values inside.

Results:
* `compare_swap`: the order seen from the other side.
* `lt_iff_before`: which values come before which.
* `lt_trans`: what comes before something comes before all after it.
* `compare_is_total_order`: all the laws of a total order, and which order it is.
-/

namespace MarkupTemplate

namespace Value

/-- What comes first is less. -/
instance : LT Value := ltOfOrd

theorem lt_iff_compare {a b : Value} : a < b ↔ a.compare b = .lt := Iff.rfl

/-! ## Seen from the other side -/

mutual

/-- **The order from the other side** is the order reversed. -/
theorem compare_swap : ∀ a b : Value, b.compare a = (a.compare b).swap
  | real _, b | integer _, b | string _, b | boolean _, b | null, b => by
    cases b <;> exact Std.OrientedOrd.eq_swap
  | array xs, b => by
    cases b with
    | array ys => exact compareItems_swap xs ys
    | _ => exact Std.OrientedOrd.eq_swap
  | hash es, b => by
    cases b with
    | hash fs => exact compareEntries_swap es fs
    | _ => exact Std.OrientedOrd.eq_swap

theorem compareItems_swap : ∀ xs ys : List Value, compareItems ys xs = (compareItems xs ys).swap
  | [], [] | [], _ :: _ | _ :: _, [] => rfl
  | x :: xs, y :: ys => by
    rw [compareItems, compareItems, Ordering.swap_then, compare_swap x y, compareItems_swap xs ys]

theorem compareEntries_swap : ∀ es fs : List (Value × Value),
    compareEntries fs es = (compareEntries es fs).swap
  | [], [] | [], _ :: _ | _ :: _, [] => rfl
  | (k, v) :: es, (l, w) :: fs => by
    rw [compareEntries, compareEntries, Ordering.swap_then, Ordering.swap_then, compare_swap k l,
      compare_swap v w, compareEntries_swap es fs]

end

/-! ## What comes before what -/

/-- How values are ordered. -/
inductive Before : Value → Value → Prop
  /-- Kinds come one after the other. -/
  | kind {a b : Value} (h : a.rank < b.rank) : Before a b
  /-- Numbers that are no integers are ordered by the bytes of their texts. -/
  | real {s t : String} (h : Text.bytes s < Text.bytes t) : Before (real s) (real t)
  /-- Integers are ordered as numbers. -/
  | integer {m n : Int64} (h : m.toInt < n.toInt) : Before (integer m) (integer n)
  /-- Texts are ordered by their bytes. -/
  | string {s t : String} (h : Text.bytes s < Text.bytes t) : Before (string s) (string t)
  /-- What is false comes before what is true. -/
  | boolean : Before (boolean false) (boolean true)
  /-- Lists are in lexicographic order. -/
  | array {xs ys : List Value} (h : List.Lex (· < ·) xs ys) : Before (array xs) (array ys)
  /-- So are records, where an entry is its key and then what it holds. -/
  | hash {es fs : List (Value × Value)} (h : List.Lex (Prod.Lex (· < ·) (· < ·)) es fs) :
    Before (hash es) (hash fs)

theorem Before.rank_le {a b : Value} (h : a.Before b) : a.rank ≤ b.rank := by
  cases h with
  | kind hlt => exact Nat.le_of_lt hlt
  | _ => exact Nat.le_refl _

/-- Lists are ordered by the first items that differ. -/
theorem compareItems_eq_lt_iff {xs ys : List Value} :
    compareItems xs ys = .lt ↔ List.Lex (· < ·) xs ys := by
  induction xs generalizing ys with
  | nil =>
    cases ys with
    | nil => exact iff_of_false nofun nofun
    | cons y ys => exact iff_of_true rfl .nil
  | cons x xs ih =>
    cases ys with
    | nil => exact iff_of_false nofun nofun
    | cons y ys =>
      rw [compareItems, Ordering.then_eq_lt, compare_eq_iff, ih]
      constructor
      · rintro (h | ⟨rfl, h⟩)
        · exact .rel h
        · exact .cons h
      · rintro (_ | h | h)
        · exact .inl h
        · exact .inr ⟨rfl, h⟩

/-- Records are ordered by the first entries that differ, and these by their keys first. -/
theorem compareEntries_eq_lt_iff {es fs : List (Value × Value)} :
    compareEntries es fs = .lt ↔ List.Lex (Prod.Lex (· < ·) (· < ·)) es fs := by
  induction es generalizing fs with
  | nil =>
    cases fs with
    | nil => exact iff_of_false nofun nofun
    | cons f fs => exact iff_of_true rfl .nil
  | cons e es ih =>
    cases fs with
    | nil => exact iff_of_false nofun nofun
    | cons f fs =>
      obtain ⟨k, v⟩ := e
      obtain ⟨l, w⟩ := f
      rw [compareEntries, Ordering.then_eq_lt, Ordering.then_eq_lt, compare_eq_iff, compare_eq_iff,
        ih]
      constructor
      · rintro (h | ⟨rfl, h | ⟨rfl, h⟩⟩)
        · exact .rel (.left _ _ h)
        · exact .rel (.right _ h)
        · exact .cons h
      · rintro (_ | h | h)
        · cases h with
          | left _ _ h => exact .inl h
          | right _ h => exact .inr ⟨rfl, .inl h⟩
        · exact .inr ⟨rfl, .inr ⟨rfl, h⟩⟩

/-- **Which values come before which.** -/
theorem lt_iff_before {a b : Value} : a < b ↔ a.Before b := by
  rw [lt_iff_compare]
  constructor
  · intro h
    cases a with
    | real s =>
      cases b with
      | real t => exact .real (Text.compare_eq_lt_iff.1 h)
      | _ => exact .kind (Nat.compare_eq_lt.1 h)
    | integer m =>
      cases b with
      | integer n => exact .integer (Int64.lt_iff_toInt_lt.1 (Std.compare_eq_lt.1 h))
      | _ => exact .kind (Nat.compare_eq_lt.1 h)
    | string s =>
      cases b with
      | string t => exact .string (Text.compare_eq_lt_iff.1 h)
      | _ => exact .kind (Nat.compare_eq_lt.1 h)
    | boolean p =>
      cases b with
      | boolean q =>
        obtain ⟨rfl, rfl⟩ : p = false ∧ q = true := by revert h; cases p <;> cases q <;> decide
        exact .boolean
      | _ => exact .kind (Nat.compare_eq_lt.1 h)
    | array xs =>
      cases b with
      | array ys => exact .array (compareItems_eq_lt_iff.1 h)
      | _ => exact .kind (Nat.compare_eq_lt.1 h)
    | hash es =>
      cases b with
      | hash fs => exact .hash (compareEntries_eq_lt_iff.1 h)
      | _ => exact .kind (Nat.compare_eq_lt.1 h)
    | null => cases b <;> exact .kind (Nat.compare_eq_lt.1 h)
  · intro h
    cases h with
    | kind h =>
      cases a <;> cases b <;> first
        | exact Nat.compare_eq_lt.2 h
        | exact absurd h (Nat.lt_irrefl _)
    | real h | string h => exact Text.compare_eq_lt_iff.2 h
    | integer h => exact Std.compare_eq_lt.2 (Int64.lt_iff_toInt_lt.2 h)
    | boolean => rfl
    | array h => exact compareItems_eq_lt_iff.2 h
    | hash h => exact compareEntries_eq_lt_iff.2 h

/-! ## Transitivity -/

/-- A lexicographic order of lists is transitive where that of the items is. -/
theorem lex_trans_of_mem {α : Type} {r : α → α → Prop} {xs ys zs : List α}
    (h : ∀ x ∈ xs, ∀ y z, r x y → r y z → r x z) (hxy : List.Lex r xs ys) (hyz : List.Lex r ys zs) :
    List.Lex r xs zs := by
  induction hxy generalizing zs with
  | nil =>
    cases hyz with
    | rel _ => exact .nil
    | cons _ => exact .nil
  | rel hx =>
    cases hyz with
    | rel hy => exact .rel (h _ List.mem_cons_self _ _ hx hy)
    | cons _ => exact .rel hx
  | cons _ ih =>
    cases hyz with
    | rel hy => exact .rel hy
    | cons hrest => exact .cons (ih (fun x hx => h x (List.mem_cons_of_mem _ hx)) hrest)

/-- So is that of pairs. -/
theorem prod_lex_trans {α : Type} {r : α → α → Prop} {p q u : α × α}
    (hfst : r p.1 q.1 → r q.1 u.1 → r p.1 u.1) (hsnd : r p.2 q.2 → r q.2 u.2 → r p.2 u.2)
    (hpq : Prod.Lex r r p q) (hqu : Prod.Lex r r q u) : Prod.Lex r r p u := by
  cases hpq with
  | left _ _ h =>
    cases hqu with
    | left _ _ h' => exact .left _ _ (hfst h h')
    | right _ _ => exact .left _ _ h
  | right _ h =>
    cases hqu with
    | left _ _ h' => exact .left _ _ h'
    | right _ h' => exact .right _ (hsnd h h')

/-- The values that a list or a record is made of. -/
def parts : Value → List Value
  | array xs => xs
  | hash es => es.flatMap fun e => [e.1, e.2]
  | _ => []

theorem mem_parts_hash {es : List (Value × Value)} {e : Value × Value} (he : e ∈ es) :
    e.1 ∈ (hash es).parts ∧ e.2 ∈ (hash es).parts :=
  ⟨List.mem_flatMap.2 ⟨e, he, List.mem_pair.2 (.inl rfl)⟩,
    List.mem_flatMap.2 ⟨e, he, List.mem_pair.2 (.inr rfl)⟩⟩

/-- What an entry is made of is smaller than the entries. -/
theorem sizeOf_lt_of_mem_entries {α : Type} [SizeOf α] {es : List (α × α)} {x : α}
    (hx : x ∈ es.flatMap fun e => [e.1, e.2]) : sizeOf x < sizeOf es := by
  obtain ⟨⟨k, v⟩, he, hx⟩ := List.mem_flatMap.1 hx
  have hes := List.sizeOf_lt_of_mem he
  rw [Prod.mk.sizeOf_spec] at hes
  rcases List.mem_pair.1 hx with rfl | rfl <;> omega

theorem sizeOf_lt_of_mem_parts {a x : Value} (hx : x ∈ a.parts) : sizeOf x < sizeOf a := by
  cases a with
  | array xs =>
    have := List.sizeOf_lt_of_mem (show x ∈ xs from hx)
    rw [array.sizeOf_spec]
    omega
  | hash es =>
    have := sizeOf_lt_of_mem_entries hx
    rw [hash.sizeOf_spec]
    omega
  | _ => cases hx

/-- What holds of a value if it holds of its parts holds of all values. -/
theorem induction_parts {P : Value → Prop} (h : ∀ a : Value, (∀ x ∈ a.parts, P x) → P a)
    (a : Value) : P a :=
  h a fun x _ => induction_parts h x
termination_by sizeOf a
decreasing_by exact sizeOf_lt_of_mem_parts ‹_›

/-- **What comes before something comes before all after it.** -/
theorem lt_trans {a b c : Value} (hab : a < b) (hbc : b < c) : a < c := by
  induction a using induction_parts generalizing b c with
  | h a ih =>
  rw [lt_iff_before] at hab hbc ⊢
  cases hab with
  | kind hlt => exact .kind (Nat.lt_of_lt_of_le hlt hbc.rank_le)
  | real h =>
    cases hbc with
    | kind hlt => exact .kind hlt
    | real h' => exact .real (List.lt_trans h h')
  | integer h =>
    cases hbc with
    | kind hlt => exact .kind hlt
    | integer h' => exact .integer (Int.lt_trans h h')
  | string h =>
    cases hbc with
    | kind hlt => exact .kind hlt
    | string h' => exact .string (List.lt_trans h h')
  | boolean =>
    cases hbc with
    | kind hlt => exact .kind hlt
  | array h =>
    cases hbc with
    | kind hlt => exact .kind hlt
    | array h' => exact .array (lex_trans_of_mem (fun x hx _ _ => ih x hx) h h')
  | hash h =>
    cases hbc with
    | kind hlt => exact .kind hlt
    | hash h' =>
      refine .hash (lex_trans_of_mem (fun e he _ _ => ?_) h h')
      obtain ⟨hkey, hvalue⟩ := mem_parts_hash he
      exact prod_lex_trans (ih e.1 hkey) (ih e.2 hvalue)

/-! ## A total order -/

/-! Values can be used wherever keys with an order are asked for. -/

instance : Std.OrientedOrd Value where
  eq_swap := compare_swap _ _

instance : Std.TransOrd Value where
  isLE_trans := by
    intro a b c hab hbc
    rw [Ordering.isLE_iff_eq_lt_or_eq_eq] at hab hbc ⊢
    rcases hab with hab | hab
    · rcases hbc with hbc | hbc
      · exact .inl (lt_trans hab hbc)
      · exact .inl (compare_eq_iff.1 hbc ▸ hab)
    · obtain rfl := compare_eq_iff.1 hab
      exact hbc

instance : Std.LawfulEqOrd Value where
  compare_self := compare_self _
  eq_of_compare := eq_of_compare_eq

/-- **Comparison is a total order.** Either the first of two values is less, or they are equal, or
the second is less, and never two of these. Compared the other way round, the result is reversed.
What is less than something is less than all that this is less than. Values compare equal if and
only if they are equal. They are ordered by kind, and by what they hold where the kinds are the
same. -/
theorem compare_is_total_order (a b c : Value) :
    (a < b ∧ a ≠ b ∧ ¬b < a ∨ ¬a < b ∧ a = b ∧ ¬b < a ∨ ¬a < b ∧ a ≠ b ∧ b < a) ∧
      b.compare a = (a.compare b).swap ∧
      (a < b → b < c → a < c) ∧
      (a.compare b = .eq ↔ a = b) ∧
      (a.compare b = .lt ↔ a.Before b) := by
  refine ⟨?_, compare_swap a b, lt_trans, compare_eq_iff, lt_iff_before⟩
  have hswap := compare_swap a b
  simp only [lt_iff_compare, ne_eq, ← compare_eq_iff, hswap]
  cases a.compare b <;> decide

/-- A shorter list comes first, then texts with greater bytes, then records. -/
theorem compare_is_total_order_nested :
    let a : Value := .array [.integer 2]
    let b : Value := .array [.integer 2, .string "z"]
    let c : Value := .array [.integer 2, .string "é"]
    let d : Value := .hash [(.string "k", a)]
    a < b ∧ b < c ∧ c < d ∧ a < d := by
  intro a b c d
  have hab : a < b := lt_iff_compare.2 (by decide +kernel)
  have hbc : b < c := lt_iff_compare.2 (by decide +kernel)
  have hcd : c < d := lt_iff_compare.2 (by decide +kernel)
  obtain ⟨-, -, hac, -, -⟩ := compare_is_total_order a b c
  obtain ⟨-, -, had, -, -⟩ := compare_is_total_order a c d
  exact ⟨hab, hbc, hcd, had (hac hab hbc) hcd⟩

end Value

end MarkupTemplate

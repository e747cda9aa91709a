import Mathlib.Data.String.Basic
import Mathlib.Tactic.SplitIfs

/-!
# Texts as bytes

In UTF-8 a character is spelled in base 64, with a mark on each byte. The mark on the first byte
says how many bytes there are, and more bytes have a greater mark. So the bytes of a greater
character are greater at the first place where they differ, and texts are ordered by their bytes as
they are by their characters.

Results:
* `spell_append_lt`: greater numbers have greater spellings.
* `utf8EncodeChar_append_lt`: greater characters have greater bytes.
* `lt_iff_bytes`, `compare_eq_lt_iff`: texts are ordered by their bytes.
-/

namespace MarkupTemplate.Text

/-! ## Numbers in base 64 -/

/-- A number in `k + 1` bytes, of which the first carries the mark `lead`, and the others 128. -/
def spell (lead : Nat) : (k n : Nat) → List UInt8
  | 0, n => [UInt8.ofNat (n + lead)]
  | k + 1, n => spell lead k (n / 64) ++ [UInt8.ofNat (n % 64 + 128)]

theorem cons_lt_cons_of_lt {m n : Nat} (h : m < n) (hn : n < 256) (xs ys : List UInt8) :
    UInt8.ofNat m :: xs < UInt8.ofNat n :: ys :=
  List.cons_lt_cons_iff.2 (.inl ((UInt8.ofNat_lt_iff_lt (Nat.lt_trans h hn) hn).2 h))

theorem append_lt_append {xs ys : List UInt8} (h : xs < ys) (zs : List UInt8) :
    zs ++ xs < zs ++ ys := by
  induction zs with
  | nil => exact h
  | cons z zs ih => exact List.cons_lt_cons_iff.2 (.inr ⟨rfl, ih⟩)

/-- **Greater numbers have greater spellings**, whatever follows. -/
theorem spell_append_lt {lead k m n : Nat} (h : m < n) (hn : n / 64 ^ k + lead < 256)
    (xs ys : List UInt8) : spell lead k m ++ xs < spell lead k n ++ ys := by
  induction k generalizing m n xs ys with
  | zero =>
    rw [Nat.pow_zero, Nat.div_one] at hn
    exact cons_lt_cons_of_lt (Nat.add_lt_add_right h lead) hn xs ys
  | succ k ih =>
    rw [spell, spell, List.append_assoc, List.append_assoc]
    have hdigits : m / 64 < n / 64 ∨ m / 64 = n / 64 ∧ m % 64 < n % 64 := by omega
    rcases hdigits with hlt | ⟨heq, hlt⟩
    · rw [Nat.pow_succ', ← Nat.div_div_eq_div_mul] at hn
      exact ih hlt hn _ _
    · rw [heq]
      exact append_lt_append (cons_lt_cons_of_lt (by omega) (by omega) xs ys) _

/-- A spelling starts with its mark. -/
theorem exists_spell_eq_cons (lead k n : Nat) :
    ∃ rest, spell lead k n = UInt8.ofNat (n / 64 ^ k + lead) :: rest := by
  induction k generalizing n with
  | zero => exact ⟨[], by rw [spell, Nat.pow_zero, Nat.div_one]⟩
  | succ k ih =>
    obtain ⟨rest, hrest⟩ := ih (n / 64)
    refine ⟨rest ++ [UInt8.ofNat (n % 64 + 128)], ?_⟩
    rw [spell, hrest, Nat.div_div_eq_div_mul, ← Nat.pow_succ', List.cons_append]

/-- A spelling with a greater first byte is greater. -/
theorem spell_append_lt_of_lead {lead lead' k k' m n : Nat}
    (h : m / 64 ^ k + lead < n / 64 ^ k' + lead') (hn : n / 64 ^ k' + lead' < 256)
    (xs ys : List UInt8) : spell lead k m ++ xs < spell lead' k' n ++ ys := by
  obtain ⟨rest, hrest⟩ := exists_spell_eq_cons lead k m
  obtain ⟨rest', hrest'⟩ := exists_spell_eq_cons lead' k' n
  rw [hrest, hrest']
  exact cons_lt_cons_of_lt h hn _ _

/-! ## Characters -/

theorem val_toNat_lt (c : Char) : c.val.toNat < 1114112 := by
  rcases c.valid with h | ⟨-, h⟩ <;> omega

/-- A character is spelled in one to four bytes. -/
theorem utf8EncodeChar_eq_spell (c : Char) :
    String.utf8EncodeChar c =
      if c.val.toNat ≤ 127 then spell 0 0 c.val.toNat
      else if c.val.toNat ≤ 2047 then spell 192 1 c.val.toNat
      else if c.val.toNat ≤ 65535 then spell 224 2 c.val.toNat
      else spell 240 3 c.val.toNat := by
  have hlt := val_toNat_lt c
  unfold String.utf8EncodeChar
  dsimp only
  generalize c.val.toNat = n at hlt ⊢
  have hthird : n / 64 / 64 = n / 4096 := Nat.div_div_eq_div_mul n 64 64
  have hfirst : n / 4096 / 64 = n / 262144 := Nat.div_div_eq_div_mul n 4096 64
  split_ifs
  · rfl
  · rw [Nat.mod_eq_of_lt (a := n / 64) (by omega)]
    rfl
  · rw [Nat.mod_eq_of_lt (a := n / 4096) (by omega), ← hthird]
    rfl
  · rw [Nat.mod_eq_of_lt (a := n / 262144) (by omega), ← hfirst, ← hthird]
    rfl

/-- **Greater characters have greater bytes**, whatever follows. -/
theorem utf8EncodeChar_append_lt {c d : Char} (h : c < d) (xs ys : List UInt8) :
    String.utf8EncodeChar c ++ xs < String.utf8EncodeChar d ++ ys := by
  have hlt : c.val.toNat < d.val.toNat := h
  have hd := val_toNat_lt d
  rw [utf8EncodeChar_eq_spell, utf8EncodeChar_eq_spell]
  split_ifs <;> first
    | exact spell_append_lt hlt (by omega) xs ys
    | exact spell_append_lt_of_lead (by omega) (by omega) xs ys

/-! ## Texts -/

/-- The bytes of a text. -/
def bytes (s : String) : List UInt8 :=
  s.toUTF8.data.toList

theorem bytes_eq_flatMap (s : String) : bytes s = s.toList.flatMap String.utf8EncodeChar := by
  rw [bytes, String.toUTF8_eq_toByteArray, ← String.utf8Encode_toList, List.utf8Encode,
    List.toList_data_toByteArray]

theorem flatMap_lt_flatMap {cs ds : List Char} (h : cs < ds) :
    cs.flatMap String.utf8EncodeChar < ds.flatMap String.utf8EncodeChar := by
  induction h with
  | @nil d ds =>
    obtain ⟨b, bs, hd⟩ := List.exists_cons_of_ne_nil (String.utf8EncodeChar_ne_nil (c := d))
    rw [List.flatMap_cons, hd]
    exact List.nil_lt_cons b _
  | rel h => exact utf8EncodeChar_append_lt h _ _
  | cons _ ih => exact append_lt_append ih _

/-- **Texts are ordered by their bytes.** -/
theorem lt_iff_bytes {s t : String} : s < t ↔ bytes s < bytes t := by
  have hlt : ∀ {s t : String}, s < t → bytes s < bytes t := by
    intro s t h
    rw [bytes_eq_flatMap, bytes_eq_flatMap]
    exact flatMap_lt_flatMap (String.lt_iff.1 h)
  refine ⟨hlt, fun h => ?_⟩
  rcases lt_trichotomy s t with hst | rfl | hts
  · exact hst
  · exact absurd h (List.lt_irrefl _)
  · exact absurd h (List.lt_asymm (hlt hts))

theorem compare_eq_lt_iff {s t : String} : compare s t = .lt ↔ bytes s < bytes t :=
  compareOfLessAndEq_eq_lt.trans lt_iff_bytes

end MarkupTemplate.Text

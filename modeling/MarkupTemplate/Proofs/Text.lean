import MarkupTemplate.Text
import Mathlib.Data.List.TakeWhile

/-!
# Where readers stop

A reader takes characters as long as they are its own. What it takes of two texts in a row it takes
of the first one, if the second one does not go on with such a character (`Stops`).

Results:
* `takeWhile_append`, `dropWhile_append`: a reader that stops between two texts.
* `prefix_of_prefix_append`: what is its own at the start of two texts is at the start of the first.
* `cut?_append`: a mark is found where it does not start before.
* `segments_intercalate`: names without dots are read back with dots between them.
* `unsigned?_eq_none`: what is no digit stands in no numeral.
* `unsigned?_toDigits`: the digits of a number are read back.
-/

namespace MarkupTemplate

namespace Text

/-- The text does not go on with a character that satisfies `p`. -/
def Stops (p : Char → Bool) (rest : List Char) : Prop :=
  ∀ c ∈ rest.head?, p c = false

variable {p : Char → Bool}

theorem stops_nil (p : Char → Bool) : Stops p [] := nofun

theorem stops_cons {c : Char} (h : p c = false) (rest : List Char) : Stops p (c :: rest) :=
  fun _ hc => Option.some.inj hc ▸ h

/-- A reader that none of a text belongs to stops there, if it stops after it. -/
theorem stops_append {cs rest : List Char} (hcs : ∀ c ∈ cs, p c = false) (hrest : Stops p rest) :
    Stops p (cs ++ rest) := by
  cases cs with
  | nil => exact hrest
  | cons c cs => exact stops_cons (hcs c List.mem_cons_self) (cs ++ rest)

/-- A reader that stops at a character takes all of a text without it. -/
theorem all_ne_of_not_mem {q : Char} {cs : List Char} (h : q ∉ cs) :
    ∀ c ∈ cs, decide (c ≠ q) = true := by
  intro c hc
  simpa using fun e : c = q => h (e ▸ hc)

theorem takeWhile_append {rest : List Char} (hrest : Stops p rest) (cs : List Char) :
    (cs ++ rest).takeWhile p = cs.takeWhile p := by
  induction cs with
  | nil =>
    cases rest with
    | nil => rfl
    | cons c rest => exact List.takeWhile_cons_of_neg (by simp [hrest c rfl])
  | cons c cs ih =>
    rw [List.cons_append, List.takeWhile_cons, List.takeWhile_cons, ih]

theorem dropWhile_append {rest : List Char} (hrest : Stops p rest) (cs : List Char) :
    (cs ++ rest).dropWhile p = cs.dropWhile p ++ rest := by
  induction cs with
  | nil =>
    cases rest with
    | nil => rfl
    | cons c rest => exact List.dropWhile_cons_of_neg (by simp [hrest c rfl])
  | cons c cs ih =>
    rw [List.cons_append, List.dropWhile_cons, List.dropWhile_cons, ih]
    split <;> rfl

theorem takeWhile_append_of_all {cs rest : List Char} (hcs : ∀ c ∈ cs, p c = true)
    (hrest : Stops p rest) : (cs ++ rest).takeWhile p = cs := by
  rw [takeWhile_append hrest, List.takeWhile_eq_self_iff.2 hcs]

theorem dropWhile_append_of_all {cs rest : List Char} (hcs : ∀ c ∈ cs, p c = true)
    (hrest : Stops p rest) : (cs ++ rest).dropWhile p = rest := by
  rw [dropWhile_append hrest, List.dropWhile_eq_nil_iff.2 hcs, List.nil_append]

/-- What consists of own characters at the start of two texts is at the start of the first one. -/
theorem prefix_of_prefix_append {w cs rest : List Char} (hw : ∀ c ∈ w, p c = true)
    (hrest : Stops p rest) (h : w <+: cs ++ rest) : w <+: cs := by
  rcases List.prefix_or_prefix_of_prefix h (List.prefix_append cs rest) with h' | ⟨u, rfl⟩
  · exact h'
  · have hu : u <+: rest := (List.prefix_append_right_inj cs).1 h
    cases u with
    | nil => simp
    | cons c u =>
      obtain ⟨r, rfl⟩ := hu
      have hc : p c = true := hw c (by simp)
      rw [hrest c rfl] at hc
      cases hc

/-! ## Marks -/

/-- A mark that stands in a text stands there a first time. -/
theorem exists_first {mark cs : List Char} (hmark : mark ≠ []) (h : mark <:+: cs) :
    ∃ before after, cs = before ++ (mark ++ after) ∧ ¬mark <:+: before := by
  induction cs with
  | nil => exact absurd (List.infix_nil.1 h) hmark
  | cons c cs ih =>
    by_cases hp : mark <+: c :: cs
    · obtain ⟨after, hafter⟩ := hp
      exact ⟨[], after, hafter.symm, fun hi => hmark (List.infix_nil.1 hi)⟩
    · rcases List.infix_cons_iff.1 h with hp' | hi
      · exact absurd hp' hp
      obtain ⟨before, after, rfl, hbefore⟩ := ih hi
      refine ⟨c :: before, after, rfl, ?_⟩
      intro hi
      rcases List.infix_cons_iff.1 hi with hp' | hi
      · exact hp (hp'.trans (List.prefix_append (c :: before) _))
      · exact hbefore hi

/-- A text without dots is its only segment. -/
theorem segments_of_not_mem {cs : List Char} (h : '.' ∉ cs) : segments cs = [cs] := by
  induction cs with
  | nil => rfl
  | cons c cs ih =>
    have hc : c ≠ '.' := fun e => h (e ▸ List.mem_cons_self)
    unfold segments
    rw [if_neg hc, ih fun hm => h (List.mem_cons_of_mem c hm)]

theorem segments_append {s : List Char} (h : '.' ∉ s) (cs : List Char) :
    segments (s ++ '.' :: cs) = s :: segments cs := by
  induction s with
  | nil => exact if_pos rfl
  | cons c s ih =>
    have hc : c ≠ '.' := fun e => h (e ▸ List.mem_cons_self)
    rw [List.cons_append, segments, if_neg hc, ih fun hm => h (List.mem_cons_of_mem c hm)]

/-- **Names without dots are read back** with dots between them. -/
theorem segments_intercalate {names : List (List Char)} (hne : names ≠ [])
    (h : ∀ s ∈ names, '.' ∉ s) : segments (['.'].intercalate names) = names := by
  induction names with
  | nil => exact absurd rfl hne
  | cons s names ih =>
    have hs : '.' ∉ s := h s List.mem_cons_self
    cases names with
    | nil => rw [List.intercalate_singleton, segments_of_not_mem hs]
    | cons t names =>
      rw [List.intercalate_cons_cons, List.append_assoc, List.singleton_append,
        segments_append hs, ih (List.cons_ne_nil t names) fun x hx =>
          h x (List.mem_cons_of_mem s hx)]

theorem cut?_eq_none {mark cs : List Char} (h : ¬mark <:+: cs) : cut? mark cs = none := by
  induction cs with
  | nil =>
    have hne : mark ≠ [] := fun hm => h (hm ▸ List.infix_rfl)
    exact if_neg hne
  | cons c cs ih =>
    have hstart : mark.isPrefixOf (c :: cs) = false := by
      rw [← Bool.not_eq_true, List.isPrefixOf_iff_prefix]
      exact fun hp => h hp.isInfix
    unfold cut?
    rw [hstart, ih fun hi => h (List.infix_cons hi)]
    rfl

/-- **A mark is found** where no mark starts before. -/
theorem cut?_append {mark before after : List Char} (hmark : mark ≠ [])
    (h : ∀ u v, before = v ++ u → u ≠ [] → ¬mark <+: u ++ (mark ++ after)) :
    cut? mark (before ++ (mark ++ after)) = some (before, after) := by
  induction before with
  | nil =>
    obtain ⟨m, ms, rfl⟩ := List.exists_cons_of_ne_nil hmark
    have hself : (m :: ms).isPrefixOf (m :: (ms ++ after)) = true :=
      List.isPrefixOf_iff_prefix.2 (List.prefix_append (m :: ms) after)
    rw [List.nil_append, List.cons_append, cut?, if_pos hself]
    simp
  | cons c before ih =>
    have hstart : mark.isPrefixOf (c :: (before ++ (mark ++ after))) = false := by
      rw [← Bool.not_eq_true, List.isPrefixOf_iff_prefix]
      exact h (c :: before) [] rfl (List.cons_ne_nil c before)
    rw [List.cons_append, cut?, hstart, ih fun u v huv => h u (c :: v) (by rw [huv]; rfl)]
    rfl

/-- A mark is found after a text without its first character. -/
theorem cut?_of_not_mem {c : Char} {mark before : List Char} (h : c ∉ before)
    (after : List Char) :
    cut? (c :: mark) (before ++ (c :: mark ++ after)) = some (before, after) := by
  refine cut?_append (List.cons_ne_nil c mark) fun u v huv hu hp => ?_
  obtain ⟨d, u, rfl⟩ := List.exists_cons_of_ne_nil hu
  obtain ⟨r, hr⟩ := hp
  have hcd : c = d := (List.cons.inj hr).1
  exact h (huv ▸ hcd ▸ List.mem_append_right v List.mem_cons_self)

/-- A mark that cannot overlap itself is found after a text that does not contain it. -/
theorem cut?_of_not_infix {c : Char} {mark before : List Char} (hc : c ∉ mark)
    (h : ¬(c :: mark) <:+: before) (after : List Char) :
    cut? (c :: mark) (before ++ (c :: mark ++ after)) = some (before, after) := by
  refine cut?_append (List.cons_ne_nil c mark) fun u v huv hu hp => ?_
  rcases List.prefix_or_prefix_of_prefix hp (List.prefix_append u _) with hp' | ⟨w, hw⟩
  · exact h (huv ▸ hp'.isInfix.trans (List.suffix_append v u).isInfix)
  · -- the mark would go on with its own start
    cases w with
    | nil =>
      rw [List.append_nil] at hw
      exact h (huv ▸ hw ▸ (List.suffix_append v u).isInfix)
    | cons d w =>
      rw [← hw, List.prefix_append_right_inj] at hp
      obtain ⟨r, hr⟩ := hp
      have hcd : d = c := by
        have := congrArg List.head? hr
        obtain ⟨x, xs, rfl⟩ := List.exists_cons_of_ne_nil hu
        rw [List.cons_append, List.cons.injEq] at hw
        simpa [← hw.1] using this
      obtain ⟨x, xs, rfl⟩ := List.exists_cons_of_ne_nil hu
      rw [List.cons_append, List.cons.injEq] at hw
      exact hc (hw.2 ▸ hcd ▸ by simp)

end Text

/-! ## Visible characters -/

theorem toNat_of_isAlphanum {c : Char} (h : c.isAlphanum = true) :
    0x30 ≤ c.toNat ∧ c.toNat ≤ 0x7a := by
  have hupper (h : c.isUpper = true) : 0x41 ≤ c.toNat ∧ c.toNat ≤ 0x5a := of_decide_eq_true h
  have hlower (h : c.isLower = true) : 0x61 ≤ c.toNat ∧ c.toNat ≤ 0x7a := by
    obtain ⟨h₁, h₂⟩ := Bool.and_eq_true_iff.1 h
    exact ⟨of_decide_eq_true h₁, of_decide_eq_true h₂⟩
  have hdigit (h : c.isDigit = true) : 0x30 ≤ c.toNat ∧ c.toNat ≤ 0x39 := Char.isDigit_iff_toNat.1 h
  rcases Bool.or_eq_true_iff.1 h with h | h
  · rcases Bool.or_eq_true_iff.1 h with h | h
    · have := hupper h
      omega
    · have := hlower h
      omega
  · have := hdigit h
    omega

/-- No visible ASCII character is a blank. -/
theorem isBlank_of_visible {c : Char} (h : 0x21 ≤ c.toNat) (h' : c.toNat ≤ 0x7e) :
    Text.isBlank c = false := by
  simp only [Text.isBlank, Text.blankRanges, List.any_cons, List.any_nil, Bool.or_false,
    Bool.or_eq_false_iff, Bool.and_eq_false_iff, decide_eq_false_iff_not, Nat.not_le]
  omega

/-! ## Digits -/

theorem isDigit_of_mem_toDigits {n : Nat} {c : Char} (h : c ∈ Nat.toDigits 10 n) :
    c.isDigit = true :=
  Nat.isDigit_of_mem_toDigits (by decide) (by decide) h

theorem not_mem_toDigits {c : Char} (h : c.isDigit = false) (n : Nat) : c ∉ Nat.toDigits 10 n :=
  fun hm => by simp [isDigit_of_mem_toDigits hm] at h

namespace Numeral

theorem accumulate?_append (base acc : Nat) (cs ds : List Char) :
    accumulate? base acc (cs ++ ds) = (accumulate? base acc cs).bind (accumulate? base · ds) := by
  induction cs generalizing acc with
  | nil => rfl
  | cons c cs ih =>
    simp only [List.cons_append, accumulate?]
    cases digit? base c with
    | none => rfl
    | some d => exact ih _

theorem digit?_digitChar {d : Nat} (h : d < 10) : digit? 10 d.digitChar = some d := by
  have hall : ∀ d : Fin 10, digit? 10 (d : Nat).digitChar = some (d : Nat) := by decide
  exact hall ⟨d, h⟩

theorem accumulate?_toDigits (n : Nat) : accumulate? 10 0 (Nat.toDigits 10 n) = some n := by
  induction n using Nat.strongRecOn with
  | ind n ih =>
    by_cases h : n < 10
    · rw [Nat.toDigits_of_lt_base h, accumulate?, digit?_digitChar h]
      simp [accumulate?]
    · rw [Nat.toDigits_of_base_le (by decide) (Nat.le_of_not_lt h), accumulate?_append,
        ih (n / 10) (by omega), Option.bind_some, accumulate?,
        digit?_digitChar (Nat.mod_lt n (by decide))]
      simp only [bind, Option.bind_some, accumulate?, Option.some.injEq]
      omega

theorem accumulate?_eq_none {base : Nat} {c : Char} (hc : digit? base c = none) {cs : List Char}
    (hm : c ∈ cs) (acc : Nat) : accumulate? base acc cs = none := by
  obtain ⟨before, after, rfl⟩ := List.append_of_mem hm
  have hstops : ∀ n, accumulate? base n (c :: after) = none := by
    intro n
    simp [accumulate?, hc]
  rw [accumulate?_append]
  exact Option.bind_eq_none_iff.2 fun n _ => hstops n

/-- A numeral has only digits, and perhaps a sign. -/
theorem unsigned?_eq_none {c : Char} (hc : digit? 10 c = none) (hplus : c ≠ '+') {cs : List Char}
    (hm : c ∈ cs) : unsigned? cs = none := by
  have hnat : ∀ {ds : List Char}, c ∈ ds → nat? 10 ds = none := by
    intro ds hd
    cases ds with
    | nil => cases hd
    | cons d ds => exact accumulate?_eq_none hc hd 0
  unfold unsigned?
  split
  · next rest =>
    have hrest : nat? 10 rest = none := hnat ((List.mem_cons.1 hm).resolve_left hplus)
    simp only [hrest, Option.filter_none]
  · simp only [hnat hm, Option.filter_none]

/-- **The digits of a number are read back**, if it fits a word. -/
theorem unsigned?_toDigits {n : Nat} (h : n < UInt64.size) :
    unsigned? (Nat.toDigits 10 n) = some n := by
  obtain ⟨d, ds, hd⟩ := List.exists_cons_of_ne_nil (Nat.toDigits_ne_nil (n := n) (b := 10))
  have hplus : d ≠ '+' := by
    rintro rfl
    exact not_mem_toDigits (by decide) n (hd ▸ List.mem_cons_self)
  have hnat : nat? 10 (d :: ds) = some n := by
    rw [nat?, ← hd, accumulate?_toDigits]
    exact List.cons_ne_nil d ds
  rw [hd, unsigned?]
  · rw [hnat, Option.filter_some, if_pos (by simpa using h)]
  · exact fun _ e => hplus (List.cons.inj e).1

end Numeral

end MarkupTemplate

import MarkupTemplate.Proofs.Placeholder.Grammar
import Mathlib.Data.List.Chain

/-!
# Placeholders from the left

A `Decomposition` cuts a text into placeholders and the static parts around them. Many texts can be
cut in several ways, since a placeholder may as well be left in a static part. But if no placeholder
of the text starts in a static part, the cuts are where the placeholders are, and there is one way
only. The text is tokenized in this way.

Whether a placeholder starts at a place in a static part is a matter of all the text after it, so
static parts are looked at together with what follows them (`NoneStarts`).

Results:
* `exists_leftmost`: every text has a decomposition with no placeholder in a static part.
* `Leftmost.written_inj`: it has one such decomposition only.
* `Leftmost.tokensFrom_written`: the text is tokenized as it is decomposed.
* `tokenize_decomposition`: all of this together.
-/

namespace MarkupTemplate

open Placeholder

/-- A text cut into placeholders and the static parts around them. -/
inductive Decomposition where
  /-- A static part at the end. -/
  | last (s : List Char)
  /-- A static part, a placeholder, and what comes after it. -/
  | next (s : List Char) (p : Placeholder) (rest : Decomposition)

namespace Decomposition

/-- The text. -/
def written : Decomposition → List Char
  | last s => s
  | next s p rest => s ++ (p.written ++ rest.written)

/-- The token of a static part; an empty one has none. -/
def static (s : List Char) : List Token :=
  if s = [] then [] else [.static (String.ofList s)]

/-- The tokens: the static parts that are not empty, and the paths of the placeholders. -/
def tokens : Decomposition → List Token
  | last s => static s
  | next s p rest => static s ++ .expression (String.ofList p.path) :: rest.tokens

/-- No placeholder starts in `s`, where `after` follows it. -/
def NoneStarts (s after : List Char) : Prop :=
  ∀ u, u <:+ s → u ≠ [] → ∀ p : Placeholder, ¬p.written <+: u ++ after

/-- No placeholder of the text starts in a static part. -/
def Leftmost : Decomposition → Prop
  | last s => NoneStarts s []
  | next s p rest => NoneStarts s (p.written ++ rest.written) ∧ rest.Leftmost

/-! ## Static parts -/

theorem noneStarts_nil (after : List Char) : NoneStarts [] after :=
  fun _ hu hne => absurd (List.suffix_nil.1 hu) hne

theorem noneStarts_cons {c : Char} {s after : List Char} :
    NoneStarts (c :: s) after ↔
      (∀ p : Placeholder, ¬p.written <+: c :: s ++ after) ∧ NoneStarts s after := by
  constructor
  · intro h
    exact ⟨h (c :: s) List.suffix_rfl (List.cons_ne_nil c s),
      fun u hu => h u (hu.trans (List.suffix_cons c s))⟩
  · rintro ⟨hhere, hrest⟩ u hu hne
    rcases List.suffix_cons_iff.1 hu with rfl | hu
    · exact hhere
    · exact hrest u hu hne

/-- No placeholder starts where there is no brace. -/
theorem noneStarts_of_not_mem {s : List Char} (h : '{' ∉ s) (after : List Char) :
    NoneStarts s after := by
  rintro u hu hne p ⟨rest, hrest⟩
  obtain ⟨c, u, rfl⟩ := List.exists_cons_of_ne_nil hne
  obtain rfl : '{' = c := (List.cons.inj hrest).1
  exact h (hu.subset List.mem_cons_self)

/-- A placeholder starts after a static part in which none starts. -/
theorem NoneStarts.prefix_of_eq {s s' after after' : List Char} (h : NoneStarts s after)
    {p : Placeholder} (he : s' ++ (p.written ++ after') = s ++ after) : s <+: s' := by
  rcases List.append_eq_append_iff.1 he with ⟨u, rfl, hu⟩ | ⟨u, rfl, hu⟩
  · by_cases hne : u = []
    · exact ⟨[], by simp [hne]⟩
    · exact absurd (hu ▸ List.prefix_append p.written after') (h u (List.suffix_append s' u) hne p)
  · exact List.prefix_append s u

/-! ## One decomposition -/

/-- The decomposition with one more character at the start of its first static part. -/
def push (c : Char) : Decomposition → Decomposition
  | last s => last (c :: s)
  | next s p rest => next (c :: s) p rest

theorem written_push (c : Char) (d : Decomposition) : (d.push c).written = c :: d.written := by
  cases d <;> rfl

theorem Leftmost.push {c : Char} {d : Decomposition} (hd : d.Leftmost)
    (hc : ∀ p : Placeholder, ¬p.written <+: c :: d.written) : (d.push c).Leftmost := by
  cases d with
  | last s => exact noneStarts_cons.2 ⟨by rwa [List.append_nil], hd⟩
  | next s p rest => exact ⟨noneStarts_cons.2 ⟨hc, hd.1⟩, hd.2⟩

/-- **Every text has a decomposition** with no placeholder in a static part. -/
theorem exists_leftmost (cs : List Char) : ∃ d : Decomposition, d.written = cs ∧ d.Leftmost := by
  induction h : cs.length using Nat.strongRecOn generalizing cs with
  | ind n ih =>
    subst h
    by_cases hstart : ∃ p : Placeholder, p.written <+: cs
    · obtain ⟨p, after, rfl⟩ := hstart
      have hshorter : after.length < (p.written ++ after).length := by
        rw [List.length_append]
        exact Nat.lt_add_of_pos_left (List.length_pos_of_ne_nil p.written_ne_nil)
      obtain ⟨d, hd, hleft⟩ := ih after.length hshorter after rfl
      exact ⟨next [] p d, by rw [written, hd]; rfl, noneStarts_nil _, hleft⟩
    · cases cs with
      | nil => exact ⟨last [], rfl, noneStarts_nil _⟩
      | cons c cs =>
        obtain ⟨d, rfl, hleft⟩ := ih cs.length (Nat.lt_succ_self _) cs rfl
        exact ⟨d.push c, written_push c d, hleft.push (not_exists.1 hstart)⟩

/-- **It has one such decomposition only.** -/
theorem Leftmost.written_inj {d d' : Decomposition} (hd : d.Leftmost) (hd' : d'.Leftmost)
    (h : d.written = d'.written) : d = d' := by
  -- a text that goes on with a placeholder does not end with a static part
  have hends : ∀ {s s' : List Char} {p : Placeholder} {rest : Decomposition}, NoneStarts s [] →
      (next s' p rest).written ≠ s := by
    intro s s' p rest hs he
    have hle := (hs.prefix_of_eq (he.trans (List.append_nil s).symm)).length_le
    have hlength := congrArg List.length he
    simp only [written, Placeholder.written, List.length_append, List.length_cons] at hlength
    omega
  induction d generalizing d' with
  | last s =>
    cases d' with
    | last s' => exact congrArg last h
    | next s' p' rest' => exact absurd h.symm (hends hd)
  | next s p rest ih =>
    cases d' with
    | last s' => exact absurd h (hends hd')
    | next s' p' rest' =>
      have hs : s <+: s' := hd.1.prefix_of_eq h.symm
      have hs' : s' <+: s := hd'.1.prefix_of_eq h
      obtain rfl := hs.eq_of_length_le hs'.length_le
      obtain ⟨rfl, hrest⟩ := Placeholder.written_inj (List.append_cancel_left h)
      rw [ih hd.2 hd'.2 hrest]

/-! ## Tokens -/

/-- Text in which no placeholder starts is static. -/
theorem NoneStarts.tokensFrom_append {s after : List Char} (h : NoneStarts s after)
    (run : List Char) : tokensFrom run (s ++ after) = tokensFrom (s.reverse ++ run) after := by
  induction s generalizing run with
  | nil => rfl
  | cons c s ih =>
    obtain ⟨hhere, hrest⟩ := noneStarts_cons.1 h
    rw [List.cons_append, tokensFrom]
    split
    · next path after' hread =>
      obtain ⟨p, -, hp⟩ := placeholder?_eq_some_iff.1 hread
      exact absurd ⟨after', hp.symm⟩ (hhere p)
    · rw [ih hrest, List.reverse_cons, List.append_assoc, List.singleton_append]

theorem tokensFrom_written_append (p : Placeholder) (run after : List Char) :
    tokensFrom run (p.written ++ after) =
      afterRun run (.expression (String.ofList p.path) :: tokensFrom [] after) := by
  have hread := p.placeholder?_written after
  obtain ⟨c, cs, hc⟩ := List.exists_cons_of_ne_nil p.written_ne_nil
  rw [hc, List.cons_append] at hread ⊢
  rw [tokensFrom]
  split
  · next path after' hsome =>
    obtain ⟨rfl, rfl⟩ := Prod.mk.inj (Option.some.inj (hread.symm.trans hsome))
    rfl
  · next hnone =>
    rw [hread] at hnone
    cases hnone

theorem afterRun_reverse (s : List Char) (ts : List Token) :
    afterRun (s.reverse ++ []) ts = static s ++ ts := by
  cases s <;> simp [afterRun, static]

/-- **A text is tokenized as it is decomposed.** -/
theorem Leftmost.tokensFrom_written {d : Decomposition} (hd : d.Leftmost) :
    tokensFrom [] d.written = d.tokens := by
  induction d with
  | last s =>
    have hs : tokensFrom [] (s ++ []) = static s ++ [] := by
      rw [hd.tokensFrom_append, tokensFrom, afterRun_reverse]
    rwa [List.append_nil, List.append_nil] at hs
  | next s p rest ih =>
    rw [written, hd.1.tokensFrom_append, tokensFrom_written_append, afterRun_reverse, ih hd.2]
    rfl

/-- No static token is empty. -/
theorem ne_empty_of_mem_tokens {d : Decomposition} {t : Token} (ht : t ∈ d.tokens) :
    t ≠ .static "" := by
  have hstatic : ∀ {s : List Char}, t ∈ static s → t ≠ .static "" := by
    intro s ht
    unfold static at ht
    split at ht
    · cases ht
    · next hs =>
      obtain rfl := List.mem_singleton.1 ht
      simpa using hs
  induction d with
  | last s => exact hstatic ht
  | next s p rest ih =>
    rcases List.mem_append.1 ht with ht | ht
    · exact hstatic ht
    · rcases List.mem_cons.1 ht with rfl | ht
      · exact Token.noConfusion
      · exact ih ht

/-- An expression stands between static parts. -/
theorem isChain_static_append (s : List Char) (path : String) {ts : List Token}
    (h : ts.IsChain fun t u => t.isExpression = true ∨ u.isExpression = true) :
    (static s ++ .expression path :: ts).IsChain
      fun t u => t.isExpression = true ∨ u.isExpression = true := by
  have hnext : (Token.expression path :: ts).IsChain
      fun t u => t.isExpression = true ∨ u.isExpression = true :=
    List.isChain_cons.2 ⟨fun _ _ => .inl rfl, h⟩
  unfold static
  split
  · exact hnext
  · exact List.isChain_cons_cons.2 ⟨.inr rfl, hnext⟩

theorem isChain_static (s : List Char) :
    (static s).IsChain fun t u => t.isExpression = true ∨ u.isExpression = true := by
  unfold static
  split
  · exact .nil
  · exact .singleton _

/-- No two static tokens are adjacent. -/
theorem isChain_tokens (d : Decomposition) :
    d.tokens.IsChain fun t u => t.isExpression = true ∨ u.isExpression = true := by
  induction d with
  | last s => exact isChain_static s
  | next s p rest ih => exact isChain_static_append s _ ih

end Decomposition

/-- **A text is tokenized by its placeholders from the left.** It falls in exactly one way into
placeholders and static parts in which no placeholder of the text starts, and its tokens are the
static parts that are not empty and the paths of the placeholders, in order. So no static token is
empty, and no two are adjacent. -/
theorem tokenize_decomposition (text : String) :
    (∃! d : Decomposition, d.written = text.toList ∧ d.Leftmost) ∧
      (∀ d : Decomposition, d.written = text.toList → d.Leftmost → tokenize text = d.tokens) ∧
      (∀ t ∈ tokenize text, t ≠ .static "") ∧
      (tokenize text).IsChain fun t u => t.isExpression = true ∨ u.isExpression = true := by
  obtain ⟨d, hd, hleft⟩ := Decomposition.exists_leftmost text.toList
  have htokens : ∀ d : Decomposition, d.written = text.toList → d.Leftmost →
      tokenize text = d.tokens := by
    intro d hd hleft
    rw [tokenize, ← hd, hleft.tokensFrom_written]
  refine ⟨⟨d, ⟨hd, hleft⟩, ?_⟩, htokens, ?_⟩
  · rintro d' ⟨hd', hleft'⟩
    exact hleft'.written_inj hleft (hd'.trans hd.symm)
  · rw [htokens d hd hleft]
    exact ⟨fun t => Decomposition.ne_empty_of_mem_tokens, d.isChain_tokens⟩

/-- A brace before a placeholder, and one after it, are static. -/
theorem tokenize_decomposition_braces :
    ∃ d : Decomposition, d.written = "\x7b\x7b a.b \x7d\x7b".toList ∧ d.Leftmost ∧
      d.tokens = [.static "\x7b", .expression "a.b", .static "\x7b"] := by
  obtain ⟨⟨d, ⟨hd, hleft⟩, -⟩, htokens, -⟩ := tokenize_decomposition "\x7b\x7b a.b \x7d\x7b"
  exact ⟨d, hd, hleft, (htokens d hd hleft).symm.trans (by decide +kernel)⟩

end MarkupTemplate

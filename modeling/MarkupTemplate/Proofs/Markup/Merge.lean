import MarkupTemplate.Proofs.Markup.Printable

/-!
# Merging texts

Markup has no sign for an empty text or for the border between two texts. `Forest.merged` drops the
one and joins the others, which is what becomes of them when they are written and read again.

Results:
* `prependText_prependText`: texts before one another are one text.
* `merged_eq_self`: printable trees are merged already.
-/

namespace MarkupTemplate.Forest

/-- The forest with `s` before it, as a part of its first text where it starts in one. -/
def prependText (s : String) : Forest Content → Forest Content
  | cons (.text t) below beside => cons (.text (s ++ t)) below beside
  | f => if s = "" then f else cons (.text s) nil f

/-- The forest without empty texts and with neighbouring texts joined. Under a text there is
nothing. -/
def merged : Forest Content → Forest Content
  | nil => nil
  | cons a below beside =>
    match a with
    | .text s => prependText s beside.merged
    | a => cons a below.merged beside.merged

theorem merged_cons {a : Content} (h : a.isText = false) (below beside : Forest Content) :
    (cons a below beside).merged = cons a below.merged beside.merged := by
  cases a with
  | text s => cases h
  | element e => rfl
  | comment s => rfl
  | fragment => rfl

/-- A text is put before a forest as a part of its first text, not at all, or as a text of its
own. -/
theorem prependText_cases (s : String) (f : Forest Content) :
    (∃ t below beside, f = cons (.text t) below beside ∧
        prependText s f = cons (.text (s ++ t)) below beside) ∨
      (f.startsInText = false ∧ s = "" ∧ prependText s f = f) ∨
      (f.startsInText = false ∧ s ≠ "" ∧ prependText s f = cons (.text s) nil f) := by
  have hown {g : Forest Content}
      (h : prependText s g = if s = "" then g else cons (.text s) nil g) :
      s = "" ∧ prependText s g = g ∨ s ≠ "" ∧ prependText s g = cons (.text s) nil g := by
    by_cases hs : s = ""
    · exact .inl ⟨hs, h.trans (if_pos hs)⟩
    · exact .inr ⟨hs, h.trans (if_neg hs)⟩
  cases f with
  | nil => exact .inr ((hown rfl).imp (⟨rfl, ·⟩) (⟨rfl, ·⟩))
  | cons a below beside =>
    cases a with
    | text t => exact .inl ⟨t, below, beside, rfl, rfl⟩
    | element e => exact .inr ((hown rfl).imp (⟨rfl, ·⟩) (⟨rfl, ·⟩))
    | comment t => exact .inr ((hown rfl).imp (⟨rfl, ·⟩) (⟨rfl, ·⟩))
    | fragment => exact .inr ((hown rfl).imp (⟨rfl, ·⟩) (⟨rfl, ·⟩))

theorem prependText_of_not_startsInText {f : Forest Content} (hf : f.startsInText = false)
    {s : String} (hs : s ≠ "") : prependText s f = cons (.text s) nil f := by
  obtain ⟨t, below, beside, rfl, -⟩ | ⟨-, h, -⟩ | ⟨-, -, h⟩ := prependText_cases s f
  · cases hf
  · exact absurd h hs
  · exact h

@[simp] theorem prependText_empty (f : Forest Content) : prependText "" f = f := by
  obtain ⟨t, below, beside, rfl, h⟩ | ⟨-, -, h⟩ | ⟨-, h, -⟩ := prependText_cases "" f
  · rw [h, String.empty_append]
  · exact h
  · exact absurd rfl h

/-- A tree that is no text ends the text before it. -/
theorem prependText_cons {a : Content} (h : a.isText = false) (s : String)
    (below beside : Forest Content) :
    prependText s (cons a below beside) = prependText s nil ++ cons a below beside := by
  by_cases hs : s = ""
  · rw [hs, prependText_empty, prependText_empty, nil_append]
  · rw [prependText_of_not_startsInText (f := cons a below beside) h hs,
      prependText_of_not_startsInText (f := nil) rfl hs]
    rfl

/-- Texts before one another are one text. -/
theorem prependText_prependText (s t : String) (f : Forest Content) :
    prependText s (prependText t f) = prependText (s ++ t) f := by
  obtain ⟨u, below, beside, rfl, h⟩ | ⟨-, ht, h⟩ | ⟨hf, ht, h⟩ := prependText_cases t f
  · rw [h, prependText, prependText, String.append_assoc]
  · rw [h, ht, String.append_empty]
  · rw [h, prependText_of_not_startsInText hf (by simp [ht])]
    rfl

/-- Printable trees are merged already. -/
theorem merged_eq_self {f : Forest Content} (hf : f.Printable) : f.merged = f := by
  obtain ⟨hw, hs⟩ := hf
  induction f with
  | nil => rfl
  | cons a below beside ih₁ ih₂ =>
    obtain ⟨ha, hbeside⟩ := hw
    obtain ⟨hsep, hsbelow, hsbeside⟩ := hs
    have hrest : beside.merged = beside := ih₂ hbeside hsbeside
    cases a with
    | text s =>
      obtain rfl : below = nil := ha
      obtain ⟨hne, hstart⟩ := hsep s rfl
      rw [merged, hrest, prependText_of_not_startsInText hstart hne]
    | element e => rw [merged_cons rfl, hrest, ih₁ ha.2 hsbelow]
    | comment s =>
      obtain ⟨-, rfl⟩ := ha
      rw [merged_cons rfl, hrest]
      rfl
    | fragment => exact absurd ha id

end MarkupTemplate.Forest

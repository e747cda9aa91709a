import Mathlib.Data.List.Infix
import MarkupTemplate.Proofs.CallSite.Agreement
import MarkupTemplate.Proofs.CallSite.Occupancy

/-!
# Look-alikes of markers

Markers are found in the text that the fragments and the markers make together, so a fragment can
hold a text that is taken for a marker (`Gap.lookAlikes`). Most of them do no harm: one whose number
is no gap's is refused where it would be bound, and is a text like any other elsewhere. But one with
the number of a gap can take the place of a marker that is lost in a comment, and then the call site
is compiled although this gap is nowhere that data can go (`look_alike_hides_a_gap`).

That is the only way. Where no fragment has a look-alike of a gap of its call site, what is bound
are the markers. The fragments may hold other look-alikes (`Policy.apart`), so the texts are still
read to the same trees, but these need not be split into the same tokens; it is enough that each
number that is bound, if it is that of a gap, comes from its marker (`mem_gaps_of_mem_split`), and
that the placeholder of the gap is at the same place (`exists_gap_of_number`).

Results:
* `mem_lookAlikes_iff`: what looks like a marker.
* `infix_write_marker`: what looks like a marker in a text with markers is one, or is in a part.
* `CallSite.misplaced_gaps_are_rejected`: without look-alikes of gaps, no misplaced gap is accepted.
-/

namespace MarkupTemplate

open Text Markup

namespace Gap

/-! ## What looks like a marker -/

/-- The number that a marker would have whose text the text starts with. -/
def lookAlike? (cs : List Char) : Option Nat :=
  if markerText.isPrefixOf cs then
    (cut? ['-', '-'] (cs.drop markerText.length)).bind fun r => Numeral.unsigned? r.1
  else none

/-- The numbers of all that looks like a marker somewhere in a text. -/
def lookAlikes (cs : List Char) : List Nat :=
  cs.tails.filterMap lookAlike?

/-- A numeral has no other characters than digits and a plus sign. -/
theorem not_mem_of_unsigned? {digits : List Char} {k : Nat}
    (h : Numeral.unsigned? digits = some k) {c : Char} (hc : Numeral.digit? 10 c = none)
    (hplus : c ≠ '+') : c ∉ digits := by
  intro hm
  rw [Numeral.unsigned?_eq_none hc hplus hm] at h
  cases h

/-- **What looks like a marker** is the text of a marker, with any numeral of the number. -/
theorem mem_lookAlikes_iff {k : Nat} {cs : List Char} : k ∈ lookAlikes cs ↔
    ∃ digits, Numeral.unsigned? digits = some k ∧ markerText ++ (digits ++ ['-', '-']) <:+: cs := by
  unfold lookAlikes
  simp only [List.mem_filterMap, List.mem_tails, List.infix_iff_prefix_suffix]
  constructor
  · rintro ⟨rest, hrest, hk⟩
    unfold lookAlike? at hk
    split at hk
    · next hp =>
      obtain ⟨after, rfl⟩ := List.isPrefixOf_iff_prefix.1 hp
      rw [List.drop_left] at hk
      obtain ⟨⟨digits, left⟩, hcut, hdigits⟩ := Option.bind_eq_some_iff.1 hk
      refine ⟨digits, hdigits, _, ⟨left, ?_⟩, hrest⟩
      rw [eq_of_cut? hcut, List.append_assoc]
    · cases hk
  · rintro ⟨digits, hdigits, rest, ⟨left, rfl⟩, hrest⟩
    refine ⟨_, hrest, ?_⟩
    have hdash : '-' ∉ digits := not_mem_of_unsigned? hdigits (by decide) (by decide)
    have hcut : cut? ['-', '-'] (digits ++ (['-', '-'] ++ left)) = some (digits, left) :=
      cut?_of_not_mem hdash left
    unfold lookAlike?
    rw [List.append_assoc, List.append_assoc,
      if_pos (List.isPrefixOf_iff_prefix.2 (List.prefix_append _ _)), List.drop_left, hcut]
    exact hdigits

/-- A text that is a part of another has no other look-alikes. -/
theorem lookAlikes_of_infix {k : Nat} {p q : List Char} (h : q <:+: p) (hk : k ∈ lookAlikes q) :
    k ∈ lookAlikes p := by
  obtain ⟨digits, hdigits, hi⟩ := mem_lookAlikes_iff.1 hk
  exact mem_lookAlikes_iff.2 ⟨digits, hdigits, hi.trans h⟩

/-- Decoding brings about no look-alike. -/
theorem lookAlikes_of_decode {k : Nat} {p : List Char} (hk : k ∈ lookAlikes (decode p)) :
    k ∈ lookAlikes p := by
  obtain ⟨digits, hdigits, hi⟩ := mem_lookAlikes_iff.1 hk
  refine mem_lookAlikes_iff.2 ⟨digits, hdigits, infix_of_infix_decode (fun c hc => ?_) hi⟩
  intro hescaped
  obtain ⟨hdigit, hplus, htext, hdash⟩ : Numeral.digit? 10 c = none ∧ c ≠ '+' ∧
      c ∉ markerText ∧ c ∉ ['-', '-'] := by
    simp only [escaped, List.mem_cons, List.not_mem_nil, or_false] at hescaped
    rcases hescaped with rfl | rfl | rfl | rfl | rfl <;> decide
  simp only [List.mem_append, htext, hdash, or_false, false_or] at hc
  exact not_mem_of_unsigned? hdigits hdigit hplus hc

end Gap

namespace Sketch

/-- Nothing could be mistaken for one of `count` gaps, and there is no brace. -/
def Policy.apart (count : Nat) : Policy where
  part := fun p => '{' ∉ p ∧ ∀ k ∈ Gap.lookAlikes p, count ≤ k
  comment := fun c => ∀ k, Gap.ofComment? c = some k → count ≤ k
  nil := ⟨List.not_mem_nil, fun _ hk => absurd hk List.not_mem_nil⟩
  of_infix := fun h hp =>
    ⟨fun hm => hp.1 (h.subset hm), fun k hk => hp.2 k (Gap.lookAlikes_of_infix h hk)⟩
  of_decode := fun hp => ⟨not_mem_decode hp.1, fun k hk => hp.2 k (Gap.lookAlikes_of_decode hk)⟩
  of_comment := by
    intro p body hp hbody k hk
    simp only [Gap.ofComment?, String.toList_ofList] at hk
    split at hk
    · next h =>
      obtain ⟨digits, rfl⟩ := List.isPrefixOf_iff_prefix.1 h
      rw [List.drop_left] at hk
      refine hp.2 k (Gap.mem_lookAlikes_iff.2 ⟨digits, hk, List.IsInfix.trans ?_ hbody⟩)
      exact ⟨[], ['>'], by simp⟩
    · cases hk
  of_ofComment? := fun hc k hk => by
    rw [hc] at hk
    cases hk

/-- Its placeholders are the only ones. -/
theorem Obeys.tokenize_write {count : Nat} {σ : Sketch} (h : σ.Obeys (.apart count)) :
    tokenize (String.ofList (σ.write .placeholder)) = σ.tokens .placeholder :=
  tokenize_write_of_not_mem fun p hp => (h p hp).1

end Sketch

/-! ## Markers in a text with markers -/

/-- A text without a character ends before that character. -/
theorem exists_of_append_eq_cons {c : Char} {w v a rest : List Char} (h : w ++ v = a ++ c :: rest)
    (hw : c ∉ w) : ∃ b, a = w ++ b ∧ v = b ++ c :: rest := by
  rcases List.append_eq_append_iff.1 h with ⟨b, ha, hv⟩ | ⟨b, hb, hrest⟩
  · exact ⟨b, ha, hv⟩
  · cases b with
    | nil => exact ⟨[], by simpa using hb.symm, by simpa using hrest.symm⟩
    | cons d b =>
      obtain ⟨rfl, -⟩ := List.cons.inj hrest
      exact absurd (hb ▸ List.mem_append_right a List.mem_cons_self) hw

/-- A mark that starts with a character which it has only there does not overlap another one. -/
theorem infix_append_cons {c : Char} {w mark head rest : List Char} (hw : c ∉ w) (hmark : c ∉ mark)
    (h : c :: w <:+: head ++ (c :: mark ++ rest)) :
    c :: w <:+: head ∨ c :: w <:+: rest ∨ c :: w <+: c :: mark ++ rest := by
  obtain ⟨u, v, huv⟩ := h
  rw [List.append_assoc, List.cons_append, List.cons_append] at huv
  rcases List.append_eq_append_iff.1 huv with ⟨a, rfl, hrest⟩ | ⟨a, -, hrest⟩
  · cases a with
    | nil => exact .inr (.inr ⟨v, hrest⟩)
    | cons d a =>
      -- the mark starts before the other one, and so it ends before it
      rw [List.cons_append, List.cons.injEq] at hrest
      obtain ⟨rfl, hrest⟩ := hrest
      obtain ⟨b, rfl, -⟩ := exists_of_append_eq_cons hrest hw
      exact .inl ⟨u, b, by simp⟩
  · cases a with
    | nil => exact .inr (.inr ⟨v, hrest.symm⟩)
    | cons d a =>
      -- it starts after the start of the other one, and so after its end
      rw [List.cons_append, List.cons.injEq] at hrest
      obtain ⟨rfl, hrest⟩ := hrest
      obtain ⟨b, -, rfl⟩ := exists_of_append_eq_cons hrest hmark
      exact .inr (.inl ⟨b, v, by simp⟩)

namespace Gap

variable {digits digits' : List Char} (hdigits : ∀ c ∈ digits, c.isDigit = true)

include hdigits

/-- A marker has the character that it starts with only there. -/
theorem exists_written_eq_cons : ∃ mark, written digits = '<' :: mark ∧ '<' ∉ mark := by
  refine ⟨'!' :: '-' :: '-' :: (markerText ++ (digits ++ markerClose)), rfl, ?_⟩
  have hdigit : '<' ∉ digits := fun hm => absurd (hdigits '<' hm) (by decide)
  simp [markerText, markerClose, hdigit]

/-- Where a marker starts, no marker with another number does. -/
theorem eq_of_written_prefix (hdigits' : ∀ c ∈ digits', c.isDigit = true) {rest : List Char}
    (h : written digits <+: written digits' ++ rest) : digits = digits' := by
  obtain ⟨after, hafter⟩ := h
  have hstop : ∀ cs, Stops Char.isDigit (markerClose ++ cs) := fun cs => stops_cons rfl _
  have hnumbers : digits ++ (markerClose ++ after) = digits' ++ (markerClose ++ rest) := by
    simpa [written] using hafter
  rw [← takeWhile_append_of_all hdigits (hstop after), hnumbers,
    takeWhile_append_of_all hdigits' (hstop rest)]

end Gap

namespace Sketch

/-- **What looks like a marker in a text with markers is one**, or is in a part of the text. -/
theorem infix_write_marker {digits : List Char} (hdigits : ∀ c ∈ digits, c.isDigit = true)
    {σ : Sketch} (h : Gap.written digits <:+: σ.write .marker) :
    (∃ p ∈ σ.parts, Gap.written digits <:+: p) ∨ ∃ k ∈ σ.gaps, digits = Nat.toDigits 10 k := by
  obtain ⟨head, tail⟩ := σ
  induction tail generalizing head with
  | nil =>
    rw [write, Style.writeTail_nil, List.append_nil] at h
    exact .inl ⟨head, List.mem_cons_self, h⟩
  | cons g tail ih =>
    have hnumber : ∀ c ∈ Nat.toDigits 10 g.1, c.isDigit = true :=
      fun _ hc => isDigit_of_mem_toDigits hc
    have hwrite : write .marker ⟨head, g :: tail⟩ =
        head ++ (Gap.written (Nat.toDigits 10 g.1) ++ write .marker ⟨g.2, tail⟩) := by
      rw [write, Style.writeTail_cons, Gap.written_toDigits]
      rfl
    have hcases : Gap.written digits <:+: head ∨
        Gap.written digits <:+: write .marker ⟨g.2, tail⟩ ∨
        Gap.written digits <+:
          Gap.written (Nat.toDigits 10 g.1) ++ write .marker ⟨g.2, tail⟩ := by
      obtain ⟨w, hw, hlt⟩ := Gap.exists_written_eq_cons hdigits
      obtain ⟨mark, hmark, hlt'⟩ := Gap.exists_written_eq_cons hnumber
      rw [hwrite, hw, hmark] at h
      rw [hw, hmark]
      exact infix_append_cons hlt hlt' h
    rcases hcases with h | h | h
    · exact .inl ⟨head, List.mem_cons_self, h⟩
    · rcases ih g.2 h with ⟨p, hp, hi⟩ | ⟨k, hk, he⟩
      · exact .inl ⟨p, List.mem_cons_of_mem head hp, hi⟩
      · exact .inr ⟨k, List.mem_cons_of_mem g.1 hk, he⟩
    · exact .inr ⟨g.1, List.mem_cons_self, Gap.eq_of_written_prefix hdigits hnumber h⟩

end Sketch

/-! ## What is bound -/

/-- What a value is split at is a marker in it. -/
theorem Gap.infix_of_mem_splitFrom {cs : List Char} {e : String}
    (h : .expression e ∈ splitFrom cs) :
    (∀ c ∈ e.toList, c.isDigit = true) ∧ written e.toList <:+: cs := by
  fun_induction splitFrom cs with
  | case1 cs hcut => exact absurd h (expression_not_mem_static e cs)
  | case2 cs before after hcut hnumber => exact absurd h (expression_not_mem_static e cs)
  | case3 cs before after hcut digits rest hnumber _ ih =>
    obtain ⟨hclose, hdigits⟩ := Option.filter_eq_some_iff.1 hnumber
    obtain rfl := eq_of_cut? hclose
    obtain rfl := eq_of_cut? hcut
    rcases List.mem_append.1 h with h | h
    · exact absurd h (expression_not_mem_static e before)
    rcases List.mem_cons.1 h with h | h
    · obtain rfl := Token.expression.inj h
      rw [String.toList_ofList]
      refine ⟨List.all_eq_true.1 (Bool.and_eq_true_iff.1 hdigits).2, before, rest, ?_⟩
      simp [written]
    · obtain ⟨hall, hi⟩ := ih h
      exact ⟨hall, hi.trans ⟨before ++ markerOpen ++ (digits ++ markerClose), [], by simp⟩⟩

namespace Sketch

variable {count : Nat} {G : Nat → Prop} (hG : ∀ k, G k → k < UInt64.size)

include hG

/-- **The number of a gap comes from its marker**, where no part has a look-alike of it. -/
theorem mem_gaps_of_mem_split {σ : Sketch} (hσ : σ.Allowed (.apart count) G) {e : String}
    (he : .expression e ∈ Gap.split (String.ofList (σ.write .marker))) {k : Nat}
    (hk : Gap.ofNumber e = .ok k) (hlt : k < count) : k ∈ σ.gaps := by
  rw [Gap.split, String.toList_ofList] at he
  obtain ⟨hdigits, hi⟩ := Gap.infix_of_mem_splitFrom he
  have hnumber : Numeral.unsigned? e.toList = some k := CallSite.unsigned?_of_ofNumber hk
  rcases infix_write_marker hdigits hi with ⟨p, hp, hi⟩ | ⟨j, hj, hdigits⟩
  · have hlook : k ∈ Gap.lookAlikes p := by
      refine Gap.mem_lookAlikes_iff.2 ⟨e.toList, hnumber, List.IsInfix.trans ?_ hi⟩
      exact ⟨['<', '!', '-', '-'], ['>'], by simp [Gap.written, Gap.markerOpen, Gap.markerClose]⟩
    exact absurd ((hσ.obeys p hp).2 k hlook) (Nat.not_le.2 hlt)
  · rw [hdigits, Numeral.unsigned?_toDigits (hG j (hσ.gaps j hj))] at hnumber
    exact Option.some.inj hnumber ▸ hj

/-- An element that binds the number of a gap has its placeholder. -/
theorem exists_gap_of_element {tag : String} {as : List (String × Sketch)}
    (has : ∀ a ∈ as, a.2.Allowed (.apart count) G) {e : String} {k : Nat}
    (hk : Gap.ofNumber e = .ok k) (hlt : k < count)
    (h : e ∈ (Forest.ownGaps (.element (Style.marker.element tag as))).flatMap
      Descriptor.gapNumbers) :
    G k ∧ Gap.key k ∈ (Style.placeholder.element tag as).descriptors.flatMap
      Descriptor.gapNumbers := by
  obtain ⟨as', hmem, hentries⟩ := Style.exists_entries as
  obtain ⟨s, hs, he⟩ := List.mem_flatMap.1 h
  obtain ⟨_, hwritten, rfl⟩ := Forest.exists_of_mem_ownGaps hs
  rw [hentries] at hwritten
  obtain ⟨a, ha, rfl⟩ := List.mem_map.1 hwritten
  have hσ := has a (hmem a ha)
  have hgap : k ∈ a.2.gaps :=
    mem_gaps_of_mem_split hG hσ (mem_gapNumbers_attributeValue.1 he) hk hlt
  have hkey : .expression (Gap.key k) ∈ tokenize (writeAttribute .placeholder a).2 := by
    rw [writeAttribute, hσ.obeys.tokenize_write]
    exact expression_mem_tokens_iff.2 ⟨k, hgap, rfl⟩
  have hwritten : writeAttribute .placeholder a ∈
      (Style.placeholder.element tag as).attributes.entries := by
    rw [hentries]
    exact List.mem_map_of_mem ha
  exact ⟨hσ.gaps k hgap, List.mem_flatMap.2 ⟨_, Element.mem_descriptors hwritten hkey,
    mem_gapNumbers_attributeValue.2 hkey⟩⟩

/-- **Where the number of a gap is bound, its placeholder is too.** -/
theorem exists_gap_of_number {F : Forest Node} (hF : AllowedIn (.apart count) G F)
    {offset : Nat} (offset' : Nat) {e : String} {k : Nat} (hk : Gap.ofNumber e = .ok k)
    (hlt : k < count)
    (h : e ∈ ((Style.marker.draw F).gapDescriptors offset).flatMap Descriptor.gapNumbers) :
    G k ∧ Gap.key k ∈
      ((Style.placeholder.draw F).descriptors offset').flatMap Descriptor.gapNumbers := by
  induction F generalizing offset offset' with
  | nil => cases h
  | cons a below beside ih₁ ih₂ =>
    obtain ⟨ha, hbelow, hbeside⟩ := allowedIn_cons.1 hF
    cases a with
    | element tag as =>
      simp only [Style.draw, Forest.gapDescriptors, Forest.descriptors, List.flatMap_append,
        flatMap_gapNumbers_nested, List.mem_append] at h ⊢
      rcases h with (h | h) | h
      · exact (exists_gap_of_element hG ha hk hlt h).imp_right fun h => .inl (.inl h)
      · exact (ih₁ hbelow 0 h).imp_right fun h => .inl (.inr h)
      · exact (ih₂ hbeside _ h).imp_right .inr
    | text σ =>
      have hσ : σ.Allowed (.apart count) G := ha
      rw [Style.marker_draw_text, gapDescriptors_markedTrees (isGapToken_tokens hG hσ),
        List.flatMap_append, List.mem_append, mem_gapNumbers_textDescriptors] at h
      rw [Style.placeholder_draw_text, Forest.descriptors, hσ.obeys.tokenize_write,
        List.flatMap_append, List.mem_append, mem_gapNumbers_textDescriptors]
      rcases h with h | h
      · obtain ⟨j, hj, rfl⟩ := expression_mem_tokens_iff.1 h
        have hGj := hσ.gaps j hj
        obtain rfl := Except.ok.inj ((Gap.ofNumber_toString (hG j hGj)).symm.trans hk)
        exact ⟨hGj, .inl (expression_mem_tokens_iff.2 ⟨j, hj, rfl⟩)⟩
      · exact (ih₂ hbeside _ h).imp_right .inr
    | comment c =>
      simp only [Style.draw, Forest.gapDescriptors, Forest.descriptors, List.flatMap_append,
        List.append_nil, flatMap_gapNumbers_nested, List.mem_append] at h ⊢
      rcases h with h | h
      · -- a comment that is no gap has no number of one
        simp only [Forest.ownGaps] at h
        split at h
        · next j hj =>
          obtain rfl := List.mem_singleton.1 h
          have hsize : j < UInt64.size := Gap.lt_of_ofComment? hj
          obtain rfl := Except.ok.inj ((Gap.ofNumber_toString hsize).symm.trans hk)
          exact absurd (ha j hj) (Nat.not_le.2 hlt)
        · cases h
      · exact ih₂ hbeside _ h

end Sketch

/-! ## Call sites without look-alikes -/

namespace CallSite

/-- **No misplaced gap is accepted** where no fragment has a brace, or a look-alike of a gap. A call
site that is compiled then is well-formed with placeholders between its fragments, too, and each of
them is in a text or in an attribute's value, where it becomes an expression. The fragments may hold
look-alikes of any other numbers. -/
theorem misplaced_gaps_are_rejected {site : CallSite} {t : Template}
    (hbrace : ∀ f ∈ site.fragments, '{' ∉ f.toList)
    (happart : ∀ f ∈ site.fragments, ∀ k ∈ Gap.lookAlikes f.toList, site.gapCount ≤ k)
    (ht : site.compile = .ok t) :
    ∃ t', Template.ofMarkup site.placeholderMarkup = .ok t' ∧
      ∀ k < site.gapCount, ∃ s ∈ t'.descriptors, Gap.key k ∈ s.gapNumbers := by
  obtain ⟨f, hf, hoccupy, -⟩ := compile_eq_ok_iff.1 ht
  obtain ⟨ks, hks, hperm⟩ := Gap.occupyAll_eq_ok_iff_perm.1 hoccupy
  have hbound : ∀ k < site.gapCount, ∃ e ∈ (f.gapDescriptors 0).flatMap Descriptor.gapNumbers,
      Gap.ofNumber e = .ok k := by
    intro k hk
    exact exists_of_mem_mapM hks (hperm.mem_iff.2 (List.mem_range.2 hk))
  have hsize : ∀ k < site.gapCount, k < UInt64.size := by
    intro k hk
    obtain ⟨e, -, he⟩ := hbound k hk
    exact Numeral.unsigned?_lt (unsigned?_of_ofNumber he)
  rcases parse_agree_of (P := .apart site.gapCount) fun f hf => ⟨hbrace f hf, happart f hf⟩ with
    ⟨F, hF, hm, hp⟩ | ⟨hm, -⟩ | ⟨k, hk, hm, -⟩
  · obtain rfl := Except.ok.inj (hm.symm.trans hf)
    refine ⟨_, Template.ofMarkup_eq_ok_iff.2 ⟨_, hp, rfl⟩, fun k hk => ?_⟩
    obtain ⟨e, hmem, he⟩ := hbound k hk
    exact List.mem_flatMap.1 (Sketch.exists_gap_of_number hsize hF 0 he hk hmem).2
  · exact absurd hf (hm f)
  · -- a gap that is lost is not bound
    obtain ⟨F, hF, rfl⟩ := hm f hf
    obtain ⟨e, hmem, he⟩ := hbound k hk
    obtain ⟨⟨-, hne⟩, -⟩ :=
      Sketch.exists_gap_of_number (fun j hj => hsize j hj.1) hF 0 he hk hmem
    exact absurd rfl hne

/-- Two gaps, with look-alikes of another gap and of none around them. -/
theorem misplaced_gaps_are_rejected_paragraph :
    let site : CallSite := ⟨0, ["<p t=\"stamp-marker:7--", "\"><!--stamp-marker:x-->", "</p>"]⟩
    ∃ t t', site.compile = .ok t ∧ Template.ofMarkup site.placeholderMarkup = .ok t' ∧
      (∃ s ∈ t'.descriptors, "g0" ∈ s.gapNumbers) ∧ ∃ s ∈ t'.descriptors, "g1" ∈ s.gapNumbers := by
  intro site
  let f : Forest Content :=
    .cons (.element { tag := "p",
                      attributes := .ofList [("t", "stamp-marker:7--<!--stamp-marker:0-->")] })
      (.cons (.comment "stamp-marker:x") .nil (.cons (.comment "stamp-marker:1") .nil .nil)) .nil
  have ht : site.compile =
      .ok ⟨some (.ofFragment (f.map Forest.withoutGaps)), f.gapDescriptors 0⟩ :=
    compile_of_printable ⟨by decide +kernel, by decide⟩ (by decide +kernel) (by decide +kernel)
  obtain ⟨t', ht', hgaps⟩ := misplaced_gaps_are_rejected (by decide) (by decide +kernel) ht
  exact ⟨_, t', ht, ht', hgaps 0 (by decide), hgaps 1 (by decide)⟩

/-- **A look-alike hides a gap.** The first fragment opens a comment, so the marker of the gap is in
a comment, and so is its placeholder; but the second fragment has a look-alike of the gap after it.
The call site is compiled, and no expression comes of the placeholder. -/
theorem look_alike_hides_a_gap :
    let site : CallSite := ⟨0, ["<!-- ", "<!--stamp-marker:0-->"]⟩
    (∀ f ∈ site.fragments, '{' ∉ f.toList) ∧ 0 < site.gapCount ∧
      ∃ t t', site.compile = .ok t ∧ Template.ofMarkup site.placeholderMarkup = .ok t' ∧
        ∀ s ∈ t'.descriptors, Gap.key 0 ∉ s.gapNumbers := by
  intro site
  let f : Forest Content :=
    .cons (.comment " <!--stamp-marker:0") .nil (.cons (.comment "stamp-marker:0") .nil .nil)
  let f' : Forest Content := .cons (.comment " {g0}<!--stamp-marker:0") .nil .nil
  have ht : site.compile =
      .ok ⟨some (.ofFragment (f.map Forest.withoutGaps)), f.gapDescriptors 0⟩ :=
    compile_of_printable ⟨by decide +kernel, by decide⟩ (by decide +kernel) (by decide +kernel)
  have hf' : f'.Printable := ⟨by decide +kernel, by decide⟩
  have ht' : Template.ofMarkup site.placeholderMarkup = .ok (.ofTree (.ofFragment f')) := by
    refine Template.ofMarkup_eq_ok_iff.2 ⟨f', ?_, rfl⟩
    rw [show site.placeholderMarkup = f'.toMarkup by decide +kernel, Markup.parse_toMarkup hf']
  exact ⟨by decide, by decide, _, _, ht, ht', fun s hs => absurd hs List.not_mem_nil⟩

end CallSite

end MarkupTemplate

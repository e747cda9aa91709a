import MarkupTemplate.Proofs.Attributes
import MarkupTemplate.Proofs.CallSite.Drawing
import Mathlib.Data.List.Basic

/-!
# Compiling either drawing

Trees with gaps that are drawn with markers are compiled by taking the markers out, and drawn with
placeholders by splitting every text. Both give the same skeleton, and the same descriptors but for
the names of the gaps.

Results:
* `skeleton_draw`: the skeletons are the same.
* `descriptors_draw`: the descriptors are the same once the gaps are renamed.
* `exists_gap_of_mem`: the expressions of the descriptors are the gaps.
-/

namespace MarkupTemplate

open Text

/-! ## Renaming expressions -/

/-- The token with its expression renamed by `ρ`. -/
def Token.rename (ρ : String → String) : Token → Token
  | static s => .static s
  | expression e => .expression (ρ e)

/-- The target with its expressions renamed by `ρ`. -/
def Target.rename (ρ : String → String) : Target → Target
  | textContent e => .textContent (ρ e)
  | attributeValue name tokens => .attributeValue name (tokens.map (Token.rename ρ))

/-- The descriptor with its expressions renamed by `ρ`. -/
def Descriptor.rename (ρ : String → String) (s : Descriptor) : Descriptor :=
  { s with target := s.target.rename ρ }

theorem map_nested_rename (ρ : String → String) (place : Nat) (ss : List Descriptor) :
    (ss.map (Descriptor.rename ρ)).map (·.nested place) =
      (ss.map (·.nested place)).map (Descriptor.rename ρ) := by
  rw [List.map_map, List.map_map]
  rfl

/-- A descriptor keeps its expressions when its address changes. -/
theorem flatMap_gapNumbers_nested (ss : List Descriptor) (place : Nat) :
    (ss.map (·.nested place)).flatMap Descriptor.gapNumbers = ss.flatMap Descriptor.gapNumbers := by
  rw [List.flatMap_map]
  rfl

/-- The expressions of an attribute's descriptor are those of its tokens. -/
theorem mem_gapNumbers_attributeValue {a : Address} {name : String} {ts : List Token} {e : String} :
    e ∈ Descriptor.gapNumbers ⟨a, .attributeValue name ts⟩ ↔ .expression e ∈ ts := by
  simp only [Descriptor.gapNumbers, List.mem_filterMap]
  constructor
  · rintro ⟨t, ht, he⟩
    cases t with
    | static s => cases he
    | expression e' =>
      rw [← Option.some.inj he]
      exact ht
  · exact fun h => ⟨_, h, rfl⟩

theorem textDescriptors_rename (ρ : String → String) (offset : Nat) (tokens : List Token) :
    textDescriptors offset (tokens.map (Token.rename ρ)) =
      (textDescriptors offset tokens).map (Descriptor.rename ρ) := by
  induction tokens generalizing offset with
  | nil => rfl
  | cons t tokens ih =>
    cases t with
    | static s => exact ih (offset + 1)
    | expression e => exact congrArg (_ :: ·) (ih (offset + 1))

/-! ## Tokens of gaps -/

/-- From the number of a gap to its name. -/
def Gap.rename (number : String) : String :=
  "g" ++ number

theorem Gap.expression_not_mem_static (e : String) (p : List Char) :
    .expression e ∉ Gap.splitFrom.static p := by
  intro hm
  unfold Gap.splitFrom.static at hm
  split at hm
  · cases hm
  · cases List.mem_singleton.1 hm

namespace Sketch

/-- The two styles name the gaps differently, and nothing else. -/
theorem tokens_placeholder (σ : Sketch) :
    σ.tokens .placeholder = (σ.tokens .marker).map (Token.rename Gap.rename) := by
  have hstatic : ∀ p : List Char,
      (Gap.splitFrom.static p).map (Token.rename Gap.rename) = Gap.splitFrom.static p := by
    intro p
    unfold Gap.splitFrom.static
    split <;> rfl
  rw [tokens, tokens, List.map_append, List.map_flatMap, hstatic]
  refine congrArg (_ ++ ·) (List.flatMap_congr ?_)
  intro g _
  rw [List.map_cons, hstatic]
  rfl

/-- The expressions of a sketch are its gaps. -/
theorem expression_mem_tokens_iff {s : Style} {σ : Sketch} {e : String} :
    .expression e ∈ σ.tokens s ↔ ∃ k ∈ σ.gaps, e = s.name k := by
  unfold tokens
  rw [List.mem_append, List.mem_flatMap]
  constructor
  · rintro (h | ⟨g, hg, h⟩)
    · exact absurd h (Gap.expression_not_mem_static e σ.head)
    · rcases List.mem_cons.1 h with h | h
      · exact ⟨g.1, List.mem_map_of_mem hg, Token.expression.inj h⟩
      · exact absurd h (Gap.expression_not_mem_static e g.2)
  · rintro ⟨k, hk, rfl⟩
    obtain ⟨g, hg, rfl⟩ := List.mem_map.1 hk
    exact .inr ⟨g, hg, List.mem_cons_self⟩

/-- A sketch whose tokens are all static has no gap. -/
theorem any_isExpression_tokens (s : Style) (σ : Sketch) :
    (σ.tokens s).any Token.isExpression = !σ.tail.isEmpty := by
  have hstatic : ∀ p : List Char, (Gap.splitFrom.static p).any Token.isExpression = false :=
    fun p => by
      unfold Gap.splitFrom.static
      split <;> rfl
  cases h : σ.tail with
  | nil =>
    unfold tokens
    rw [h, List.flatMap_nil, List.append_nil, hstatic, List.isEmpty_nil, Bool.not_true]
  | cons g tail => simp [tokens, h, Token.isExpression]

/-! ## Values -/

variable {σ : Sketch}

theorem gapTokens?_write (h : σ.Clean) : Forest.gapTokens? (String.ofList (σ.write .marker)) =
    if σ.tail.isEmpty then none else some (σ.tokens .marker) := by
  simp only [Forest.gapTokens?, split_write h, any_isExpression_tokens]
  cases σ.tail.isEmpty <;> rfl

theorem hasPlaceholder_write (h : σ.Clean) :
    hasPlaceholder (String.ofList (σ.write .placeholder)) = !σ.tail.isEmpty := by
  unfold hasPlaceholder
  rw [tokenize_write h, any_isExpression_tokens]

/-- A value is emptied in both styles, or is the same in both. -/
theorem emptied_write (h : σ.Clean) :
    (if (Forest.gapTokens? (String.ofList (σ.write .marker))).isSome then ""
      else String.ofList (σ.write .marker)) =
    if hasPlaceholder (String.ofList (σ.write .placeholder)) then ""
      else String.ofList (σ.write .placeholder) := by
  rw [gapTokens?_write h, hasPlaceholder_write h]
  cases htail : σ.tail with
  | nil =>
    rw [write, write, htail]
    rfl
  | cons g tail => rfl

end Sketch

/-- The descriptors of an element's markers have the tokens of its attributes. -/
theorem Forest.exists_of_mem_ownGaps {e : Element} {s : Descriptor}
    (hs : s ∈ ownGaps (.element e)) :
    ∃ a ∈ e.attributes.entries, s = ⟨.root, .attributeValue a.1 (Gap.split a.2)⟩ := by
  obtain ⟨a, ha, hs⟩ := List.mem_filterMap.1 hs
  obtain ⟨tokens, htokens, rfl⟩ := Option.map_eq_some_iff.1 hs
  simp only [gapTokens?] at htokens
  split at htokens
  · obtain rfl := Option.some.inj htokens
    exact ⟨a, ha, rfl⟩
  · cases htokens

/-- An attribute with a placeholder has a descriptor. -/
theorem Element.mem_descriptors {e : Element} {a : String × String}
    (ha : a ∈ e.attributes.entries) {x : String} (hx : .expression x ∈ tokenize a.2) :
    ⟨.root, .attributeValue a.1 (tokenize a.2)⟩ ∈ e.descriptors := by
  have hplaceholder : hasPlaceholder a.2 = true := List.any_eq_true.2 ⟨_, hx, rfl⟩
  unfold Element.descriptors
  exact List.mem_map_of_mem (List.mem_filter.2 ⟨ha, hplaceholder⟩)

namespace Style

/-- Which attributes an element has does not depend on the style. -/
theorem exists_entries (as : List (String × Sketch)) :
    ∃ as' : List (String × Sketch), (∀ a ∈ as', a ∈ as) ∧
      ∀ s tag, (element s tag as).attributes.entries = as'.map (Sketch.writeAttribute s) := by
  obtain ⟨as', hmem, hentries⟩ := Attributes.exists_entries_ofList as
  exact ⟨as', hmem, fun s _ => hentries fun σ => String.ofList (σ.write s)⟩

theorem withoutGaps_element {tag : String} {as : List (String × Sketch)}
    (has : ∀ a ∈ as, a.2.Clean) :
    Forest.withoutGaps (.element (marker.element tag as)) =
      .element (placeholder.element tag as).emptied := by
  obtain ⟨as', hmem, hentries⟩ := exists_entries as
  have hsame : (marker.element tag as).attributes.mapValues
      (fun v => if (Forest.gapTokens? v).isSome then "" else v) =
      (placeholder.element tag as).attributes.mapValues
        fun v => if hasPlaceholder v then "" else v := by
    refine Attributes.eq_of_entries ?_
    rw [Attributes.entries_mapValues, Attributes.entries_mapValues, hentries, hentries,
      List.map_map, List.map_map]
    refine List.map_congr_left ?_
    intro a ha
    exact congrArg (a.1, ·) (Sketch.emptied_write (has a (hmem a ha)))
  rw [Forest.withoutGaps, Element.emptied, hsame]
  rfl

theorem descriptors_element {tag : String} {as : List (String × Sketch)}
    (has : ∀ a ∈ as, a.2.Clean) :
    (placeholder.element tag as).descriptors =
      (Forest.ownGaps (.element (marker.element tag as))).map (Descriptor.rename Gap.rename) := by
  obtain ⟨as', hmem, hentries⟩ := exists_entries as
  have has' : ∀ a ∈ as', a.2.Clean := fun a ha => has a (hmem a ha)
  unfold Element.descriptors
  rw [Forest.ownGaps, hentries, hentries]
  clear hentries hmem
  induction as' with
  | nil => rfl
  | cons a as' ih =>
    have ha : a.2.Clean := has' a List.mem_cons_self
    have hrest := ih fun x hx => has' x (List.mem_cons_of_mem a hx)
    have hplaceholder : hasPlaceholder (Sketch.writeAttribute .placeholder a).2 =
        !a.2.tail.isEmpty := Sketch.hasPlaceholder_write ha
    have htokens : Forest.gapTokens? (Sketch.writeAttribute .marker a).2 =
        if a.2.tail.isEmpty then none else some (a.2.tokens .marker) := Sketch.gapTokens?_write ha
    rw [List.map_cons, List.map_cons, List.filter_cons, List.filterMap_cons, hplaceholder, htokens]
    cases a.2.tail.isEmpty with
    | true => exact hrest
    | false =>
      have hsplit : tokenize (Sketch.writeAttribute .placeholder a).2 =
          (a.2.tokens .marker).map (Token.rename Gap.rename) := by
        rw [← Sketch.tokens_placeholder]
        exact Sketch.tokenize_write ha
      simp only [Bool.not_false, if_true, Bool.false_eq_true, if_false, List.map_cons,
        Option.map_some, hrest, hsplit]
      rfl

theorem ownGaps_element {tag : String} {as : List (String × Sketch)} (has : ∀ a ∈ as, a.2.Clean)
    {s : Descriptor} (hs : s ∈ Forest.ownGaps (.element (marker.element tag as))) :
    ∃ a ∈ as, s = ⟨.root, .attributeValue a.1 (a.2.tokens .marker)⟩ := by
  obtain ⟨as', hmem, hentries⟩ := exists_entries as
  obtain ⟨_, hwritten, rfl⟩ := Forest.exists_of_mem_ownGaps hs
  rw [hentries] at hwritten
  obtain ⟨a, ha, rfl⟩ := List.mem_map.1 hwritten
  refine ⟨a, hmem a ha, ?_⟩
  have hsplit : Gap.split (Sketch.writeAttribute .marker a).2 = a.2.tokens .marker :=
    Sketch.split_write (has a (hmem a ha))
  rw [hsplit]
  rfl

end Style

/-! ## Texts -/

/-- The token is static, or the number of a gap that fits a word. -/
def Token.IsGapToken : Token → Prop
  | static _ => True
  | expression e => ∃ k < UInt64.size, e = toString k

theorem ofComment?_toString {k : Nat} (h : k < UInt64.size) :
    Gap.ofComment? (String.ofList Gap.markerText ++ toString k) = some k := by
  have hlist : (String.ofList Gap.markerText ++ toString k).toList =
      Gap.markerText ++ Nat.toDigits 10 k := by
    rw [String.toList_append, String.toList_ofList, Style.toList_toString]
  simp only [Gap.ofComment?, hlist]
  rw [if_pos (List.isPrefixOf_iff_prefix.2 (List.prefix_append _ _)), List.drop_left,
    Numeral.unsigned?_toDigits h]

theorem map_withoutGaps_markedTrees {ts : List Token} (h : ∀ t ∈ ts, t.IsGapToken) :
    (markedTrees ts).map Forest.withoutGaps = slots (ts.map (Token.rename Gap.rename)) := by
  induction ts with
  | nil => rfl
  | cons t ts ih =>
    have hrest := ih fun x hx => h x (List.mem_cons_of_mem t hx)
    cases t with
    | static s => exact congrArg (Forest.cons (.text s) .nil) hrest
    | expression e =>
      obtain ⟨k, hk, rfl⟩ := h _ List.mem_cons_self
      have hempty : Forest.withoutGaps (Token.expression (toString k)).marked = .text "" := by
        unfold Token.marked
        rw [Forest.withoutGaps, ofComment?_toString hk]
        rfl
      show Forest.cons (Forest.withoutGaps (Token.expression (toString k)).marked) .nil _ = _
      rw [hempty]
      exact congrArg (Forest.cons (.text "") .nil) hrest

theorem gapDescriptors_markedTrees {ts : List Token} (h : ∀ t ∈ ts, t.IsGapToken)
    (offset : Nat) (rest : Forest Content) :
    (markedTrees ts ++ rest).gapDescriptors offset =
      textDescriptors offset ts ++ rest.gapDescriptors (offset + ts.length) := by
  induction ts generalizing offset with
  | nil => rfl
  | cons t ts ih =>
    have hrest := ih (fun x hx => h x (List.mem_cons_of_mem t hx)) (offset + 1)
    rw [List.length_cons, Nat.add_comm ts.length 1, ← Nat.add_assoc]
    cases t with
    | static s => exact hrest
    | expression e =>
      obtain ⟨k, hk, rfl⟩ := h _ List.mem_cons_self
      have hown : Forest.ownGaps (Token.expression (toString k)).marked =
          [⟨.root, .textContent (toString k)⟩] := by
        unfold Token.marked
        rw [Forest.ownGaps, ofComment?_toString hk]
      show (Forest.ownGaps (Token.expression (toString k)).marked ++ []).map _ ++
        (markedTrees ts ++ rest).gapDescriptors (offset + 1) = _
      rw [hown, hrest]
      rfl

/-- The expressions of a text's descriptors are those of its tokens. -/
theorem mem_gapNumbers_textDescriptors {offset : Nat} {ts : List Token} {e : String} :
    e ∈ (textDescriptors offset ts).flatMap Descriptor.gapNumbers ↔ .expression e ∈ ts := by
  induction ts generalizing offset with
  | nil => exact iff_of_false List.not_mem_nil List.not_mem_nil
  | cons t ts ih =>
    cases t with
    | static s =>
      unfold textDescriptors
      rw [ih, List.mem_cons, or_iff_right Token.noConfusion]
    | expression e' =>
      have hown : e ∈ Descriptor.gapNumbers ⟨⟨[offset]⟩, .textContent e'⟩ ↔
          Token.expression e = .expression e' :=
        List.mem_singleton.trans (Token.expression.injEq e e').symm.to_iff
      unfold textDescriptors
      rw [List.flatMap_cons, List.mem_append, ih, hown, List.mem_cons]

theorem isGapToken_tokens {P : Sketch.Policy} {G : Nat → Prop} (hG : ∀ k, G k → k < UInt64.size)
    {σ : Sketch} (hσ : σ.Allowed P G) : ∀ t ∈ σ.tokens .marker, t.IsGapToken := by
  intro t ht
  cases t with
  | static s => trivial
  | expression e =>
    obtain ⟨k, hk, rfl⟩ := Sketch.expression_mem_tokens_iff.1 ht
    exact ⟨k, hG k (hσ.gaps k hk), rfl⟩

/-! ## Trees -/

section Trees

open Sketch

theorem Style.marker_draw_text (σ : Sketch) (below beside : Forest Sketch.Node) :
    marker.draw (.cons (.text σ) below beside) =
      markedTrees (σ.tokens .marker) ++ marker.draw beside := rfl

theorem Style.placeholder_draw_text (σ : Sketch) (below beside : Forest Sketch.Node) :
    placeholder.draw (.cons (.text σ) below beside) =
      .cons (.text (String.ofList (σ.write .placeholder))) .nil (placeholder.draw beside) := rfl

variable {G : Nat → Prop} (hG : ∀ k, G k → k < UInt64.size)

include hG

/-- **Either drawing has the same skeleton.** -/
theorem skeleton_draw {F : Forest Sketch.Node} (hF : AllowedIn .clean G F) :
    (Style.placeholder.draw F).skeleton = (Style.marker.draw F).map Forest.withoutGaps := by
  induction F with
  | nil => rfl
  | cons a below beside ih₁ ih₂ =>
    obtain ⟨ha, hbelow, hbeside⟩ := allowedIn_cons.1 hF
    cases a with
    | element tag as =>
      have helement : Forest.withoutGaps (.element (Style.marker.element tag as)) =
          .element (Style.placeholder.element tag as).emptied :=
        Style.withoutGaps_element fun a h => (ha a h).obeys
      simp only [Style.draw, Forest.skeleton, Forest.map, helement, ih₁ hbelow, ih₂ hbeside,
        Forest.cons_append, Forest.nil_append]
    | text σ =>
      have htext : (Style.marker.texts σ).map Forest.withoutGaps =
          slots (tokenize (String.ofList (σ.write .placeholder))) := by
        rw [tokenize_write (Sketch.Allowed.obeys ha), tokens_placeholder]
        exact map_withoutGaps_markedTrees (isGapToken_tokens hG ha)
      simp only [Style.draw, Forest.skeleton, Style.texts, Forest.cons_append, Forest.nil_append,
        ih₂ hbeside, Forest.map_append, ← htext]
    | comment c =>
      have hcomment : Forest.withoutGaps (.comment c) = .comment c := by
        rw [Forest.withoutGaps, show Gap.ofComment? c = none from ha]
        rfl
      simp only [Style.draw, Forest.skeleton, Forest.map, hcomment, ih₂ hbeside,
        Forest.cons_append, Forest.nil_append]

/-- **Either drawing has the same descriptors**, but for the names of the gaps. -/
theorem descriptors_draw {F : Forest Sketch.Node} (hF : AllowedIn .clean G F) (offset : Nat) :
    (Style.placeholder.draw F).descriptors offset =
      ((Style.marker.draw F).gapDescriptors offset).map (Descriptor.rename Gap.rename) := by
  induction F generalizing offset with
  | nil => rfl
  | cons a below beside ih₁ ih₂ =>
    obtain ⟨ha, hbelow, hbeside⟩ := allowedIn_cons.1 hF
    cases a with
    | element tag as =>
      have helement : (Style.placeholder.element tag as).descriptors =
          (Forest.ownGaps (.element (Style.marker.element tag as))).map
            (Descriptor.rename Gap.rename) :=
        Style.descriptors_element fun a h => (ha a h).obeys
      simp only [Style.draw, Forest.descriptors, Forest.gapDescriptors, helement, ih₁ hbelow,
        ih₂ hbeside, List.map_append, ← map_nested_rename]
    | text σ =>
      have htokens : tokenize (String.ofList (σ.write .placeholder)) =
          (σ.tokens .marker).map (Token.rename Gap.rename) := by
        rw [tokenize_write (Sketch.Allowed.obeys ha), tokens_placeholder]
      have htext := gapDescriptors_markedTrees (isGapToken_tokens hG ha) offset
        (Style.marker.draw beside)
      rw [Style.placeholder_draw_text, Style.marker_draw_text, htext, Forest.descriptors, htokens,
        textDescriptors_rename, List.length_map, ih₂ hbeside, List.map_append]
    | comment c =>
      have hcomment : Forest.ownGaps (.comment c) = [] := by
        rw [Forest.ownGaps, show Gap.ofComment? c = none from ha]
      simp only [Style.draw, Forest.descriptors, Forest.gapDescriptors, hcomment, ih₂ hbeside,
        List.append_nil, List.map_nil, List.nil_append]

/-- **The expressions of the descriptors are the gaps** of the trees. -/
theorem exists_gap_of_mem {F : Forest Sketch.Node} (hF : AllowedIn .clean G F) {offset : Nat}
    {e : String}
    (h : e ∈ ((Style.marker.draw F).gapDescriptors offset).flatMap Descriptor.gapNumbers) :
    ∃ k, G k ∧ e = toString k := by
  have hname : ∀ {σ : Sketch}, σ.Allowed .clean G → .expression e ∈ σ.tokens .marker →
      ∃ k, G k ∧ e = toString k := by
    intro σ hσ he
    obtain ⟨k, hk, rfl⟩ := expression_mem_tokens_iff.1 he
    exact ⟨k, hσ.gaps k hk, rfl⟩
  induction F generalizing offset with
  | nil => cases h
  | cons a below beside ih₁ ih₂ =>
    obtain ⟨ha, hbelow, hbeside⟩ := allowedIn_cons.1 hF
    cases a with
    | element tag as =>
      simp only [Style.draw, Forest.gapDescriptors, List.flatMap_append, flatMap_gapNumbers_nested,
        List.mem_append] at h
      rcases h with (h | h) | h
      · obtain ⟨s, hs, he⟩ := List.mem_flatMap.1 h
        obtain ⟨a, has, rfl⟩ := Style.ownGaps_element (fun a h => (ha a h).obeys) hs
        exact hname (ha a has) (mem_gapNumbers_attributeValue.1 he)
      · exact ih₁ hbelow h
      · exact ih₂ hbeside h
    | text σ =>
      rw [Style.marker_draw_text, gapDescriptors_markedTrees (isGapToken_tokens hG ha),
        List.flatMap_append, List.mem_append] at h
      rcases h with h | h
      · exact hname ha (mem_gapNumbers_textDescriptors.1 h)
      · exact ih₂ hbeside h
    | comment c =>
      have hcomment : Forest.ownGaps (.comment c) = [] := by
        rw [Forest.ownGaps, show Gap.ofComment? c = none from ha]
      simp only [Style.draw, Forest.gapDescriptors, hcomment, List.append_nil, List.map_nil,
        List.nil_append] at h
      exact ih₂ hbeside h

end Trees

end MarkupTemplate

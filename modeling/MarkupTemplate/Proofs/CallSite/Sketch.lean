import MarkupTemplate.CallSite.Compile
import MarkupTemplate.Proofs.CallSite.Markers

/-!
# Texts with gaps

A text with gaps can be written in two styles: with a marker in every gap, as call sites are, or
with a placeholder. A reader of markup can tell neither from a character that it stops at, so it
treats both writings alike; and each is split into the same tokens where it is clean, that is, where
nothing looks like a gap but the gaps. What the readers leave between the gaps was there before, so
it obeys any rule that holds of the parts of a text with the text (`Policy`).

Results:
* `decode_write`: entities are decoded between the gaps.
* `tokenize_write`, `split_write`: either style is split at its gaps.
-/

namespace MarkupTemplate

open Text Markup

/-- The name of a gap where a placeholder stands for it. -/
def Gap.key (k : Nat) : String :=
  "g" ++ toString k

/-- How gaps are written. -/
inductive Style where
  /-- As markers. -/
  | marker
  /-- As placeholders. -/
  | placeholder

/-- A text with gaps. -/
structure Sketch where
  /-- What stands before the first gap. -/
  head : List Char
  /-- The gaps, each with what stands after it. -/
  tail : List (Nat × List Char)

namespace Style

/-- The expression that stands for a gap. -/
def name : Style → Nat → String
  | marker, k => toString k
  | placeholder, k => Gap.key k

/-- A gap as it is written. -/
def hole : Style → Nat → List Char
  | marker, k => Gap.marker k
  | placeholder, k => '{' :: ((placeholder.name k).toList ++ ['}'])

/-- Gaps as they are written, each with what stands after it. -/
def writeTail (s : Style) (tail : List (Nat × List Char)) : List Char :=
  tail.flatMap fun g => s.hole g.1 ++ g.2

end Style

namespace Sketch

/-- The text with its gaps written. -/
def write (s : Style) (σ : Sketch) : List Char :=
  σ.head ++ s.writeTail σ.tail

/-- The gaps in order. -/
def gaps (σ : Sketch) : List Nat :=
  σ.tail.map Prod.fst

/-- The texts between the gaps. -/
def parts (σ : Sketch) : List (List Char) :=
  σ.head :: σ.tail.map Prod.snd

/-- A text that holds nothing a gap could be mistaken for. -/
def IsCleanPart (p : List Char) : Prop :=
  '{' ∉ p ∧ ¬Gap.markerText <:+: p

/-- Nothing between the gaps could be mistaken for one. -/
def Clean (σ : Sketch) : Prop :=
  ∀ p ∈ σ.parts, IsCleanPart p

/-- The sketch with its entities decoded. -/
def decoded (σ : Sketch) : Sketch :=
  ⟨decode σ.head, σ.tail.map fun g => (g.1, decode g.2)⟩

/-- The tokens of a sketch: its gaps, and the texts between them that are not empty. -/
def tokens (s : Style) (σ : Sketch) : List Token :=
  Gap.splitFrom.static σ.head ++
    σ.tail.flatMap fun g => .expression (s.name g.1) :: Gap.splitFrom.static g.2

end Sketch

/-! ## How gaps start and what they hold -/

namespace Style

theorem toList_toString (k : Nat) : (toString k).toList = Nat.toDigits 10 k :=
  Nat.toList_repr

theorem toList_name (k : Nat) : (placeholder.name k).toList = 'g' :: Nat.toDigits 10 k := by
  rw [name, Gap.key, String.toList_append, toList_toString]
  rfl

theorem hole_eq_cons (s : Style) (k : Nat) :
    ∃ c cs, s.hole k = c :: cs ∧ (c = '<' ∨ c = '{') := by
  cases s with
  | marker => exact ⟨_, _, rfl, .inl rfl⟩
  | placeholder => exact ⟨_, _, rfl, .inr rfl⟩

/-- The characters that gaps are written with. -/
def isHoleChar (c : Char) : Bool :=
  c.isDigit || c ∈ Gap.markerOpen ++ Gap.markerClose ++ ['{', 'g', '}']

theorem isHoleChar_of_mem_hole {s : Style} {k : Nat} {c : Char} (h : c ∈ s.hole k) :
    isHoleChar c = true := by
  unfold isHoleChar
  rw [Bool.or_eq_true, decide_eq_true_eq]
  cases s with
  | marker =>
    simp only [hole, Gap.marker, List.mem_append] at h ⊢
    rcases h with (h | h) | h
    · exact .inr (.inl (.inl h))
    · exact .inl (isDigit_of_mem_toDigits h)
    · exact .inr (.inl (.inr h))
  | placeholder =>
    rw [hole, toList_name, List.cons_append, List.mem_cons, List.mem_cons, List.mem_append,
      List.mem_singleton] at h
    rcases h with rfl | rfl | h | rfl
    · exact .inr (by decide)
    · exact .inr (by decide)
    · exact .inl (isDigit_of_mem_toDigits h)
    · exact .inr (by decide)

theorem not_mem_hole {c : Char} (hc : isHoleChar c = false) (s : Style) (k : Nat) :
    c ∉ s.hole k := by
  intro h
  rw [isHoleChar_of_mem_hole h] at hc
  cases hc

/-- No gap starts with one of the reader's characters. -/
def StopsAtGaps (p : Char → Bool) : Prop :=
  p '<' = false ∧ p '{' = false

theorem stopsAtGaps_isBlank : StopsAtGaps isBlank := ⟨rfl, rfl⟩

theorem stopsAtGaps_isTagChar : StopsAtGaps isTagChar := ⟨rfl, rfl⟩

theorem stopsAtGaps_isNameChar : StopsAtGaps isNameChar := ⟨rfl, rfl⟩

/-- A gap stops every reader whose characters it does not start with. -/
theorem stops_writeTail {p : Char → Bool} (h : StopsAtGaps p) (s : Style)
    (tail : List (Nat × List Char)) : Stops p (s.writeTail tail) := by
  cases tail with
  | nil => exact stops_nil p
  | cons g tail =>
    obtain ⟨c, cs, hhole, hc⟩ := s.hole_eq_cons g.1
    unfold writeTail
    rw [List.flatMap_cons, hhole]
    refine stops_cons ?_ _
    rcases hc with rfl | rfl
    · exact h.1
    · exact h.2

/-- A number ends no comment. -/
theorem not_infix_append_toDigits {cs : List Char} (h : '>' ∉ cs) (k : Nat) :
    ¬['-', '-', '>'] <:+: cs ++ Nat.toDigits 10 k := by
  intro hi
  have hm : '>' ∈ cs ++ Nat.toDigits 10 k := hi.subset (by decide)
  rcases List.mem_append.1 hm with hm | hm
  · exact h hm
  · exact not_mem_toDigits rfl k hm

@[simp] theorem writeTail_nil (s : Style) : s.writeTail [] = [] := rfl

theorem writeTail_cons (s : Style) (g : Nat × List Char) (tail : List (Nat × List Char)) :
    s.writeTail (g :: tail) = s.hole g.1 ++ (g.2 ++ s.writeTail tail) := by
  unfold writeTail
  rw [List.flatMap_cons, List.append_assoc, ← writeTail]

end Style

/-! ## Entities -/

namespace Markup

/-- The characters of entities. -/
def isEntityChar (c : Char) : Bool :=
  c ∈ ['&', 'a', 'm', 'p', 'l', 't', 'g', 'q', 'u', 'o', 's', '#', '3', '9', ';']

/-- No entity goes on with a character that entities do not have. -/
theorem decode_append {rest : List Char} (hr : Stops isEntityChar rest) (cs : List Char) :
    decode (cs ++ rest) = decode cs ++ decode rest := by
  fun_induction decode cs with
  | case1 => rfl
  | case2 cs ih | case3 cs ih | case4 cs ih | case5 cs ih | case6 cs ih | case7 cs ih =>
    simp [decode, ih]
  | case8 c cs h₁ h₂ h₃ h₄ h₅ h₆ ih =>
    -- an entity that starts here would be one in the text before `rest`
    have hno : ∀ w : List Char, w.all isEntityChar → (∀ u, cs ≠ w ++ u) →
        ∀ u, cs ++ rest ≠ w ++ u := by
      intro w hw hcs u hu
      obtain ⟨v, hv⟩ := prefix_of_prefix_append (List.all_eq_true.1 hw) hr ⟨u, hu.symm⟩
      exact hcs v hv.symm
    rw [List.cons_append, decode, ih]
    · rfl
    · exact fun u hc => hno ['a', 'm', 'p', ';'] rfl (h₁ · hc) u
    · exact fun u hc => hno ['l', 't', ';'] rfl (h₂ · hc) u
    · exact fun u hc => hno ['g', 't', ';'] rfl (h₃ · hc) u
    · exact fun u hc => hno ['q', 'u', 'o', 't', ';'] rfl (h₄ · hc) u
    · exact fun u hc => hno ['a', 'p', 'o', 's', ';'] rfl (h₅ · hc) u
    · exact fun u hc => hno ['#', '3', '9', ';'] rfl (h₆ · hc) u

theorem decode_append_of_not_mem {cs : List Char} (h : '&' ∉ cs) (rest : List Char) :
    decode (cs ++ rest) = cs ++ decode rest := by
  induction cs with
  | nil => rfl
  | cons c cs ih =>
    rw [List.cons_append, decode_cons fun e => h (e ▸ List.mem_cons_self),
      ih fun hm => h (List.mem_cons_of_mem c hm)]
    rfl

/-- What entities stand for. -/
def escaped : List Char :=
  ['&', '<', '>', '"', '\'']

theorem prefix_of_prefix_decode {w cs : List Char} (hw : ∀ c ∈ w, c ∉ escaped)
    (h : w <+: decode cs) : w <+: cs := by
  induction w generalizing cs with
  | nil => simp
  | cons c w ih =>
    have hc := hw c List.mem_cons_self
    have hrest : ∀ c ∈ w, c ∉ escaped := fun d hd => hw d (List.mem_cons_of_mem c hd)
    unfold decode at h
    split at h
    case h_1 => simp at h
    case h_8 d cs _ _ _ _ _ _ =>
      rw [List.cons_prefix_cons] at h ⊢
      exact ⟨h.1, ih hrest h.2⟩
    all_goals exact absurd ((List.cons_prefix_cons.1 h).1 ▸ by decide) hc

/-- Decoding brings about no text without the characters that entities stand for. -/
theorem infix_of_infix_decode {w cs : List Char} (hw : ∀ c ∈ w, c ∉ escaped)
    (h : w <:+: decode cs) : w <:+: cs := by
  have hstart : ∀ (es cs : List Char) (c : Char), w <:+: c :: decode cs →
      decode (es ++ cs) = c :: decode cs → (w <:+: decode cs → w <:+: cs) → w <:+: es ++ cs :=
    fun es cs c h heq ih => by
      rcases List.infix_cons_iff.1 h with hp | hi
      · exact (prefix_of_prefix_decode hw (heq ▸ hp)).isInfix
      · exact (ih hi).trans (List.suffix_append es cs).isInfix
  fun_induction decode cs with
  | case1 => exact h
  | case2 cs ih => exact hstart ['&', 'a', 'm', 'p', ';'] cs _ h rfl ih
  | case3 cs ih => exact hstart ['&', 'l', 't', ';'] cs _ h rfl ih
  | case4 cs ih => exact hstart ['&', 'g', 't', ';'] cs _ h rfl ih
  | case5 cs ih => exact hstart ['&', 'q', 'u', 'o', 't', ';'] cs _ h rfl ih
  | case6 cs ih => exact hstart ['&', 'a', 'p', 'o', 's', ';'] cs _ h rfl ih
  | case7 cs ih => exact hstart ['&', '#', '3', '9', ';'] cs _ h rfl ih
  | case8 c cs h₁ h₂ h₃ h₄ h₅ h₆ ih =>
    refine hstart [c] cs c h ?_ ih
    rw [List.singleton_append, decode] <;> assumption

end Markup

namespace Sketch

/-- Decoding brings about no brace. -/
theorem not_mem_decode {p : List Char} (h : '{' ∉ p) : '{' ∉ decode p := by
  intro hm
  obtain ⟨before, after, hsplit⟩ := List.append_of_mem hm
  have hbrace : ['{'] <:+: decode p := ⟨before, after, by rw [hsplit]; simp⟩
  exact h ((infix_of_infix_decode (by simp [escaped]) hbrace).subset List.mem_cons_self)

theorem isCleanPart_decode {p : List Char} (h : IsCleanPart p) : IsCleanPart (decode p) := by
  have hmarker : ∀ c ∈ Gap.markerText, c ∉ escaped := by simp [Gap.markerText, escaped]
  exact ⟨not_mem_decode h.1, fun hi => h.2 (infix_of_infix_decode hmarker hi)⟩

/-! ### Policies -/

/-- What may stand between gaps, and in a comment without a gap. A part of what may stand there may
stand there too, and so may what it decodes to. -/
structure Policy where
  /-- What may stand between gaps. -/
  part : List Char → Prop
  /-- What may stand in a comment without a gap. -/
  comment : String → Prop
  /-- Nothing may stand between gaps. -/
  nil : part []
  /-- So may a part of what may. -/
  of_infix : ∀ {p q : List Char}, q <:+: p → part p → part q
  /-- So may what it decodes to. -/
  of_decode : ∀ {p : List Char}, part p → part (decode p)
  /-- A comment that stands between gaps may stand there. -/
  of_comment : ∀ {p body : List Char}, part p → body ++ ['-', '-', '>'] <:+: p →
    comment (String.ofList body)
  /-- A comment that is no marker may stand anywhere. -/
  of_ofComment? : ∀ {c : String}, Gap.ofComment? c = none → comment c

/-- Everything between the gaps may stand there. -/
def Obeys (P : Policy) (σ : Sketch) : Prop :=
  ∀ p ∈ σ.parts, P.part p

theorem isCleanPart_of_infix {p q : List Char} (h : q <:+: p) (hp : IsCleanPart p) :
    IsCleanPart q :=
  ⟨fun hm => hp.1 (h.subset hm), fun hi => hp.2 (hi.trans h)⟩

/-- Nothing could be mistaken for a gap. -/
def Policy.clean : Policy where
  part := IsCleanPart
  comment := fun c => Gap.ofComment? c = none
  nil := ⟨List.not_mem_nil, by decide⟩
  of_infix := isCleanPart_of_infix
  of_decode := isCleanPart_decode
  of_comment := by
    intro p body hp hbody
    have hnot : ¬Gap.markerText <+: body := fun h =>
      hp.2 ((h.isInfix.trans (List.prefix_append body _).isInfix).trans hbody)
    simp only [Gap.ofComment?, String.toList_ofList]
    rw [if_neg fun h => hnot (List.isPrefixOf_iff_prefix.1 h)]
  of_ofComment? := id

theorem Obeys.decoded {P : Policy} {σ : Sketch} (h : σ.Obeys P) : σ.decoded.Obeys P := by
  intro p hp
  unfold parts at hp
  rw [Sketch.decoded, List.map_map, List.mem_cons, List.mem_map] at hp
  rcases hp with rfl | ⟨g, hg, rfl⟩
  · exact P.of_decode (h _ List.mem_cons_self)
  · exact P.of_decode (h _ (List.mem_cons_of_mem _ (List.mem_map_of_mem hg)))

@[simp] theorem gaps_decoded (σ : Sketch) : σ.decoded.gaps = σ.gaps := by
  unfold gaps
  rw [decoded, List.map_map]
  rfl

/-- **Entities are decoded between the gaps.** -/
theorem decode_write (s : Style) (σ : Sketch) : decode (σ.write s) = σ.decoded.write s := by
  have hentity : Style.StopsAtGaps isEntityChar := ⟨rfl, rfl⟩
  have htail : ∀ tail : List (Nat × List Char),
      decode (s.writeTail tail) = s.writeTail (tail.map fun g => (g.1, decode g.2)) := by
    intro tail
    induction tail with
    | nil => rfl
    | cons g tail ih =>
      have hamp : '&' ∉ s.hole g.1 := Style.not_mem_hole rfl s g.1
      rw [Style.writeTail_cons, decode_append_of_not_mem hamp,
        decode_append (Style.stops_writeTail hentity s tail), ih, List.map_cons,
        Style.writeTail_cons]
  unfold write
  rw [decode_append (Style.stops_writeTail hentity s σ.tail), htail]
  rfl

/-! ## Tokens -/

/-- The placeholder that stands for a gap. -/
def placeholder (k : Nat) : Placeholder where
  left := []
  names := [(Style.placeholder.name k).toList]
  right := []
  blank_left := fun _ hc => absurd hc List.not_mem_nil
  names_ne_nil := List.cons_ne_nil _ _
  isName_names := by
    intro s hs
    have hdigit : ∀ c ∈ Nat.toDigits 10 k, Placeholder.isNameChar c = true := by
      intro c hc
      simp [Placeholder.isNameChar, Char.isAlphanum, isDigit_of_mem_toDigits hc]
    have hstart : Placeholder.isNameStart 'g' = true := by decide
    rw [List.mem_singleton.1 hs, Style.toList_name]
    exact Bool.and_eq_true_iff.2 ⟨hstart, List.all_eq_true.2 hdigit⟩
  blank_right := fun _ hc => absurd hc List.not_mem_nil

theorem path_placeholder (k : Nat) : (placeholder k).path = (Style.placeholder.name k).toList := by
  simp [Placeholder.path, placeholder]

/-- The text with placeholders, cut at its gaps. -/
def decomposition (head : List Char) : List (Nat × List Char) → Decomposition
  | [] => .last head
  | g :: tail => .next head (placeholder g.1) (decomposition g.2 tail)

theorem written_decomposition (head : List Char) (tail : List (Nat × List Char)) :
    (decomposition head tail).written = head ++ Style.placeholder.writeTail tail := by
  induction tail generalizing head with
  | nil => rw [decomposition, Decomposition.written, Style.writeTail_nil, List.append_nil]
  | cons g tail ih =>
    have hhole : (placeholder g.1).written = Style.placeholder.hole g.1 := by
      rw [Placeholder.written, path_placeholder]
      rfl
    rw [decomposition, Decomposition.written, ih, hhole, Style.writeTail_cons]

theorem tokens_decomposition (head : List Char) (tail : List (Nat × List Char)) :
    (decomposition head tail).tokens = tokens .placeholder ⟨head, tail⟩ := by
  induction tail generalizing head with
  | nil => exact (List.append_nil _).symm
  | cons g tail ih =>
    rw [decomposition, Decomposition.tokens, ih, path_placeholder, String.ofList_toList]
    rfl

theorem leftmost_decomposition {head : List Char} {tail : List (Nat × List Char)}
    (hhead : '{' ∉ head) (htail : ∀ g ∈ tail, '{' ∉ g.2) :
    (decomposition head tail).Leftmost := by
  induction tail generalizing head with
  | nil => exact Decomposition.noneStarts_of_not_mem hhead _
  | cons g tail ih =>
    obtain ⟨hg, htail⟩ := List.forall_mem_cons.1 htail
    exact ⟨Decomposition.noneStarts_of_not_mem hhead _, ih hg htail⟩

/-- **A text with placeholders is split at its gaps**, where there is no other brace. -/
theorem tokenize_write_of_not_mem {σ : Sketch} (h : ∀ p ∈ σ.parts, '{' ∉ p) :
    tokenize (String.ofList (σ.write .placeholder)) = σ.tokens .placeholder := by
  have hhead : '{' ∉ σ.head := h σ.head List.mem_cons_self
  have htail : ∀ g ∈ σ.tail, '{' ∉ g.2 :=
    fun g hg => h g.2 (List.mem_cons_of_mem _ (List.mem_map_of_mem hg))
  rw [tokenize, String.toList_ofList, write, ← written_decomposition,
    (leftmost_decomposition hhead htail).tokensFrom_written, tokens_decomposition]

theorem tokenize_write {σ : Sketch} (h : σ.Clean) :
    tokenize (String.ofList (σ.write .placeholder)) = σ.tokens .placeholder :=
  tokenize_write_of_not_mem fun p hp => (h p hp).1

/-- The gaps by their numbers, each with the text after it. -/
def numbered (tail : List (Nat × List Char)) : List (String × String) :=
  tail.map fun g => (toString g.1, String.ofList g.2)

theorem toList_writeTokens_numbered (σ : Sketch) :
    (Gap.writeTokens (Gap.turns (String.ofList σ.head) (numbered σ.tail))).toList =
      σ.write .marker := by
  have hhole : ∀ k : Nat, Gap.written (toString k).toList = Style.marker.hole k := by
    intro k
    rw [Style.toList_toString, Gap.written_toDigits, Style.hole]
  rw [Gap.toList_writeTokens_turns, numbered, List.flatMap_map, String.toList_ofList]
  simp only [hhole, String.toList_ofList]
  rfl

theorem nonempty_numbered (head : List Char) (tail : List (Nat × List Char)) :
    Gap.nonempty (Gap.turns (String.ofList head) (numbered tail)) =
      tokens .marker ⟨head, tail⟩ := by
  induction tail generalizing head with
  | nil =>
    rw [numbered, List.map_nil, Gap.turns, Gap.nonempty_static, String.toList_ofList]
    exact (List.append_nil _).symm
  | cons g tail ih =>
    rw [numbered, List.map_cons, Gap.nonempty_turns_cons, ← numbered, ih, String.toList_ofList]
    rfl

/-- **A text with markers is split at its gaps.** -/
theorem split_write {σ : Sketch} (h : σ.Clean) :
    Gap.split (String.ofList (σ.write .marker)) = σ.tokens .marker := by
  have hparts : String.ofList σ.head :: (numbered σ.tail).map Prod.snd =
      σ.parts.map String.ofList := by
    simp [numbered, parts]
  have hgaps : (numbered σ.tail).map Prod.fst = σ.gaps.map toString := by
    simp [numbered, gaps]
  rw [← toList_writeTokens_numbered, String.ofList_toList, Gap.split, Gap.splitFrom_turns,
    nonempty_numbered]
  · rw [hparts, List.forall_mem_map]
    intro p hp hi
    rw [String.toList_ofList] at hi
    exact (h p hp).2 ((List.suffix_append ['<', '!', '-', '-'] Gap.markerText).isInfix.trans hi)
  · rw [hgaps, List.forall_mem_map]
    intro k _
    have hne : (toString k).toList ≠ [] := Style.toList_toString k ▸ Nat.toDigits_ne_nil
    refine ⟨fun he => hne (he ▸ rfl), fun c hc => ?_⟩
    rw [Style.toList_toString] at hc
    exact isDigit_of_mem_toDigits hc

end Sketch

end MarkupTemplate

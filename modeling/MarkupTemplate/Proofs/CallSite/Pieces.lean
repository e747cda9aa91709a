import MarkupTemplate.Proofs.CallSite.Sketch
import MarkupTemplate.Proofs.Markup.Printable

/-!
# Reading texts with gaps

The readers of markup do the same on both writings of a sketch: they refuse both, or read the same
from both and stop at the same place between the gaps. A gap that stands in a comment is the one
exception. A marker ends the comment it stands in, and a placeholder does not; in either style the
gap is lost (`readCommentBody_lost`).

Results:
* `readOpening_write`, `readClosing_write`: tags are read alike.
* `readPiece_write`: so is every tag and comment, unless a gap is lost.
-/

namespace MarkupTemplate

open Text Markup

namespace Sketch

/-! ## What is left -/

/-- What is read from a sketch, and what is left of it. -/
structure Splits (σ : Sketch) (read : List Sketch) (left : Sketch) : Prop where
  /-- Every gap is in what is read or in what is left. -/
  gaps : σ.gaps = read.flatMap Sketch.gaps ++ left.gaps
  /-- Both obey what the sketch obeys. -/
  obeys : ∀ P : Policy, σ.Obeys P → (∀ τ ∈ read, τ.Obeys P) ∧ left.Obeys P

theorem Splits.trans {σ left left' : Sketch} {read read' : List Sketch} (h : σ.Splits read left)
    (h' : left.Splits read' left') : σ.Splits (read ++ read') left' where
  gaps := by rw [h.gaps, h'.gaps, List.flatMap_append, List.append_assoc]
  obeys := fun P hσ => by
    obtain ⟨hread, hleft⟩ := h.obeys P hσ
    obtain ⟨hread', hleft'⟩ := h'.obeys P hleft
    refine ⟨fun τ hτ => ?_, hleft'⟩
    rcases List.mem_append.1 hτ with hτ | hτ
    · exact hread τ hτ
    · exact hread' τ hτ

/-- Characters before the first gap are read. -/
theorem splits_head {head rest : List Char} (h : rest <:+: head)
    (tail : List (Nat × List Char)) : Splits ⟨head, tail⟩ [] ⟨rest, tail⟩ where
  gaps := rfl
  obeys := fun P hσ => by
    refine ⟨fun _ hτ => absurd hτ List.not_mem_nil, ?_⟩
    intro p hp
    rcases List.mem_cons.1 hp with rfl | hp
    · exact P.of_infix h (hσ head List.mem_cons_self)
    · exact hσ p (List.mem_cons_of_mem head hp)

/-- The reader refuses the sketch however its gaps are written. -/
def Refused {α : Type} (read : List Char → Except Failure α) (σ : Sketch) : Prop :=
  ∀ s r, read (σ.write s) ≠ .ok r

theorem Refused.of_eq {α : Type} {read read' : List Char → Except Failure α} {σ σ' : Sketch}
    (h : σ'.Refused read') (hread : ∀ s, read (σ.write s) = read' (σ'.write s)) :
    σ.Refused read := by
  intro s r hr
  rw [hread] at hr
  exact h s r hr

/-- A sketch starts with a character however its gaps are written, or does not at all. -/
theorem starts_or_not (σ : Sketch) (c : Char) (hc : c ≠ '<' ∧ c ≠ '{') :
    (∃ σ' : Sketch, σ.Splits [] σ' ∧ ∀ s, σ.write s = c :: σ'.write s) ∨
      ∀ s, (σ.write s).head? ≠ some c := by
  obtain ⟨head, tail⟩ := σ
  cases head with
  | nil =>
    refine .inr ?_
    intro s h
    have hstops : Style.StopsAtGaps fun d => decide (d = c) :=
      ⟨decide_eq_false hc.1.symm, decide_eq_false hc.2.symm⟩
    have := Style.stops_writeTail hstops s tail c h
    simp at this
  | cons d head =>
    by_cases hd : d = c
    · subst hd
      exact .inl ⟨⟨head, tail⟩, splits_head (List.suffix_cons d head).isInfix tail, fun _ => rfl⟩
    · exact .inr fun s h => hd (Option.some.inj h)

theorem dropWhile_write {p : Char → Bool} (hp : Style.StopsAtGaps p) (σ : Sketch) :
    ∃ σ' : Sketch, σ.Splits [] σ' ∧ ∀ s, (σ.write s).dropWhile p = σ'.write s :=
  ⟨⟨σ.head.dropWhile p, σ.tail⟩, splits_head (List.dropWhile_suffix p).isInfix σ.tail,
    fun s => dropWhile_append (Style.stops_writeTail hp s σ.tail) σ.head⟩

/-- A sketch is cut at the first of a character between its gaps. -/
theorem exists_cut (q : Char) (σ : Sketch) :
    ∃ τ σ' : Sketch, σ.Splits [τ] σ' ∧ (∀ p ∈ τ.parts, q ∉ p) ∧
      (∀ s, σ.write s = τ.write s ++ σ'.write s) ∧
      (σ' = ⟨[], []⟩ ∨ ∃ rest, σ'.head = q :: rest) := by
  obtain ⟨head, tail⟩ := σ
  -- the sketch is cut in its first part, or in what follows the first gap
  have hfirst : ∀ (head : List Char) (tail : List (Nat × List Char)), q ∈ head →
      ∃ before after, Splits ⟨head, tail⟩ [⟨before, []⟩] ⟨q :: after, tail⟩ ∧ q ∉ before ∧
        head = before ++ q :: after := by
    intro head tail hq
    obtain ⟨before, after, rfl, hbefore⟩ := List.eq_append_cons_of_mem hq
    refine ⟨before, after, ⟨rfl, fun P hσ => ⟨fun τ hτ p hp => ?_, ?_⟩⟩, hbefore, rfl⟩
    · obtain rfl := List.mem_singleton.1 hτ
      obtain rfl := List.mem_singleton.1 hp
      exact P.of_infix (List.prefix_append p _).isInfix (hσ _ List.mem_cons_self)
    · exact ((splits_head (List.suffix_append before _).isInfix tail).obeys P hσ).2
  induction tail generalizing head with
  | nil =>
    by_cases hq : q ∈ head
    · obtain ⟨before, after, hsplits, hbefore, rfl⟩ := hfirst head [] hq
      refine ⟨_, _, hsplits, fun p hp => ?_, fun s => ?_, .inr ⟨after, rfl⟩⟩
      · exact List.mem_singleton.1 hp ▸ hbefore
      · simp [write]
    · refine ⟨⟨head, []⟩, ⟨[], []⟩, ⟨rfl, fun P hσ => ⟨fun τ hτ => ?_, fun p hp => ?_⟩⟩,
        fun p hp => ?_, fun s => ?_, .inl rfl⟩
      · exact List.mem_singleton.1 hτ ▸ hσ
      · obtain rfl := List.mem_singleton.1 hp
        exact P.nil
      · exact List.mem_singleton.1 hp ▸ hq
      · simp [write]
  | cons g tail ih =>
    by_cases hq : q ∈ head
    · obtain ⟨before, after, hsplits, hbefore, rfl⟩ := hfirst head (g :: tail) hq
      refine ⟨_, _, hsplits, fun p hp => ?_, fun s => ?_, .inr ⟨after, rfl⟩⟩
      · exact List.mem_singleton.1 hp ▸ hbefore
      · simp [write]
    · obtain ⟨⟨p, ps⟩, σ', hsplits, hτ, hwrite, hend⟩ := ih g.2
      refine ⟨⟨head, (g.1, p) :: ps⟩, σ', ⟨?_, fun P hσ => ?_⟩, fun x hx => ?_, fun s => ?_, hend⟩
      · have := congrArg (g.1 :: ·) hsplits.gaps
        simpa [Sketch.gaps] using this
      · obtain ⟨hread, hleft⟩ := hsplits.obeys P fun x hx => hσ x (List.mem_cons_of_mem head hx)
        refine ⟨fun τ hτ x hx => ?_, hleft⟩
        obtain rfl := List.mem_singleton.1 hτ
        rcases List.mem_cons.1 hx with rfl | hx
        · exact hσ _ List.mem_cons_self
        · exact hread _ List.mem_cons_self x hx
      · rcases List.mem_cons.1 hx with rfl | hx
        · exact hq
        · exact hτ x hx
      · have := hwrite s
        simp only [write, Style.writeTail_cons, List.append_assoc] at this ⊢
        rw [this]

/-! ## Names and values -/

theorem readName_write {p : Char → Bool} (hp : Style.StopsAtGaps p) (σ : Sketch) :
    σ.Refused (readName p) ∨ ∃ (name : String) (σ' : Sketch), σ.Splits [] σ' ∧
      ∀ s, readName p (σ.write s) = .ok (name, σ'.write s) := by
  have htake : ∀ s, (σ.write s).takeWhile p = σ.head.takeWhile p := fun s =>
    takeWhile_append (Style.stops_writeTail hp s σ.tail) σ.head
  obtain ⟨σ', hsplits, hdrop⟩ := dropWhile_write hp σ
  by_cases h : σ.head.takeWhile p = []
  · refine .inl ?_
    intro s r hr
    obtain ⟨hne, -⟩ := readName_eq_ok_iff.1 hr
    exact hne ((htake s).trans h)
  · refine .inr ⟨String.ofList (σ.head.takeWhile p), σ', hsplits, ?_⟩
    intro s
    rw [readName_eq_ok_iff, htake, hdrop]
    exact ⟨h, rfl, rfl⟩

/-- No quote stands in a gap. -/
theorem not_mem_write {q : Char} (hq : q = '"' ∨ q = '\'') {τ : Sketch}
    (h : ∀ p ∈ τ.parts, q ∉ p) (s : Style) : q ∉ τ.write s := by
  have hhole : ∀ k, q ∉ s.hole k := by
    rcases hq with rfl | rfl
    · exact Style.not_mem_hole rfl s
    · exact Style.not_mem_hole rfl s
  unfold write Style.writeTail
  rw [List.mem_append, List.mem_flatMap]
  rintro (hm | ⟨g, hg, hm⟩)
  · exact h _ List.mem_cons_self hm
  · rcases List.mem_append.1 hm with hm | hm
    · exact hhole g.1 hm
    · exact h g.2 (List.mem_cons_of_mem _ (List.mem_map_of_mem hg)) hm

/-- What was read, decoded. -/
theorem Splits.decoded {σ τ left : Sketch} (h : σ.Splits [τ] left) :
    σ.Splits [τ.decoded] left where
  gaps := by simpa using h.gaps
  obeys := fun P hσ => by
    obtain ⟨hτ, hleft⟩ := h.obeys P hσ
    exact ⟨fun x hx => List.mem_singleton.1 hx ▸ (hτ τ List.mem_cons_self).decoded, hleft⟩

theorem readUntilQuote_write {q : Char} (hq : q = '"' ∨ q = '\'') (σ : Sketch) :
    σ.Refused (readUntilQuote q) ∨ ∃ τ σ' : Sketch, σ.Splits [τ] σ' ∧
      ∀ s, readUntilQuote q (σ.write s) = .ok (String.ofList (τ.write s), σ'.write s) := by
  obtain ⟨τ, σ', hsplits, hτ, hwrite, hend⟩ := exists_cut q σ
  have hne : ∀ s, ∀ c ∈ τ.write s, decide (c ≠ q) = true := fun s c hc =>
    decide_eq_true fun e => not_mem_write hq hτ s (e ▸ hc)
  rcases hend with rfl | ⟨rest, hrest⟩
  · refine .inl ?_
    intro s r hr
    obtain ⟨hdrop, -⟩ := readUntilQuote_eq_ok_iff.1 hr
    have hend : Stops (fun c => decide (c ≠ q)) (write s ⟨[], []⟩) := stops_nil _
    rw [hwrite, dropWhile_append_of_all (hne s) hend] at hdrop
    cases hdrop
  · refine .inr ⟨τ.decoded, ⟨rest, σ'.tail⟩, ?_, fun s => ?_⟩
    · have hquote : σ'.Splits [] ⟨rest, σ'.tail⟩ := by
        obtain ⟨head, tail⟩ := σ'
        obtain rfl : head = q :: rest := hrest
        exact splits_head (List.suffix_cons q rest).isInfix tail
      exact hsplits.decoded.trans hquote
    · have hσ' : σ'.write s = q :: Sketch.write s ⟨rest, σ'.tail⟩ := by
        unfold write
        rw [hrest]
        rfl
      have hstop : Stops (fun c => decide (c ≠ q)) (σ'.write s) := by
        rw [hσ']
        exact stops_cons (by simp) _
      rw [readUntilQuote_eq_ok_iff, hwrite, dropWhile_append_of_all (hne s) hstop,
        takeWhile_append_of_all (hne s) hstop, decode_write]
      exact ⟨hσ', rfl⟩

theorem readQuoted_write (σ : Sketch) :
    σ.Refused readQuoted ∨ ∃ τ σ' : Sketch, σ.Splits [τ] σ' ∧
      ∀ s, readQuoted (σ.write s) = .ok (String.ofList (τ.write s), σ'.write s) := by
  -- behind the quote the value is read, or refused, in both writings
  have hquote : ∀ (q : Char) (σ₁ : Sketch), (q = '"' ∨ q = '\'') → σ.Splits [] σ₁ →
      (∀ s, readQuoted (σ.write s) = readUntilQuote q (σ₁.write s)) →
      σ.Refused readQuoted ∨ ∃ τ σ' : Sketch, σ.Splits [τ] σ' ∧
        ∀ s, readQuoted (σ.write s) = .ok (String.ofList (τ.write s), σ'.write s) :=
    fun q σ₁ hq hsplits hread => by
      rcases readUntilQuote_write hq σ₁ with hno | ⟨τ, σ', hsplits', hok⟩
      · exact .inl (hno.of_eq hread)
      · exact .inr ⟨τ, σ', hsplits.trans hsplits', fun s => (hread s).trans (hok s)⟩
  rcases starts_or_not σ '"' (by decide) with ⟨σ₁, hsplits, hσ⟩ | hdouble
  · exact hquote '"' σ₁ (.inl rfl) hsplits fun s => by rw [hσ, readQuoted]
  rcases starts_or_not σ '\'' (by decide) with ⟨σ₁, hsplits, hσ⟩ | hsingle
  · exact hquote '\'' σ₁ (.inr rfl) hsplits fun s => by rw [hσ, readQuoted]
  · refine .inl ?_
    intro s r hr
    unfold readQuoted at hr
    split at hr
    · next h => exact hdouble s (by rw [h]; rfl)
    · next h => exact hsingle s (by rw [h]; rfl)
    · cases hr

theorem readValue_write (σ : Sketch) :
    σ.Refused readValue ∨ ∃ τ σ' : Sketch, σ.Splits [τ] σ' ∧
      ∀ s, readValue (σ.write s) = .ok (String.ofList (τ.write s), σ'.write s) := by
  obtain ⟨σ₁, hsplits₁, hdrop₁⟩ := dropWhile_write Style.stopsAtGaps_isBlank σ
  rcases starts_or_not σ₁ '=' (by decide) with ⟨σ₂, hsplits₂, hσ₁⟩ | hequals
  · obtain ⟨σ₃, hsplits₃, hdrop₃⟩ := dropWhile_write Style.stopsAtGaps_isBlank σ₂
    have hread : ∀ s, readValue (σ.write s) = readQuoted (σ₃.write s) := by
      intro s
      unfold readValue
      rw [hdrop₁, hσ₁, ← hdrop₃]
      rfl
    rcases readQuoted_write σ₃ with hno | ⟨τ, σ', hsplits', hok⟩
    · exact .inl (hno.of_eq hread)
    · exact .inr ⟨τ, σ', ((hsplits₁.trans hsplits₂).trans hsplits₃).trans hsplits',
        fun s => (hread s).trans (hok s)⟩
  · refine .inr ⟨⟨[], []⟩, σ, ⟨rfl, fun P hσ => ⟨fun τ hτ p hp => ?_, hσ⟩⟩, fun s => ?_⟩
    · obtain rfl := List.mem_singleton.1 hτ
      obtain rfl := List.mem_singleton.1 hp
      exact P.nil
    · unfold readValue
      split
      · next h => exact absurd (by rw [hdrop₁ s] at h; rw [h]; rfl) (hequals s)
      · rfl

/-! ## Attributes -/

/-- An attribute with the gaps of its value written. -/
def writeAttribute (s : Style) (a : String × Sketch) : String × String :=
  (a.1, String.ofList (a.2.write s))

theorem readAttribute_write (σ : Sketch) :
    σ.Refused readAttribute ∨ ∃ (a : String × Sketch) (σ' : Sketch), σ.Splits [a.2] σ' ∧
      ∀ s, readAttribute (σ.write s) = .ok (writeAttribute s a, σ'.write s) := by
  obtain ⟨σ₁, hsplits₁, hdrop⟩ := dropWhile_write Style.stopsAtGaps_isBlank σ
  rcases readName_write Style.stopsAtGaps_isNameChar σ₁ with
    hno | ⟨name, σ₂, hsplits₂, hname⟩
  · refine .inl ?_
    intro s r hr
    obtain ⟨_, hn, -⟩ := readAttribute_eq_ok_iff.1 hr
    exact hno s _ (hdrop s ▸ hn)
  rcases readValue_write σ₂ with hno | ⟨τ, σ₃, hsplits₃, hvalue⟩
  · refine .inl ?_
    intro s r hr
    obtain ⟨_, hn, hv⟩ := readAttribute_eq_ok_iff.1 hr
    rw [hdrop, hname, Except.ok.injEq, Prod.mk.injEq] at hn
    exact hno s _ (hn.2 ▸ hv)
  · refine .inr ⟨(name, τ), σ₃, (hsplits₁.trans hsplits₂).trans hsplits₃, ?_⟩
    intro s
    exact readAttribute_eq_ok_iff.2 ⟨_, by rw [hdrop, hname]; rfl, hvalue s⟩

theorem startsAttribute_write (σ : Sketch) (s : Style) :
    startsAttribute (σ.write s) = startsAttribute σ.head := by
  have hany : ∀ {p : Char → Bool} {cs rest : List Char}, Stops p rest →
      (cs ++ rest).head?.any p = cs.head?.any p := fun {p cs rest} h => by
    cases cs with
    | nil => cases rest with
      | nil => rfl
      | cons c rest => exact h c rfl
    | cons c cs => rfl
  rw [startsAttribute, startsAttribute, write,
    hany (Style.stops_writeTail Style.stopsAtGaps_isBlank s σ.tail),
    dropWhile_append (Style.stops_writeTail Style.stopsAtGaps_isBlank s σ.tail),
    hany (Style.stops_writeTail Style.stopsAtGaps_isNameChar s σ.tail)]

theorem readAttributes_write (σ : Sketch) :
    σ.Refused readAttributes ∨ ∃ (as : List (String × Sketch)) (σ' : Sketch),
      σ.Splits (as.map Prod.snd) σ' ∧
      ∀ s, readAttributes (σ.write s) = .ok (as.map (writeAttribute s), σ'.write s) := by
  induction hn : (σ.write .marker).length using Nat.strongRecOn generalizing σ with
  | ind n ih =>
    cases hstart : startsAttribute σ.head with
    | false =>
      refine .inr ⟨[], σ, ⟨rfl, fun _ hσ => ⟨fun _ hτ => absurd hτ List.not_mem_nil, hσ⟩⟩, ?_⟩
      intro s
      exact readAttributes_of_not_starts ((startsAttribute_write σ s).trans hstart)
    | true =>
      have hstarts : ∀ s, startsAttribute (σ.write s) = true :=
        fun s => (startsAttribute_write σ s).trans hstart
      rcases readAttribute_write σ with hno | ⟨a, σ₁, hsplits₁, hread⟩
      · refine .inl ?_
        intro s r hr
        obtain ⟨_, _, _, ha, -⟩ := (readAttributes_of_starts (hstarts s)).1 hr
        exact hno s _ ha
      have hlt : (σ₁.write .marker).length < n := hn ▸ length_of_readAttribute (hread .marker)
      rcases ih _ hlt σ₁ rfl with hno | ⟨as, σ', hsplits', hreads⟩
      · refine .inl ?_
        intro s r hr
        obtain ⟨_, _, _, ha, has, -⟩ := (readAttributes_of_starts (hstarts s)).1 hr
        rw [hread, Except.ok.injEq, Prod.mk.injEq] at ha
        exact hno s _ (ha.2 ▸ has)
      · refine .inr ⟨a :: as, σ', hsplits₁.trans hsplits', ?_⟩
        intro s
        exact (readAttributes_of_starts (hstarts s)).2 ⟨_, _, _, hread s, hreads s, rfl⟩

/-! ## Tags -/

theorem readTagEnd_write (σ : Sketch) :
    σ.Refused readTagEnd ∨ ∃ (closed : Bool) (σ' : Sketch), σ.Splits [] σ' ∧
      ∀ s, readTagEnd (σ.write s) = .ok (closed, σ'.write s) := by
  obtain ⟨σ₁, hsplits₁, hdrop⟩ := dropWhile_write Style.stopsAtGaps_isBlank σ
  rcases starts_or_not σ₁ '>' (by decide) with ⟨σ₂, hsplits₂, hσ₁⟩ | hgt
  · refine .inr ⟨false, σ₂, hsplits₁.trans hsplits₂, ?_⟩
    intro s
    unfold readTagEnd
    rw [hdrop, hσ₁]
    rfl
  rcases starts_or_not σ₁ '/' (by decide) with ⟨σ₂, hsplits₂, hσ₁⟩ | hslash
  · rcases starts_or_not σ₂ '>' (by decide) with ⟨σ₃, hsplits₃, hσ₂⟩ | hgt'
    · refine .inr ⟨true, σ₃, (hsplits₁.trans hsplits₂).trans hsplits₃, ?_⟩
      intro s
      unfold readTagEnd
      rw [hdrop, hσ₁, hσ₂]
      rfl
    · refine .inl ?_
      intro s r hr
      unfold readTagEnd at hr
      rw [hdrop, hσ₁] at hr
      split at hr
      · next h => cases h
      · next h => exact hgt' s (by rw [(List.cons.inj h).2]; rfl)
      · cases hr
      · cases hr
  · refine .inl ?_
    intro s r hr
    unfold readTagEnd at hr
    rw [hdrop] at hr
    split at hr
    · next h => exact hgt s (by rw [h]; rfl)
    · next h => exact hslash s (by rw [h]; rfl)
    · cases hr
    · cases hr

end Sketch

/-- An element with the gaps of its values written. -/
def Style.element (s : Style) (tag : String) (as : List (String × Sketch)) : Element :=
  { tag, attributes := .ofList (as.map (Sketch.writeAttribute s)) }

namespace Sketch

/-- A tag or a comment with gaps. -/
inductive Piece where
  /-- An opening tag; `closed` if it closes itself. -/
  | opening (tag : String) (attributes : List (String × Sketch)) (closed : Bool)
  /-- A closing tag. -/
  | closing (tag : String)
  /-- A comment, which has no gap. -/
  | comment (s : String)

namespace Piece

/-- The piece with its gaps written. -/
def write (s : Style) : Piece → Markup.Piece
  | opening tag as closed => .opening (s.element tag as) closed
  | closing tag => .closing tag
  | comment c => .comment c

/-- The values of a piece. -/
def values : Piece → List Sketch
  | opening _ as _ => as.map Prod.snd
  | closing _ => []
  | comment _ => []

/-- What the piece is may stand in a comment, if it is one. -/
def Plain (P : Policy) : Piece → Prop
  | comment c => P.comment c
  | _ => True

end Piece

theorem readOpening_write (P : Policy) (σ : Sketch) :
    σ.Refused readOpening ∨ ∃ (p : Piece) (σ' : Sketch), σ.Splits p.values σ' ∧ p.Plain P ∧
      ∀ s, readOpening (σ.write s) = .ok (p.write s, σ'.write s) := by
  rcases readName_write Style.stopsAtGaps_isTagChar σ with
    hno | ⟨tag, σ₁, hsplits₁, hname⟩
  · refine .inl ?_
    intro s r hr
    obtain ⟨_, _, _, _, _, hn, -⟩ := readOpening_eq_ok_iff.1 hr
    exact hno s _ hn
  rcases readAttributes_write σ₁ with hno | ⟨as, σ₂, hsplits₂, hattributes⟩
  · refine .inl ?_
    intro s r hr
    obtain ⟨_, _, _, _, _, hn, ha, -⟩ := readOpening_eq_ok_iff.1 hr
    rw [hname, Except.ok.injEq, Prod.mk.injEq] at hn
    exact hno s _ (hn.2 ▸ ha)
  rcases readTagEnd_write σ₂ with hno | ⟨closed, σ₃, hsplits₃, hend⟩
  · refine .inl ?_
    intro s r hr
    obtain ⟨_, _, _, _, _, hn, ha, he, -⟩ := readOpening_eq_ok_iff.1 hr
    rw [hname, Except.ok.injEq, Prod.mk.injEq] at hn
    rw [← hn.2, hattributes, Except.ok.injEq, Prod.mk.injEq] at ha
    exact hno s _ (ha.2 ▸ he)
  · have hsplits : σ.Splits (as.map Prod.snd) σ₃ := by
      have := (hsplits₁.trans hsplits₂).trans hsplits₃
      rwa [List.nil_append, List.append_nil] at this
    exact .inr ⟨.opening tag as closed, σ₃, hsplits, trivial, fun s =>
      readOpening_eq_ok_iff.2 ⟨_, _, _, _, _, hname s, hattributes s, hend s, rfl⟩⟩

theorem readClosing_write (P : Policy) (σ : Sketch) :
    σ.Refused readClosing ∨ ∃ (p : Piece) (σ' : Sketch), σ.Splits p.values σ' ∧ p.Plain P ∧
      ∀ s, readClosing (σ.write s) = .ok (p.write s, σ'.write s) := by
  rcases readName_write Style.stopsAtGaps_isTagChar σ with
    hno | ⟨tag, σ₁, hsplits₁, hname⟩
  · refine .inl ?_
    intro s r hr
    obtain ⟨_, _, hn, -⟩ := readClosing_eq_ok_iff.1 hr
    exact hno s _ hn
  obtain ⟨σ₂, hsplits₂, hdrop⟩ := dropWhile_write Style.stopsAtGaps_isBlank σ₁
  rcases starts_or_not σ₂ '>' (by decide) with ⟨σ₃, hsplits₃, hσ₂⟩ | hgt
  · exact .inr ⟨.closing tag, σ₃, (hsplits₁.trans hsplits₂).trans hsplits₃, trivial, fun s =>
      readClosing_eq_ok_iff.2 ⟨tag, _, hname s, by rw [hdrop, hσ₂], rfl⟩⟩
  · refine .inl ?_
    intro s r hr
    obtain ⟨_, _, hn, he, -⟩ := readClosing_eq_ok_iff.1 hr
    rw [hname, Except.ok.injEq, Prod.mk.injEq] at hn
    rw [← hn.2, hdrop] at he
    exact hgt s (by rw [he]; rfl)

/-! ## Comments -/

/-- A comment with a gap is no marker, since no number has a character that a gap starts with. -/
theorem ofComment?_eq_none {body : List Char} {c : Char} (hc : c = '<' ∨ c = '{') (hm : c ∈ body) :
    Gap.ofComment? (String.ofList body) = none := by
  obtain ⟨hdigit, hplus, htext⟩ : Numeral.digit? 10 c = none ∧ c ≠ '+' ∧ c ∉ Gap.markerText := by
    rcases hc with rfl | rfl <;> decide
  simp only [Gap.ofComment?, String.toList_ofList]
  split
  · next hp =>
    obtain ⟨digits, rfl⟩ := List.isPrefixOf_iff_prefix.1 hp
    rw [List.drop_left]
    exact Numeral.unsigned?_eq_none hdigit hplus ((List.mem_append.1 hm).resolve_left htext)
  · rfl

/-- A marker ends the comment that it stands in. -/
theorem readCommentBody_marker {head : List Char} (h : ¬['-', '-', '>'] <:+: head) (k : Nat)
    (rest : List Char) :
    ∃ body, '<' ∈ body ∧
      readCommentBody (head ++ (Style.marker.hole k ++ rest)) = .ok (body, rest) := by
  have hinner : ¬['-', '-', '>'] <:+: ['!', '-', '-'] ++ Gap.markerText ++ Nat.toDigits 10 k :=
    Style.not_infix_append_toDigits (by decide) k
  have hsplit : Style.marker.hole k ++ rest =
      '<' :: (['!', '-', '-'] ++ Gap.markerText ++ Nat.toDigits 10 k ++
        '-' :: '-' :: '>' :: rest) := by
    simp [Style.hole, Gap.marker, Gap.markerOpen, Gap.markerClose]
  rw [hsplit, readCommentBody_append_cons h (by decide), readCommentBody_append hinner]
  exact ⟨_, List.mem_append_right _ List.mem_cons_self, rfl⟩

/-- A placeholder does not. -/
theorem readCommentBody_placeholder {head : List Char} (h : ¬['-', '-', '>'] <:+: head) (k : Nat)
    (rest : List Char) :
    ∃ body, '{' ∈ body ∧ readCommentBody (head ++ (Style.placeholder.hole k ++ rest)) =
      (readCommentBody rest).map fun r => (body ++ r.1, r.2) := by
  have hname : ¬['-', '-', '>'] <:+: (Style.placeholder.name k).toList := by
    have hg : '>' ∉ ['g'] := by decide
    rw [Style.toList_name, ← List.singleton_append]
    exact Style.not_infix_append_toDigits hg k
  refine ⟨head ++ '{' :: ((Style.placeholder.name k).toList ++ ['}']),
    List.mem_append_right _ List.mem_cons_self, ?_⟩
  unfold Style.hole
  rw [List.cons_append, List.append_assoc, List.singleton_append,
    readCommentBody_append_cons h (by decide), readCommentBody_append_cons hname (by decide)]
  cases readCommentBody rest with
  | error e => rfl
  | ok r => simp [Except.map]

/-- What is left after a comment in a text with placeholders is again one. -/
theorem readCommentBody_left (head : List Char) (tail : List (Nat × List Char))
    {r : List Char × List Char}
    (h : readCommentBody (write .placeholder ⟨head, tail⟩) = .ok r) :
    ∃ σ' : Sketch, r.2 = σ'.write .placeholder ∧ σ'.gaps <:+ tail.map Prod.fst ∧
      ∀ P, Obeys P ⟨head, tail⟩ → σ'.Obeys P := by
  induction tail generalizing head r with
  | nil =>
    unfold write at h
    rw [Style.writeTail_nil, List.append_nil] at h
    obtain ⟨hhead, -⟩ := readCommentBody_eq h
    refine ⟨⟨r.2, []⟩, (List.append_nil r.2).symm, List.suffix_rfl, ?_⟩
    intro P hσ
    obtain rfl := hhead
    exact ((splits_head ⟨r.1 ++ ['-', '-', '>'], [], by simp⟩ []).obeys P hσ).2
  | cons g tail ih =>
    by_cases hend : ['-', '-', '>'] <:+: head
    · obtain ⟨body, rest, rfl, hbody⟩ := exists_first (List.cons_ne_nil _ _) hend
      have hread :
          readCommentBody (write .placeholder ⟨body ++ (['-', '-', '>'] ++ rest), g :: tail⟩) =
            .ok (body, write .placeholder ⟨rest, g :: tail⟩) := by
        unfold write
        rw [List.append_assoc]
        exact readCommentBody_append hbody _
      rw [hread] at h
      obtain rfl := Except.ok.inj h
      exact ⟨⟨rest, g :: tail⟩, rfl, List.suffix_rfl, fun P hσ =>
        ((splits_head ⟨body ++ ['-', '-', '>'], [], by simp⟩ (g :: tail)).obeys P hσ).2⟩
    · obtain ⟨body, -, hread⟩ :=
        readCommentBody_placeholder hend g.1 (write .placeholder ⟨g.2, tail⟩)
      have hwrite : write .placeholder ⟨head, g :: tail⟩ =
          head ++ (Style.placeholder.hole g.1 ++ write .placeholder ⟨g.2, tail⟩) := by
        rw [write, Style.writeTail_cons]
        rfl
      rw [hwrite, hread] at h
      cases hrest : readCommentBody (write .placeholder ⟨g.2, tail⟩) with
      | error e => rw [hrest] at h; cases h
      | ok r' =>
        rw [hrest] at h
        obtain rfl := Except.ok.inj h
        obtain ⟨σ', hr, hgaps, hobeys⟩ := ih g.2 hrest
        exact ⟨σ', hr, hgaps.trans (List.suffix_cons g.1 _), fun P hσ =>
          hobeys P fun p hp => hσ p (List.mem_cons_of_mem head hp)⟩

/-- **A gap in a comment is lost**: what is left after the comment starts after the gap. -/
theorem readCommentBody_lost {P : Policy} {head : List Char} (h : ¬['-', '-', '>'] <:+: head)
    {g : Nat × List Char} {tail : List (Nat × List Char)} (hσ : Obeys P ⟨head, g :: tail⟩)
    {s : Style} {r : List Char × List Char}
    (hr : readCommentBody (write s ⟨head, g :: tail⟩) = .ok r) :
    Gap.ofComment? (String.ofList r.1) = none ∧
      ∃ σ' : Sketch, r.2 = σ'.write s ∧ σ'.gaps <:+ tail.map Prod.fst ∧ σ'.Obeys P := by
  have hrest : Obeys P ⟨g.2, tail⟩ := fun p hp => hσ p (List.mem_cons_of_mem head hp)
  have hwrite : write s ⟨head, g :: tail⟩ = head ++ (s.hole g.1 ++ write s ⟨g.2, tail⟩) := by
    rw [write, Style.writeTail_cons]
    rfl
  rw [hwrite] at hr
  cases s with
  | marker =>
    obtain ⟨body, hgap, hread⟩ := readCommentBody_marker h g.1 (write .marker ⟨g.2, tail⟩)
    obtain rfl := Except.ok.inj (hread.symm.trans hr)
    exact ⟨ofComment?_eq_none (.inl rfl) hgap, ⟨g.2, tail⟩, rfl, List.suffix_rfl, hrest⟩
  | placeholder =>
    obtain ⟨body, hgap, hread⟩ :=
      readCommentBody_placeholder h g.1 (write .placeholder ⟨g.2, tail⟩)
    rw [hread] at hr
    cases hleft : readCommentBody (write .placeholder ⟨g.2, tail⟩) with
    | error e => rw [hleft] at hr; cases hr
    | ok r' =>
      rw [hleft] at hr
      obtain rfl := Except.ok.inj hr
      obtain ⟨σ', hr', hgaps, hobeys⟩ := readCommentBody_left g.2 tail hleft
      exact ⟨ofComment?_eq_none (.inr rfl) (List.mem_append_left _ hgap), σ', hr', hgaps,
        hobeys P hrest⟩

/-- The comment that is read, if any, is no marker, and one of the gaps is lost. -/
def Loses (P : Policy) (σ : Sketch)
    (read : List Char → Except Failure (Markup.Piece × List Char)) : Prop :=
  ∃ before k after, σ.gaps = before ++ k :: after ∧ ∀ s r, read (σ.write s) = .ok r →
    ∃ (c : String) (σ' : Sketch), r = (.comment c, σ'.write s) ∧ Gap.ofComment? c = none ∧
      σ'.gaps <:+ after ∧ σ'.Obeys P

theorem readComment_write {P : Policy} {σ : Sketch} (hσ : σ.Obeys P) :
    σ.Refused readComment ∨
      (∃ (p : Piece) (σ' : Sketch), σ.Splits p.values σ' ∧ p.Plain P ∧
        ∀ s, readComment (σ.write s) = .ok (p.write s, σ'.write s)) ∨
      σ.Loses P readComment := by
  -- a comment starts with two dashes
  rcases starts_or_not σ '-' (by decide) with ⟨σ₁, hsplits₁, hwrite₁⟩ | hdash
  case inr =>
    refine .inl ?_
    intro s r hr
    obtain ⟨_, _, h, -⟩ := readComment_eq_ok_iff.1 hr
    exact hdash s (by rw [h]; rfl)
  rcases starts_or_not σ₁ '-' (by decide) with ⟨σ₂, hsplits₂, hwrite₂⟩ | hdash
  case inr =>
    refine .inl ?_
    intro s r hr
    obtain ⟨_, _, h, -⟩ := readComment_eq_ok_iff.1 hr
    rw [hwrite₁, List.cons.injEq] at h
    exact hdash s (by rw [h.2]; rfl)
  have hsplits : σ.Splits [] σ₂ := hsplits₁.trans hsplits₂
  have hwrite : ∀ s, σ.write s = '-' :: '-' :: σ₂.write s := fun s => by rw [hwrite₁, hwrite₂]
  have hobeys : σ₂.Obeys P := (hsplits.obeys P hσ).2
  obtain ⟨head, tail⟩ := σ₂
  by_cases hend : ['-', '-', '>'] <:+: head
  · -- the comment ends before the first gap
    obtain ⟨body, rest, rfl, hbody⟩ := exists_first (List.cons_ne_nil _ _) hend
    have hread : ∀ s, readCommentBody (write s ⟨body ++ (['-', '-', '>'] ++ rest), tail⟩) =
        .ok (body, write s ⟨rest, tail⟩) := by
      intro s
      unfold write
      rw [List.append_assoc]
      exact readCommentBody_append hbody _
    refine .inr (.inl ⟨.comment (String.ofList body), ⟨rest, tail⟩, ?_, ?_, fun s => ?_⟩)
    · exact hsplits.trans (splits_head ⟨body ++ ['-', '-', '>'], [], by simp⟩ tail)
    · exact P.of_comment (hobeys _ List.mem_cons_self) ⟨[], rest, by simp⟩
    · exact readComment_eq_ok_iff.2 ⟨_, body, hwrite s, hread s, rfl⟩
  · cases tail with
    | nil =>
      refine .inl ?_
      intro s r hr
      obtain ⟨_, body, h, hbody, -⟩ := readComment_eq_ok_iff.1 hr
      rw [hwrite, List.cons.injEq, List.cons.injEq] at h
      rw [← h.2.2, write, Style.writeTail_nil, List.append_nil] at hbody
      obtain ⟨hhead, -⟩ := readCommentBody_eq hbody
      exact hend ⟨body, r.2, by simpa using hhead.symm⟩
    | cons g tail =>
      refine .inr (.inr ⟨[], g.1, tail.map Prod.fst, hsplits.gaps, ?_⟩)
      intro s r hr
      obtain ⟨_, body, h, hbody, hp⟩ := readComment_eq_ok_iff.1 hr
      rw [hwrite, List.cons.injEq, List.cons.injEq] at h
      rw [← h.2.2] at hbody
      obtain ⟨hnone, σ', hleft, hgaps, hobeys'⟩ := readCommentBody_lost hend hobeys hbody
      exact ⟨_, σ', Prod.ext hp hleft, hnone, hgaps, hobeys'⟩

/-! ## Tags and comments -/

/-- **Tags and comments are read alike** however the gaps are written, unless a gap is lost. -/
theorem readPiece_write {P : Policy} {σ : Sketch} (hσ : σ.Obeys P) :
    σ.Refused (readPiece '<') ∨
      (∃ (p : Piece) (σ' : Sketch), σ.Splits p.values σ' ∧ p.Plain P ∧
        ∀ s, readPiece '<' (σ.write s) = .ok (p.write s, σ'.write s)) ∨
      σ.Loses P (readPiece '<') := by
  rcases starts_or_not σ '/' (by decide) with ⟨σ₁, hsplits, hwrite⟩ | hslash
  · have hread : ∀ s, readPiece '<' (σ.write s) = readClosing (σ₁.write s) := by
      intro s
      rw [hwrite, readPiece_closing]
    rcases readClosing_write P σ₁ with hno | ⟨p, σ', hsplits', hp, hok⟩
    · exact .inl (hno.of_eq hread)
    · exact .inr (.inl ⟨p, σ', hsplits.trans hsplits', hp, fun s => (hread s).trans (hok s)⟩)
  rcases starts_or_not σ '!' (by decide) with ⟨σ₁, hsplits, hwrite⟩ | hbang
  · have hread : ∀ s, readPiece '<' (σ.write s) = readComment (σ₁.write s) := by
      intro s
      rw [hwrite, readPiece_comment]
    rcases readComment_write (hsplits.obeys P hσ).2 with
      hno | ⟨p, σ', hsplits', hp, hok⟩ | ⟨before, k, after, hgaps, hlost⟩
    · exact .inl (hno.of_eq hread)
    · exact .inr (.inl ⟨p, σ', hsplits.trans hsplits', hp, fun s => (hread s).trans (hok s)⟩)
    · exact .inr (.inr ⟨before, k, after, hsplits.gaps.trans hgaps, fun s r hr =>
        hlost s r (hread s ▸ hr)⟩)
  · have hread : ∀ s, readPiece '<' (σ.write s) = readOpening (σ.write s) := fun s =>
      readPiece_opening (hslash s) (hbang s)
    rcases readOpening_write P σ with hno | ⟨p, σ', hsplits', hp, hok⟩
    · exact .inl (hno.of_eq hread)
    · exact .inr (.inl ⟨p, σ', hsplits', hp, fun s => (hread s).trans (hok s)⟩)

end Sketch

end MarkupTemplate

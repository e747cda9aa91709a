import MarkupTemplate.Proofs.CallSite.Pieces

/-!
# Reading trees with gaps

Both writings of a sketch are put together to the same trees with gaps, drawn in either style. The
induction is on the sketch, and is about a state: what is open, and what was read so far. Each step
reads one text, up to the next tag or comment, or one tag or comment. Where a comment loses a gap
the two writings part; each is then followed alone (`exists_of_run`), and the gap turns up in
neither.

Results:
* `exists_of_run`: what is read has only the gaps of the sketch.
* `run_agree`: both writings are read to the same trees, or both are refused, or both lose a gap.
-/

namespace MarkupTemplate

open Text Markup

/-! ## Trees with gaps -/

/-- A node with gaps. -/
inductive Sketch.Node where
  /-- An element. -/
  | element (tag : String) (attributes : List (String × Sketch))
  /-- A text, with its entities decoded. -/
  | text (σ : Sketch)
  /-- A comment, which has no gap. -/
  | comment (s : String)

/-- The node for a token of a text that is written with markers. -/
def Token.marked : Token → Content
  | static s => .text s
  | expression e => .comment (String.ofList Gap.markerText ++ e)

/-- The trees for the tokens of a text that is written with markers. -/
def markedTrees (ts : List Token) : Forest Content :=
  .ofTrees (ts.map fun t => ⟨t.marked, .nil⟩)

namespace Style

/-- What a text is read as. -/
def texts (σ : Sketch) : Style → Forest Content
  | marker => markedTrees (σ.tokens .marker)
  | placeholder => .cons (.text (String.ofList (σ.write .placeholder))) .nil .nil

/-- What trees with gaps are read as. -/
def draw (s : Style) : Forest Sketch.Node → Forest Content
  | .nil => .nil
  | .cons a below beside =>
    match a with
    | .element tag as => .cons (.element (s.element tag as)) (s.draw below) (s.draw beside)
    | .text σ => s.texts σ ++ s.draw beside
    | .comment c => .cons (.comment c) .nil (s.draw beside)

@[simp] theorem draw_append (s : Style) (F G : Forest Sketch.Node) :
    s.draw (F ++ G) = s.draw F ++ s.draw G := by
  induction F with
  | nil => rfl
  | cons a below beside _ ih =>
    cases a with
    | element tag as =>
      simp only [Forest.cons_append, draw, ih]
    | text σ => simp only [Forest.cons_append, draw, ih, Forest.append_assoc]
    | comment c => simp only [Forest.cons_append, draw, ih]

end Style

/-! ## Texts -/

namespace Markup

theorem assemble_part {p : List Char} (hp : '<' ∉ p) (opened : List Open)
    (left : List (Tree Content)) {rest : List Char} (hr : EndsText rest) :
    assemble opened left (p ++ rest) = assemble opened
      (((Gap.splitFrom.static (decode p)).map fun t => ⟨t.marked, .nil⟩).reverse ++ left)
      rest := by
  cases p with
  | nil => rfl
  | cons c p =>
    have hc : c ≠ '<' := fun e => hp (e ▸ List.mem_cons_self)
    have hall : ∀ d ∈ p, decide (d ≠ '<') = true := fun d hd =>
      decide_eq_true fun e => hp (e ▸ List.mem_cons_of_mem c hd)
    have hstop : Stops (fun d => decide (d ≠ '<')) rest := fun d hd => by simp [hr d hd]
    have hread := readPiece_text hc (p ++ rest)
    rw [takeWhile_append_of_all hall hstop, dropWhile_append_of_all hall hstop] at hread
    rw [List.cons_append, assemble_cons hread, Gap.splitFrom.static,
      if_neg (decode_ne_nil (List.cons_ne_nil c p))]
    rfl

theorem assemble_hole (k : Nat) (opened : List Open) (left : List (Tree Content))
    (rest : List Char) :
    assemble opened left (Style.marker.hole k ++ rest) = assemble opened
      (⟨(Token.expression (Style.marker.name k)).marked, .nil⟩ :: left) rest := by
  have hend : ¬['-', '-', '>'] <:+: Gap.markerText ++ Nat.toDigits 10 k :=
    Style.not_infix_append_toDigits (by decide) k
  have hbody := readCommentBody_append hend rest
  have hread : readPiece '<' ('!' :: '-' :: '-' ::
      (Gap.markerText ++ Nat.toDigits 10 k ++ '-' :: '-' :: '>' :: rest)) =
      .ok (.comment (String.ofList (Gap.markerText ++ Nat.toDigits 10 k)), rest) := by
    rw [readPiece_comment, readComment_eq_ok_iff]
    exact ⟨_, _, rfl, hbody, rfl⟩
  have hhole : Style.marker.hole k ++ rest = '<' :: '!' :: '-' :: '-' ::
      (Gap.markerText ++ Nat.toDigits 10 k ++ '-' :: '-' :: '>' :: rest) := by
    simp [Style.hole, Gap.marker, Gap.markerOpen, Gap.markerClose]
  have hname : String.ofList (Gap.markerText ++ Nat.toDigits 10 k) =
      String.ofList Gap.markerText ++ Style.marker.name k := by
    rw [String.ofList_append, Style.name]
    rfl
  rw [hhole, assemble_cons hread]
  simp only [hname]
  rfl

end Markup

namespace Style

/-- **A text is read** in either style up to the next tag or comment. -/
theorem assemble_texts (s : Style) {τ : Sketch} (hτ : ∀ p ∈ τ.parts, '<' ∉ p)
    (hne : τ.write s ≠ []) (opened : List Open) (left : List (Tree Content)) {rest : List Char}
    (hr : EndsText rest) :
    assemble opened left (τ.write s ++ rest) =
      assemble opened ((s.texts τ.decoded).trees.reverse ++ left) rest := by
  cases s with
  | placeholder =>
    have hlt : '<' ∉ τ.write .placeholder := by
      intro hm
      unfold Sketch.write writeTail at hm
      rw [List.mem_append, List.mem_flatMap] at hm
      rcases hm with hm | ⟨g, hg, hm⟩
      · exact hτ _ List.mem_cons_self hm
      · rcases List.mem_append.1 hm with hm | hm
        · rw [hole, toList_name, List.cons_append, List.mem_cons, List.mem_cons, List.mem_append]
            at hm
          rcases hm with hm | hm | hm | hm
          · cases hm
          · cases hm
          · exact not_mem_toDigits (by decide) g.1 hm
          · exact absurd (List.mem_singleton.1 hm) (by decide)
        · exact hτ g.2 (List.mem_cons_of_mem _ (List.mem_map_of_mem hg)) hm
    rw [assemble_part hlt opened left hr, Gap.splitFrom.static, if_neg (decode_ne_nil hne),
      Sketch.decode_write]
    rfl
  | marker =>
    obtain ⟨head, tail⟩ := τ
    clear hne
    induction tail generalizing head left with
    | nil =>
      unfold Sketch.write
      rw [writeTail_nil, List.append_nil, assemble_part (hτ head List.mem_cons_self) opened left hr]
      simp [texts, markedTrees, Sketch.tokens, Sketch.decoded]
    | cons g tail ih =>
      have hhole : EndsText (marker.hole g.1 ++ (g.2 ++ (marker.writeTail tail ++ rest))) :=
        fun _ hc => (Option.some.inj hc).symm
      unfold Sketch.write
      rw [writeTail_cons, List.append_assoc, List.append_assoc, List.append_assoc,
        assemble_part (hτ head List.mem_cons_self) opened left hhole, assemble_hole,
        ← List.append_assoc]
      refine (ih _ g.2 fun p hp => hτ p (List.mem_cons_of_mem head hp)).trans ?_
      simp [texts, markedTrees, Sketch.tokens, Sketch.decoded]

end Style

namespace Sketch

/-! ## What may be in a tree -/

/-- The sketch obeys the policy, and all of its gaps are among those that `G` allows. -/
structure Allowed (P : Policy) (G : Nat → Prop) (σ : Sketch) : Prop where
  /-- What stands between the gaps may stand there. -/
  obeys : σ.Obeys P
  /-- Every gap is allowed. -/
  gaps : ∀ k ∈ σ.gaps, G k

/-- The sketches of the node are allowed, and what it is may stand in a comment, if it is one. -/
def Node.Allowed (P : Policy) (G : Nat → Prop) : Node → Prop
  | element _ as => ∀ a ∈ as, a.2.Allowed P G
  | text σ => σ.Allowed P G
  | comment c => P.comment c

/-- The nodes of the forest are allowed. -/
def AllowedIn (P : Policy) (G : Nat → Prop) (F : Forest Node) : Prop :=
  ∀ a ∈ F.labels, a.Allowed P G

variable {P : Policy}

theorem allowedIn_nil {G : Nat → Prop} : AllowedIn P G .nil :=
  fun _ hx => absurd hx List.not_mem_nil

theorem AllowedIn.append {G : Nat → Prop} {F F' : Forest Node} (h : AllowedIn P G F)
    (h' : AllowedIn P G F') : AllowedIn P G (F ++ F') := by
  intro a ha
  rw [Forest.labels_append, List.mem_append] at ha
  exact ha.elim (h a) (h' a)

theorem allowedIn_cons {G : Nat → Prop} {a : Node} {below beside : Forest Node} :
    AllowedIn P G (.cons a below beside) ↔
      a.Allowed P G ∧ AllowedIn P G below ∧ AllowedIn P G beside := by
  simp only [AllowedIn, Forest.labels, List.mem_cons, List.mem_append, or_imp, forall_and,
    forall_eq]

theorem Allowed.mono {G G' : Nat → Prop} (h : ∀ k, G k → G' k) {σ : Sketch} (hσ : σ.Allowed P G) :
    σ.Allowed P G' :=
  ⟨hσ.obeys, fun k hk => h k (hσ.gaps k hk)⟩

theorem Node.Allowed.mono {G G' : Nat → Prop} (h : ∀ k, G k → G' k) {a : Node}
    (ha : a.Allowed P G) : a.Allowed P G' := by
  cases a with
  | element tag as => exact fun x hx => (ha x hx).mono h
  | text σ => exact Sketch.Allowed.mono h ha
  | comment c => exact ha

theorem AllowedIn.mono {G G' : Nat → Prop} (h : ∀ k, G k → G' k) {F : Forest Node}
    (hF : AllowedIn P G F) : AllowedIn P G' F :=
  fun a ha => (hF a ha).mono h

/-- The values of the piece are allowed, and what it is may stand in a comment, if it is one. -/
structure Piece.Allowed (P : Policy) (G : Nat → Prop) (p : Piece) : Prop where
  /-- The values are allowed. -/
  values : ∀ τ ∈ p.values, τ.Allowed P G
  /-- What is in a comment may be there. -/
  plain : p.Plain P

/-- What is read of a sketch is allowed with it, and so is what is left. -/
theorem Splits.allowed {G : Nat → Prop} {σ left : Sketch} {read : List Sketch}
    (h : σ.Splits read left) (hσ : σ.Allowed P G) :
    (∀ τ ∈ read, τ.Allowed P G) ∧ left.Allowed P G := by
  obtain ⟨hread, hleft⟩ := h.obeys P hσ.obeys
  have hgaps := hσ.gaps
  rw [h.gaps] at hgaps
  refine ⟨fun τ hτ => ⟨hread τ hτ, fun k hk => hgaps k ?_⟩, hleft, fun k hk => hgaps k ?_⟩
  · exact List.mem_append_left _ (List.mem_flatMap.2 ⟨τ, hτ, hk⟩)
  · exact List.mem_append_right _ hk

/-- Where no gap is there twice, none that is read is left. -/
theorem Splits.allowed_apart {G : Nat → Prop} {σ left : Sketch} {read : List Sketch}
    (h : σ.Splits read left) (hσ : σ.Allowed P G) (hn : σ.gaps.Nodup) :
    (∀ τ ∈ read, τ.Allowed P fun k => G k ∧ k ∉ left.gaps) ∧ left.Allowed P G ∧
      left.gaps.Nodup := by
  obtain ⟨hread, hleft⟩ := h.allowed hσ
  rw [h.gaps, List.nodup_append] at hn
  refine ⟨fun τ hτ => ⟨(hread τ hτ).obeys, fun k hk => ⟨(hread τ hτ).gaps k hk, fun hk' => ?_⟩⟩,
    hleft, hn.2.1⟩
  exact hn.2.2 k (List.mem_flatMap.2 ⟨τ, hτ, hk⟩) k hk' rfl

/-! ## States -/

/-- An element whose closing tag is still to come. -/
structure Frame where
  /-- Its tag. -/
  tag : String
  /-- Its attributes. -/
  attributes : List (String × Sketch)
  /-- The trees before it under the same parent. -/
  left : Forest Node

/-- What was read so far: what is open, innermost first, and the children of the innermost one. -/
structure State where
  /-- What is open. -/
  opened : List Frame
  /-- The children of the innermost one. -/
  left : Forest Node

/-- The open element as it was read. -/
def Frame.draw (s : Style) (fr : Frame) : Open :=
  ⟨s.element fr.tag fr.attributes, (s.draw fr.left).trees.reverse⟩

namespace State

/-- The text is read on. -/
def run (s : Style) (q : State) (cs : List Char) : Except Failure (Forest Content) :=
  assemble (q.opened.map (Frame.draw s)) (s.draw q.left).trees.reverse cs

/-- The state with one more tree. -/
def add (q : State) (a : Node) (below : Forest Node) : State :=
  ⟨q.opened, q.left ++ .cons a below .nil⟩

/-- The state after a piece; none if the piece closes what is not open. -/
def advance? (q : State) : Piece → Option State
  | .opening tag as true => some (q.add (.element tag as) .nil)
  | .opening tag as false => some ⟨⟨tag, as, q.left⟩ :: q.opened, .nil⟩
  | .closing tag =>
    match q.opened with
    | [] => none
    | fr :: opened =>
      if tag = fr.tag then some (add ⟨opened, fr.left⟩ (.element fr.tag fr.attributes) q.left)
      else none
  | .comment c => some (q.add (.comment c) .nil)

/-- What is in the state is allowed. -/
structure Allowed (P : Policy) (G : Nat → Prop) (q : State) : Prop where
  /-- What is in the open elements and before them is allowed. -/
  opened : ∀ fr ∈ q.opened,
    (Node.element fr.tag fr.attributes).Allowed P G ∧ AllowedIn P G fr.left
  /-- What was read last is allowed. -/
  left : AllowedIn P G q.left

theorem Allowed.mono {G G' : Nat → Prop} (h : ∀ k, G k → G' k) {q : State} (hq : q.Allowed P G) :
    q.Allowed P G' where
  opened := fun fr hfr => ⟨(hq.opened fr hfr).1.mono h, (hq.opened fr hfr).2.mono h⟩
  left := hq.left.mono h

theorem Allowed.add {G : Nat → Prop} {q : State} (hq : q.Allowed P G) {a : Node}
    (ha : a.Allowed P G) {below : Forest Node} (hb : AllowedIn P G below) :
    (q.add a below).Allowed P G where
  opened := hq.opened
  left := hq.left.append (allowedIn_cons.2 ⟨ha, hb, allowedIn_nil⟩)

/-- A step adds only what is allowed. -/
theorem Allowed.advance {G : Nat → Prop} {q q' : State} (hq : q.Allowed P G) {p : Piece}
    (hp : p.Allowed P G) (h : q.advance? p = some q') : q'.Allowed P G := by
  cases p with
  | opening tag as closed =>
    have has : (Node.element tag as).Allowed P G :=
      fun a ha => hp.values a.2 (List.mem_map_of_mem ha)
    cases closed with
    | true =>
      obtain rfl := Option.some.inj h
      exact hq.add has allowedIn_nil
    | false =>
      obtain rfl := Option.some.inj h
      refine ⟨fun fr hfr => ?_, allowedIn_nil⟩
      rcases List.mem_cons.1 hfr with rfl | hfr
      · exact ⟨has, hq.left⟩
      · exact hq.opened fr hfr
  | closing tag =>
    obtain ⟨opened, left⟩ := q
    cases opened with
    | nil => cases h
    | cons fr opened =>
      simp only [advance?] at h
      split at h
      · obtain rfl := Option.some.inj h
        obtain ⟨hfr, hleft⟩ := hq.opened fr List.mem_cons_self
        exact Allowed.add ⟨fun x hx => hq.opened x (List.mem_cons_of_mem fr hx), hleft⟩ hfr hq.left
      · cases h
  | comment c =>
    obtain rfl := Option.some.inj h
    exact hq.add (a := .comment c) hp.plain allowedIn_nil

/-! ## Steps -/

theorem run_add {s : Style} {q : State} {a : Node} {below : Forest Node} {cs : List Char} :
    (q.add a below).run s cs = assemble (q.opened.map (Frame.draw s))
      ((s.draw (.cons a below .nil)).trees.reverse ++ (s.draw q.left).trees.reverse) cs := by
  unfold run
  rw [add, Style.draw_append, Forest.trees_append, List.reverse_append]

/-- At the end of the text, everything has to be closed. -/
theorem run_nil_eq_ok_iff {s : Style} {q : State} {f : Forest Content} :
    q.run s [] = .ok f ↔ q.opened = [] ∧ f = s.draw q.left := by
  obtain ⟨opened, left⟩ := q
  unfold run assemble
  cases opened with
  | nil => simp [eq_comm]
  | cons fr opened => simp

theorem exists_readPiece {s : Style} {q : State} {rest : List Char} {f : Forest Content}
    (h : q.run s ('<' :: rest) = .ok f) : ∃ r, readPiece '<' rest = .ok r := by
  cases hpiece : readPiece '<' rest with
  | ok r => exact ⟨r, rfl⟩
  | error e =>
    obtain ⟨e', he'⟩ := assemble_cons_error hpiece (q.opened.map (Frame.draw s))
      (s.draw q.left).trees.reverse
    unfold run at h
    rw [he'] at h
    cases h

/-- **A tag or a comment is read** in either style. -/
theorem run_piece {s : Style} {q : State} {p : Piece} {rest after : List Char}
    (h : readPiece '<' rest = .ok (p.write s, after)) {f : Forest Content} :
    q.run s ('<' :: rest) = .ok f ↔ ∃ q', q.advance? p = some q' ∧ q'.run s after = .ok f := by
  rw [run, assemble_cons h]
  cases p with
  | opening tag as closed =>
    cases closed with
    | true =>
      simp only [Piece.write, advance?, Option.some.injEq, exists_eq_left', run_add]
      rfl
    | false =>
      simp only [Piece.write, advance?, Option.some.injEq, exists_eq_left']
      rfl
  | closing tag =>
    obtain ⟨opened, left⟩ := q
    cases opened with
    | nil => simp [Piece.write, advance?]
    | cons fr opened =>
      by_cases ht : tag = fr.tag
      · simp only [Piece.write, advance?, List.map_cons, Frame.draw, Style.element, if_pos ht,
          Option.some.injEq, exists_eq_left', run_add, List.reverse_reverse, Forest.ofTrees_trees]
        rfl
      · simp [Piece.write, advance?, Frame.draw, Style.element, if_neg ht]
  | comment c =>
    simp only [Piece.write, advance?, Option.some.injEq, exists_eq_left', run_add]
    rfl

/-- **A text is read** in either style. -/
theorem run_text {s : Style} {q : State} {τ : Sketch} (hτ : ∀ p ∈ τ.parts, '<' ∉ p)
    (hne : τ.write s ≠ []) {rest : List Char} (hr : EndsText rest) :
    q.run s (τ.write s ++ rest) = (q.add (.text τ.decoded) .nil).run s rest := by
  rw [run, Style.assemble_texts s hτ hne _ _ hr, run_add, Style.draw, Style.draw,
    Forest.append_nil]

end State

theorem write_eq_nil_iff {σ : Sketch} {s : Style} : σ.write s = [] ↔ σ = ⟨[], []⟩ := by
  obtain ⟨head, tail⟩ := σ
  constructor
  · intro h
    obtain ⟨rfl, htail⟩ := List.append_eq_nil_iff.1 h
    cases tail with
    | nil => rfl
    | cons g tail =>
      obtain ⟨c, cs, hc, -⟩ := s.hole_eq_cons g.1
      rw [Style.writeTail_cons, hc] at htail
      cases htail
  · intro h
    rw [h]
    rfl

/-- What comes next in a sketch: nothing, a tag or a comment, or a text. -/
theorem cases_next (σ : Sketch) :
    σ = ⟨[], []⟩ ∨
      (∃ σ' : Sketch, σ.Splits [] σ' ∧ ∀ s, σ.write s = '<' :: σ'.write s) ∨
      ∃ τ σ' : Sketch, σ.Splits [τ] σ' ∧
        (∀ s, (σ'.write s).length < (σ.write s).length) ∧
        ∀ (s : Style) (q : State),
          q.run s (σ.write s) = (q.add (.text τ) .nil).run s (σ'.write s) := by
  obtain ⟨τ, σ', hsplits, hτ, hwrite, hend⟩ := exists_cut '<' σ
  by_cases hempty : τ = ⟨[], []⟩
  · subst hempty
    rcases hend with rfl | ⟨rest, hrest⟩
    · exact .inl (write_eq_nil_iff.1 (hwrite .marker))
    · obtain ⟨head, tail⟩ := σ'
      obtain rfl : head = '<' :: rest := hrest
      have hdrop := splits_head (List.suffix_cons '<' rest).isInfix tail
      refine .inr (.inl ⟨⟨rest, tail⟩, ⟨hsplits.gaps, fun P hσ => ?_⟩, fun s => hwrite s⟩)
      exact hdrop.obeys P (hsplits.obeys P hσ).2
  · have hne : ∀ s, τ.write s ≠ [] := fun s h => hempty (write_eq_nil_iff.1 h)
    have hr : ∀ s, EndsText (σ'.write s) := by
      intro s c hc
      rcases hend with rfl | ⟨rest, hrest⟩
      · cases hc
      · unfold write at hc
        rw [hrest] at hc
        exact (Option.some.inj hc).symm
    refine .inr (.inr ⟨τ.decoded, σ', hsplits.decoded, fun s => ?_, fun s q => ?_⟩)
    · rw [hwrite, List.length_append]
      exact Nat.lt_add_of_pos_left (List.length_pos_iff.2 (hne s))
    · rw [hwrite, State.run_text hτ (hne s) (hr s)]

/-! ## Runs -/

/-- A piece of either writing, and what is left of it. -/
theorem exists_of_readPiece {G : Nat → Prop} {σ : Sketch} (hσ : σ.Allowed P G) {s : Style}
    {r : Markup.Piece × List Char} (h : readPiece '<' (σ.write s) = .ok r) :
    ∃ (p : Piece) (σ' : Sketch), r = (p.write s, σ'.write s) ∧ p.Allowed P G ∧ σ'.Allowed P G := by
  rcases readPiece_write hσ.obeys with
    hno | ⟨p, σ', hsplits, hp, hok⟩ | ⟨before, k, after, hgaps, hlost⟩
  · exact absurd h (hno s r)
  · obtain ⟨hvalues, hleft⟩ := hsplits.allowed hσ
    exact ⟨p, σ', Except.ok.inj (h.symm.trans (hok s)), ⟨hvalues, hp⟩, hleft⟩
  · obtain ⟨c, σ', hr, hc, hsuffix, hobeys⟩ := hlost s r h
    refine ⟨.comment c, σ', hr, ⟨fun _ hτ => absurd hτ List.not_mem_nil, P.of_ofComment? hc⟩,
      hobeys, fun j hj => hσ.gaps j ?_⟩
    rw [hgaps]
    exact List.mem_append_right _ (List.mem_cons_of_mem k (hsuffix.mem hj))

/-- **What is read has only the gaps of the sketch**, and those read before. -/
theorem exists_of_run {G : Nat → Prop} {s : Style} {q : State} (hq : q.Allowed P G) {σ : Sketch}
    (hσ : σ.Allowed P G) {f : Forest Content} (h : q.run s (σ.write s) = .ok f) :
    ∃ F, AllowedIn P G F ∧ f = s.draw F := by
  induction hn : (σ.write s).length using Nat.strongRecOn generalizing σ q with
  | ind n ih =>
    subst hn
    rcases cases_next σ with rfl | ⟨σ₁, hsplits, hwrite⟩ | ⟨τ, σ', hsplits, hlt, hrun⟩
    · obtain ⟨-, rfl⟩ := State.run_nil_eq_ok_iff.1 h
      exact ⟨q.left, hq.left, rfl⟩
    · rw [hwrite] at h
      obtain ⟨r, hpiece⟩ := State.exists_readPiece h
      obtain ⟨p, σ', rfl, hp, hσ'⟩ := exists_of_readPiece (hsplits.allowed hσ).2 hpiece
      obtain ⟨q', hq', h'⟩ := (State.run_piece hpiece).1 h
      have hlt : (σ'.write s).length < (σ.write s).length := by
        rw [hwrite]
        exact length_of_piece hpiece
      exact ih _ hlt (hq.advance hp hq') hσ' h' rfl
    · rw [hrun] at h
      obtain ⟨hτ, hσ'⟩ := hsplits.allowed hσ
      have hadd : (q.add (.text τ) .nil).Allowed P G :=
        hq.add (a := .text τ) (hτ τ List.mem_cons_self) allowedIn_nil
      exact ih _ (hlt s) hadd hσ' h rfl

/-- A gap that is lost does not turn up again. -/
theorem exists_of_run_lost {G : Nat → Prop} {s : Style} {q : State} {σ : Sketch} {k : Nat}
    (hq : q.Allowed P fun j => G j ∧ j ≠ k) (hσ : σ.Allowed P G) (hn : σ.gaps.Nodup)
    {before after : List Nat} (hgaps : σ.gaps = before ++ k :: after)
    (hlost : ∀ r, readPiece '<' (σ.write s) = .ok r → ∃ (c : String) (σ' : Sketch),
      r = (.comment c, σ'.write s) ∧ Gap.ofComment? c = none ∧ σ'.gaps <:+ after ∧ σ'.Obeys P)
    {f : Forest Content} (h : q.run s ('<' :: σ.write s) = .ok f) :
    ∃ F, AllowedIn P (fun j => G j ∧ j ≠ k) F ∧ f = s.draw F := by
  have hk : k ∉ after := by
    rw [hgaps, List.nodup_append, List.nodup_cons] at hn
    exact hn.2.1.1
  obtain ⟨r, hpiece⟩ := State.exists_readPiece h
  obtain ⟨c, σ', rfl, hc, hsuffix, hobeys⟩ := hlost r hpiece
  have hσ' : σ'.Allowed P fun j => G j ∧ j ≠ k := by
    refine ⟨hobeys, fun j hj => ⟨hσ.gaps j ?_, fun e => hk (e ▸ hsuffix.mem hj)⟩⟩
    rw [hgaps]
    exact List.mem_append_right _ (List.mem_cons_of_mem k (hsuffix.mem hj))
  have hp : (Piece.comment c).Allowed P fun j => G j ∧ j ≠ k :=
    ⟨fun _ hτ => absurd hτ List.not_mem_nil, P.of_ofComment? hc⟩
  obtain ⟨q', hsome, h'⟩ := (State.run_piece (p := .comment c) hpiece).1 h
  exact exists_of_run (hq.advance hp hsome) hσ' h'

/-- **Both writings are read to the same trees with gaps**, or both are refused, or there is a gap
that neither has in its trees. -/
theorem run_agree {G : Nat → Prop} {q : State} {σ : Sketch}
    (hq : q.Allowed P fun k => G k ∧ k ∉ σ.gaps) (hσ : σ.Allowed P G) (hn : σ.gaps.Nodup) :
    (∃ F, AllowedIn P G F ∧ ∀ s, q.run s (σ.write s) = .ok (s.draw F)) ∨
      (∀ s f, q.run s (σ.write s) ≠ .ok f) ∨
      ∃ k, G k ∧ ∀ s f, q.run s (σ.write s) = .ok f →
        ∃ F, AllowedIn P (fun j => G j ∧ j ≠ k) F ∧ f = s.draw F := by
  induction hlen : (σ.write .marker).length using Nat.strongRecOn generalizing σ q with
  | ind n ih =>
    subst hlen
    rcases cases_next σ with rfl | ⟨σ₁, hsplits, hwrite⟩ | ⟨τ, σ', hsplits, hlt, hrun⟩
    · by_cases hopened : q.opened = []
      · exact .inl ⟨q.left, hq.left.mono fun _ => And.left, fun s =>
          State.run_nil_eq_ok_iff.2 ⟨hopened, rfl⟩⟩
      · exact .inr (.inl fun s f h => hopened (State.run_nil_eq_ok_iff.1 h).1)
    · obtain ⟨-, hσ₁, hn₁⟩ := hsplits.allowed_apart hσ hn
      have hgaps₁ : σ.gaps = σ₁.gaps := hsplits.gaps
      rcases readPiece_write hσ₁.obeys with
        hno | ⟨p, σ', hsplits', hp, hok⟩ | ⟨before, k, after, hgaps, hlost⟩
      · -- both pieces are refused
        refine .inr (.inl ?_)
        intro s f h
        rw [hwrite] at h
        obtain ⟨r, hpiece⟩ := State.exists_readPiece h
        exact hno s r hpiece
      · -- both pieces are the same
        obtain ⟨hvalues, hσ', hn'⟩ := hsplits'.allowed_apart hσ₁ hn₁
        have hread : ∀ s f, q.run s (σ.write s) = .ok f ↔
            ∃ q', q.advance? p = some q' ∧ q'.run s (σ'.write s) = .ok f := by
          intro s f
          rw [hwrite, State.run_piece (hok s)]
        cases hq' : q.advance? p with
        | none =>
          refine .inr (.inl ?_)
          intro s f h
          obtain ⟨q', hsome, -⟩ := (hread s f).1 h
          rw [hq'] at hsome
          cases hsome
        | some q' =>
          have hallowed : q'.Allowed P fun k => G k ∧ k ∉ σ'.gaps := by
            refine (hq.mono fun k hk => ⟨hk.1, fun hk' => hk.2 ?_⟩).advance ⟨hvalues, hp⟩ hq'
            rw [hgaps₁, hsplits'.gaps]
            exact List.mem_append_right _ hk'
          have hlt : (σ'.write .marker).length < (σ.write .marker).length := by
            rw [hwrite]
            exact length_of_piece (hok .marker)
          have hread' : ∀ s f, q.run s (σ.write s) = .ok f ↔ q'.run s (σ'.write s) = .ok f :=
            fun s f => by simp [hread, hq']
          simp only [ne_eq, hread']
          exact ih _ hlt hallowed hσ' hn' rfl
      · -- either piece is a comment, and the gap `k` is left out
        refine .inr (.inr ⟨k, hσ₁.gaps k (by rw [hgaps]; simp), ?_⟩)
        intro s f h
        rw [hwrite] at h
        refine exists_of_run_lost (hq.mono fun j hj => ?_) hσ₁ hn₁ hgaps (hlost s) h
        exact ⟨hj.1, fun e => hj.2 (by rw [hgaps₁, hgaps, e]; simp)⟩
    · obtain ⟨hτ, hσ', hn'⟩ := hsplits.allowed_apart hσ hn
      have hadd : (q.add (.text τ) .nil).Allowed P fun k => G k ∧ k ∉ σ'.gaps := by
        refine (hq.mono fun k hk => ⟨hk.1, fun hk' => hk.2 ?_⟩).add (a := .text τ)
          (hτ τ List.mem_cons_self) allowedIn_nil
        rw [hsplits.gaps]
        exact List.mem_append_right _ hk'
      simp only [hrun]
      exact ih _ (hlt .marker) hadd hσ' hn' rfl

end Sketch

end MarkupTemplate

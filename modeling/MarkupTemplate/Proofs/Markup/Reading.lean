import MarkupTemplate.Markup.Parser

/-!
# What reading amounts to

Each reader either refuses its text or says what stands there and what follows. These lemmas open
the readers, so that what is proved of markup does not look into them again.

Results:
* `assemble_cons`: one piece is read, and the rest is read with it in place.
* `readPiece_text`, `readPiece_comment`, `readPiece_opening`, `readPiece_closing`: the pieces.
* `readCommentBody_append`: a comment ends where its end first stands.
-/

namespace MarkupTemplate.Markup

open Text

theorem bind_eq_ok_iff {α β : Type} {x : Except Failure α} {f : α → Except Failure β} {b : β} :
    (x >>= f) = .ok b ↔ ∃ a, x = .ok a ∧ f a = .ok b := by
  cases x <;> simp [bind, Except.bind]

/-! ## Names and values -/

theorem readName_eq_ok_iff {p : Char → Bool} {cs rest : List Char} {name : String} :
    readName p cs = .ok (name, rest) ↔
      cs.takeWhile p ≠ [] ∧ name = String.ofList (cs.takeWhile p) ∧ rest = cs.dropWhile p := by
  unfold readName
  dsimp only
  split
  · next h => simp [h]
  · next h =>
    rw [Except.ok.injEq, Prod.mk.injEq]
    constructor
    · rintro ⟨rfl, rfl⟩
      exact ⟨h, rfl, rfl⟩
    · rintro ⟨-, rfl, rfl⟩
      exact ⟨rfl, rfl⟩

theorem readUntilQuote_eq_ok_iff {q : Char} {cs rest : List Char} {value : String} :
    readUntilQuote q cs = .ok (value, rest) ↔
      cs.dropWhile (· ≠ q) = q :: rest ∧ value = String.ofList (decode (cs.takeWhile (· ≠ q))) := by
  unfold readUntilQuote
  split
  · next h =>
    rw [h]
    simp
  · next c r h =>
    have hq : c = q := by
      have := List.head?_dropWhile_not (· ≠ q) cs
      rw [h] at this
      simpa using this
    rw [h, hq, Except.ok.injEq, Prod.mk.injEq, List.cons.injEq]
    constructor
    · rintro ⟨rfl, rfl⟩
      exact ⟨⟨rfl, rfl⟩, rfl⟩
    · rintro ⟨⟨-, rfl⟩, rfl⟩
      exact ⟨rfl, rfl⟩

theorem readAttribute_eq_ok_iff {cs rest : List Char} {a : String × String} :
    readAttribute cs = .ok (a, rest) ↔
      ∃ r, readName isNameChar (cs.dropWhile isBlank) = .ok (a.1, r) ∧
        readValue r = .ok (a.2, rest) := by
  obtain ⟨name, value⟩ := a
  simp only [readAttribute, bind_eq_ok_iff, Prod.exists, pure, Except.pure, Except.ok.injEq,
    Prod.mk.injEq]
  constructor
  · rintro ⟨n, r, hn, x, r', hv, ⟨rfl, rfl⟩, rfl⟩
    exact ⟨r, hn, hv⟩
  · rintro ⟨r, hn, hv⟩
    exact ⟨name, r, hn, value, rest, hv, ⟨rfl, rfl⟩, rfl⟩

/-! ## Attributes -/

theorem readAttributes_of_not_starts {cs : List Char} (h : startsAttribute cs = false) :
    readAttributes cs = .ok ([], cs) := by
  unfold readAttributes
  rw [if_neg (by simp [h])]

theorem readAttributes_of_starts {cs : List Char} (h : startsAttribute cs = true)
    {x : List (String × String) × List Char} :
    readAttributes cs = .ok x ↔
      ∃ a r as, readAttribute cs = .ok (a, r) ∧ readAttributes r = .ok (as, x.2) ∧
        x.1 = a :: as := by
  obtain ⟨as, rest⟩ := x
  rw [readAttributes, if_pos h]
  split
  · next e he => simp [he]
  · next a r hr =>
    simp only [hr, Except.ok.injEq, Prod.mk.injEq]
    cases hr' : readAttributes r with
    | error e =>
      simp only [reduceCtorEq, false_iff]
      rintro ⟨a', r', as', ⟨rfl, rfl⟩, h, -⟩
      rw [hr'] at h
      cases h
    | ok y =>
      obtain ⟨bs, r'⟩ := y
      simp only [Except.ok.injEq, Prod.mk.injEq]
      constructor
      · rintro ⟨rfl, rfl⟩
        exact ⟨a, r, bs, ⟨rfl, rfl⟩, hr', rfl⟩
      · rintro ⟨a', r'', bs', ⟨rfl, rfl⟩, h, rfl⟩
        rw [hr', Except.ok.injEq, Prod.mk.injEq] at h
        exact ⟨by rw [h.1], h.2⟩

/-! ## Pieces -/

theorem readOpening_eq_ok_iff {cs rest : List Char} {p : Piece} :
    readOpening cs = .ok (p, rest) ↔
      ∃ tag r as r' closed, readName isTagChar cs = .ok (tag, r) ∧ readAttributes r = .ok (as, r') ∧
        readTagEnd r' = .ok (closed, rest) ∧
        p = .opening { tag, attributes := .ofList as } closed := by
  simp only [readOpening, bind_eq_ok_iff, Prod.exists, pure, Except.pure, Except.ok.injEq,
    Prod.mk.injEq]
  constructor
  · rintro ⟨tag, r, hn, as, r', ha, closed, r'', he, rfl, rfl⟩
    exact ⟨tag, r, as, r', closed, hn, ha, he, rfl⟩
  · rintro ⟨tag, r, as, r', closed, hn, ha, he, rfl⟩
    exact ⟨tag, r, hn, as, r', ha, closed, rest, he, rfl, rfl⟩

theorem readClosing_eq_ok_iff {cs rest : List Char} {p : Piece} :
    readClosing cs = .ok (p, rest) ↔
      ∃ tag r, readName isTagChar cs = .ok (tag, r) ∧ r.dropWhile isBlank = '>' :: rest ∧
        p = .closing tag := by
  simp only [readClosing, bind_eq_ok_iff, Prod.exists]
  constructor
  · rintro ⟨tag, r, hn, h⟩
    split at h
    · next hr =>
      simp only [pure, Except.pure, Except.ok.injEq, Prod.mk.injEq] at h
      obtain ⟨rfl, rfl⟩ := h
      exact ⟨tag, r, hn, hr, rfl⟩
    · cases h
  · rintro ⟨tag, r, hn, hr, rfl⟩
    refine ⟨tag, r, hn, ?_⟩
    rw [hr]
    rfl

theorem readComment_eq_ok_iff {cs rest : List Char} {p : Piece} :
    readComment cs = .ok (p, rest) ↔
      ∃ r body, cs = '-' :: '-' :: r ∧ readCommentBody r = .ok (body, rest) ∧
        p = .comment (String.ofList body) := by
  unfold readComment
  split
  · next r =>
    cases hb : readCommentBody r with
    | error e => simp [Except.map, hb]
    | ok b =>
      obtain ⟨body, r'⟩ := b
      simp only [Except.map, Except.ok.injEq, Prod.mk.injEq, List.cons.injEq, true_and]
      constructor
      · rintro ⟨rfl, rfl⟩
        exact ⟨r, body, rfl, ⟨hb ▸ rfl, rfl⟩⟩
      · rintro ⟨r', body', rfl, hb', rfl⟩
        rw [hb, Except.ok.injEq, Prod.mk.injEq] at hb'
        exact ⟨by rw [hb'.1], hb'.2⟩
  · next h => simp_all
  · next h _ => simp_all

/-! ## The bodies of comments -/

/-- The body of a comment is what stands before its end, and holds no end itself. -/
theorem readCommentBody_eq {cs body rest : List Char} (h : readCommentBody cs = .ok (body, rest)) :
    cs = body ++ '-' :: '-' :: '>' :: rest ∧ ¬['-', '-', '>'] <:+: body := by
  fun_induction readCommentBody cs generalizing body with
  | case1 => cases h
  | case2 rest' =>
    obtain ⟨rfl, rfl⟩ := Prod.mk.inj (Except.ok.inj h)
    exact ⟨rfl, by simp⟩
  | case3 c cs hc ih =>
    cases hb : readCommentBody cs with
    | error e => rw [hb] at h; cases h
    | ok r =>
      obtain ⟨body', rest'⟩ := r
      rw [hb] at h
      obtain ⟨rfl, rfl⟩ := Prod.mk.inj (Except.ok.inj h)
      obtain ⟨hcs, hinfix⟩ := ih hb
      refine ⟨by rw [hcs]; rfl, ?_⟩
      intro hi
      rcases List.infix_cons_iff.1 hi with hp | hi
      · -- an end at the start of the body would be one at the start of the text
        obtain ⟨t, ht⟩ := hp
        obtain ⟨rfl, hbody⟩ := List.cons.inj ht
        refine hc (t ++ '-' :: '-' :: '>' :: rest') rfl (hcs.trans ?_)
        rw [show body' = '-' :: '>' :: t from hbody.symm]
        rfl
      · exact hinfix hi

/-- Where no end starts, a body goes on. -/
theorem readCommentBody_cons {c : Char} {cs : List Char} (h : ¬['-', '-', '>'] <+: c :: cs) :
    readCommentBody (c :: cs) = (readCommentBody cs).map fun r => (c :: r.1, r.2) := by
  rw [readCommentBody]
  rintro rest rfl rfl
  exact h ⟨rest, rfl⟩

/-- A body without an end of a comment is read back up to the end. -/
theorem readCommentBody_append {body : List Char} (h : ¬['-', '-', '>'] <:+: body)
    (rest : List Char) :
    readCommentBody (body ++ '-' :: '-' :: '>' :: rest) = .ok (body, rest) := by
  induction body with
  | nil => rfl
  | cons c body ih =>
    rw [List.cons_append, readCommentBody_cons, ih fun hi => h (List.infix_cons hi)]
    · rfl
    · -- an end that starts here would lie in the body, or come before the end of its dashes
      rintro ⟨r, hr⟩
      match body, hr with
      | [], hr => simp at hr
      | [b], hr => simp at hr
      | b :: b' :: bs, hr =>
        simp only [List.cons_append, List.cons.injEq, List.nil_append] at hr
        obtain ⟨rfl, rfl, rfl, -⟩ := hr
        exact h ⟨[], bs, rfl⟩

/-- A body without an end is read through a character that no end has. -/
theorem readCommentBody_append_cons {body : List Char} (h : ¬['-', '-', '>'] <:+: body) {c : Char}
    (hc : c ∉ ['-', '-', '>']) (rest : List Char) :
    readCommentBody (body ++ c :: rest) =
      (readCommentBody rest).map fun r => (body ++ c :: r.1, r.2) := by
  induction body with
  | nil =>
    refine readCommentBody_cons ?_
    intro hp
    obtain ⟨r, hr⟩ := hp
    exact hc ((List.cons.inj hr).1 ▸ List.mem_cons_self)
  | cons d body ih =>
    rw [List.cons_append, readCommentBody_cons, ih fun hi => h (List.infix_cons hi)]
    · cases readCommentBody rest <;> rfl
    · -- an end that starts here would lie in the body, or go on with `c`
      rintro ⟨r, hr⟩
      match body, hr with
      | [], hr =>
        simp only [List.cons_append, List.nil_append, List.cons.injEq] at hr
        exact hc (hr.2.1 ▸ by decide)
      | [b], hr =>
        simp only [List.cons_append, List.nil_append, List.cons.injEq] at hr
        exact hc (hr.2.2.1 ▸ by decide)
      | b :: b' :: bs, hr =>
        simp only [List.cons_append, List.cons.injEq, List.nil_append] at hr
        obtain ⟨rfl, rfl, rfl, -⟩ := hr
        exact h ⟨[], bs, rfl⟩

/-! ## Telling pieces apart -/

theorem readPiece_opening {cs : List Char} (hs : cs.head? ≠ some '/') (hb : cs.head? ≠ some '!') :
    readPiece '<' cs = readOpening cs := by
  unfold readPiece
  rw [if_pos rfl]
  split
  · exact absurd rfl hs
  · exact absurd rfl hb
  · rfl

theorem readPiece_closing (cs : List Char) : readPiece '<' ('/' :: cs) = readClosing cs := rfl

theorem readPiece_comment (cs : List Char) : readPiece '<' ('!' :: cs) = readComment cs := rfl

theorem readPiece_text {c : Char} (h : c ≠ '<') (cs : List Char) :
    readPiece c cs = .ok (.text (String.ofList (decode (c :: cs.takeWhile (· ≠ '<')))),
      cs.dropWhile (· ≠ '<')) := by
  unfold readPiece
  rw [if_neg h]

/-! ## Putting pieces together -/

theorem assemble_nil (left : List (Tree Content)) :
    assemble [] left [] = .ok (.ofTrees left.reverse) := by
  unfold assemble
  rfl

/-- **One piece is read**, and then the rest with it in place. -/
theorem assemble_cons {opened : List Open} {left : List (Tree Content)} {c : Char}
    {rest after : List Char} {p : Piece} (h : readPiece c rest = .ok (p, after)) :
    assemble opened left (c :: rest) =
      match p with
      | .text s => assemble opened (⟨.text s, .nil⟩ :: left) after
      | .comment s => assemble opened (⟨.comment s, .nil⟩ :: left) after
      | .opening e true => assemble opened (⟨.element e, .nil⟩ :: left) after
      | .opening e false => assemble (⟨e, left⟩ :: opened) [] after
      | .closing tag =>
        match opened with
        | [] => .error (.unexpected '/')
        | ⟨e, outer⟩ :: opened =>
          if tag = e.tag then
            assemble opened (⟨.element e, .ofTrees left.reverse⟩ :: outer) after
          else .error .unfinished := by
  rw [assemble]
  split
  · simp_all
  · next heq =>
    rw [h] at heq
    obtain ⟨rfl, rfl⟩ := Prod.mk.inj (Except.ok.inj heq)
    rfl

theorem assemble_cons_error {c : Char} {rest : List Char} {e : Failure}
    (h : readPiece c rest = .error e) (opened : List Open) (left : List (Tree Content)) :
    ∃ e', assemble opened left (c :: rest) = .error e' := by
  unfold assemble
  split
  · split <;> exact ⟨_, rfl⟩
  · simp_all

end MarkupTemplate.Markup

import MarkupTemplate.Proofs.Markup.Grammar

/-!
# Reading is deriving

A text is read exactly if it has a derivation, it has at most one, and what is read are the trees
of the derivation. Reading goes from left to right and never goes back; that it misses no
derivation is due to the grammar: the first two characters of what is left say which kind of item
comes next, if any does.

Results:
* `reads_of_readPiece`: a piece of markup is the start of an item, or of the end of an element.
* `assemble_write`: a derivation is read to its trees, whatever is open and whatever follows it.
* `exists_of_assemble`: what is read starts with a derivation, up to where no item starts.
* `write_append_inj`: a derivation can be cut off the start of a text in one way only.
* `parse_iff_derives`: the three of them for a whole text.
-/

namespace MarkupTemplate.Markup.Grammar

open Text

/-! ## Reading the start of an item -/

/-- A tag starts in a character of a name. -/
theorem Tag.Valid.head_write {t : Tag} (ht : t.Valid) :
    ∃ c cs, t.write = c :: cs ∧ c ≠ '/' ∧ c ≠ '!' := by
  obtain ⟨c, cs, hname, hc⟩ := head_of_isNameOf ht.name
  refine ⟨c, cs ++ (t.attributes.flatMap Attribute.write ++ t.blanks), ?_, ?_, ?_⟩
  · rw [write, hname]
    rfl
  · rintro rfl
    revert hc
    decide
  · rintro rfl
    revert hc
    decide

theorem readPiece_tag {t : Tag} (ht : t.Valid) (closed : Bool) (rest : List Char) :
    readPiece '<' (t.write ++ (tagEnd closed ++ rest)) = .ok (.opening t.element closed, rest) := by
  obtain ⟨c, cs, hwrite, hslash, hmark⟩ := ht.head_write
  have hhead : (t.write ++ (tagEnd closed ++ rest)).head? = some c := by rw [hwrite]; rfl
  rw [readPiece_opening (by simpa [hhead] using hslash) (by simpa [hhead] using hmark)]
  exact readOpening_eq_ok_iff_exists.2 ⟨t, closed, ht, rfl, rfl⟩

theorem readPiece_closingTag {name : String} (hn : IsNameOf isTagChar name) {blanks : List Char}
    (hb : Blanks blanks) (rest : List Char) :
    readPiece '<' ('/' :: (name.toList ++ (blanks ++ '>' :: rest))) =
      .ok (.closing name, rest) := by
  rw [readPiece_closing, readClosing_eq_ok_iff]
  exact ⟨_, _, readName_toList hn (stops_blanks (fun _ => isTagChar_of_isBlank) hb
    (stops_cons (by decide) rest)), dropWhile_append_of_all hb (stops_cons (by decide) rest), rfl⟩

/-- What `cs` looks like, where `p` has been read from its start and `rest` is left. -/
def Reads (cs : List Char) (p : Piece) (rest : List Char) : Prop :=
  match p with
  | .text s => ∃ raw, raw ≠ [] ∧ '<' ∉ raw ∧ EndsText rest ∧ cs = raw ++ rest ∧
      s = String.ofList (decode raw)
  | .comment s => IsCommentText s ∧
      cs = '<' :: '!' :: '-' :: '-' :: (s.toList ++ '-' :: '-' :: '>' :: rest)
  | .opening e closed => ∃ t : Tag, t.Valid ∧ cs = '<' :: (t.write ++ (tagEnd closed ++ rest)) ∧
      e = t.element
  | .closing name => ∃ blanks, IsNameOf isTagChar name ∧ Blanks blanks ∧
      cs = '<' :: '/' :: (name.toList ++ (blanks ++ '>' :: rest))

/-- **A piece of markup** is the start of an item, or of the end of an element. -/
theorem reads_of_readPiece {c : Char} {cs rest : List Char} {p : Piece}
    (h : readPiece c cs = .ok (p, rest)) : Reads (c :: cs) p rest := by
  by_cases hc : c = '<'
  · subst hc
    unfold readPiece at h
    rw [if_pos rfl] at h
    split at h
    · next r =>
      obtain ⟨name, r', hname, hr', rfl⟩ := readClosing_eq_ok_iff.1 h
      refine ⟨r'.takeWhile isBlank, isNameOf_of_readName hname, blanks_takeWhile r', ?_⟩
      rw [← hr', List.takeWhile_append_dropWhile, ← eq_of_readName hname]
    · next r =>
      obtain ⟨r', body, rfl, hbody, rfl⟩ := readComment_eq_ok_iff.1 h
      obtain ⟨hr', hend⟩ := readCommentBody_eq hbody
      refine ⟨by rwa [IsCommentText, String.toList_ofList], ?_⟩
      rw [String.toList_ofList, hr']
    · obtain ⟨t, closed, ht, rfl, rfl⟩ := readOpening_eq_ok_iff_exists.1 h
      exact ⟨t, ht, rfl, rfl⟩
  · rw [readPiece_text hc] at h
    obtain ⟨rfl, rfl⟩ := Prod.mk.inj (Except.ok.inj h)
    refine ⟨c :: cs.takeWhile (· ≠ '<'), List.cons_ne_nil _ _, ?_, endsText_dropWhile cs, ?_, rfl⟩
    · intro hmem
      rcases List.mem_cons.1 hmem with rfl | hmem
      · exact hc rfl
      · simpa using List.mem_takeWhile_imp hmem
    · rw [List.cons_append, List.takeWhile_append_dropWhile]

/-! ## The next item -/

/-- What comes next in a text. -/
inductive Lead where
  /-- No item: the text ends, or a closing tag comes next. -/
  | done
  /-- A text. -/
  | text
  /-- A comment. -/
  | comment
  /-- An opening tag. -/
  | tag

/-- What comes next, by the first two characters. -/
def lead : List Char → Lead
  | [] => .done
  | '<' :: '/' :: _ => .done
  | '<' :: '!' :: _ => .comment
  | '<' :: _ => .tag
  | _ => .text

/-- The kind of the first item. -/
def Derivation.lead : Derivation → Lead
  | nil => .done
  | text _ _ => .text
  | comment _ _ => .comment
  | closed _ _ | element _ _ _ _ => .tag

theorem lead_of_ne {c : Char} (h : c ≠ '<') (cs : List Char) : lead (c :: cs) = .text := by
  unfold lead
  split <;> simp_all

theorem Tag.Valid.lead_write {t : Tag} (ht : t.Valid) (rest : List Char) :
    lead ('<' :: (t.write ++ rest)) = .tag := by
  obtain ⟨c, cs, hwrite, hslash, hmark⟩ := ht.head_write
  rw [hwrite]
  unfold lead
  split <;> simp_all

/-- **The first two characters** of a derivation say of which kind its first item is. -/
theorem Derivation.Valid.lead_write {d : Derivation} (hd : d.Valid) {rest : List Char}
    (hrest : Grammar.lead rest = .done) : Grammar.lead (d.write ++ rest) = d.lead := by
  cases d with
  | nil => exact hrest
  | text raw next =>
    obtain ⟨⟨hne, hraw, -⟩, -⟩ := hd
    obtain ⟨c, cs, rfl⟩ := List.exists_cons_of_ne_nil hne
    exact lead_of_ne (fun h => hraw (h ▸ List.mem_cons_self)) _
  | comment body next => rfl
  | closed tag next =>
    rw [write, List.cons_append, List.append_assoc]
    exact hd.1.lead_write _
  | element tag content blanks next =>
    rw [write, List.cons_append, List.append_assoc]
    exact hd.1.lead_write _

theorem endsText_of_lead {cs : List Char} (h : lead cs ≠ .text) : EndsText cs := by
  intro c hc
  cases cs with
  | nil => cases hc
  | cons x cs =>
    obtain rfl := Option.some.inj hc
    exact Decidable.byContradiction fun hne => h (lead_of_ne hne cs)

/-- Items that do not start in a text end a text before them. -/
theorem Derivation.Valid.endsText {d : Derivation} (hd : d.Valid) (hs : d.startsInText = false)
    {rest : List Char} (hrest : Grammar.lead rest = .done) : EndsText (d.write ++ rest) := by
  refine endsText_of_lead ?_
  rw [hd.lead_write hrest]
  cases d with
  | text raw next => cases hs
  | nil | comment _ _ | closed _ _ | element _ _ _ _ => exact fun h => by cases h

/-! ## Every derivation is read -/

/-- **A derivation is read to its trees**, whatever is open and whatever follows it, if no item
does. -/
theorem assemble_write {d : Derivation} (hd : d.Valid) (opened : List Open)
    (left : List (Tree Content)) {rest : List Char} (hrest : lead rest = .done) :
    assemble opened left (d.write ++ rest) =
      assemble opened (d.forest.trees.reverse ++ left) rest := by
  induction d generalizing opened left rest with
  | nil => rfl
  | text raw next ih =>
    obtain ⟨⟨hne, hraw, hs⟩, hnext⟩ := hd
    obtain ⟨c, cs, hsplit, hpiece⟩ := readPiece_raw hne hraw (hnext.endsText hs hrest)
    rw [Derivation.write, List.append_assoc, hsplit, assemble_cons hpiece]
    simp only [ih hnext _ _ hrest, Derivation.forest, Forest.trees, List.reverse_cons,
      List.append_assoc, List.cons_append, List.nil_append]
  | comment body next ih =>
    obtain ⟨hbody, hnext⟩ := hd
    have hpiece := readPiece_commentText hbody (next.write ++ rest)
    simp only [Derivation.write, List.cons_append, List.append_assoc]
    rw [assemble_cons hpiece]
    simp only [ih hnext _ _ hrest, Derivation.forest, Forest.trees, List.reverse_cons,
      List.append_assoc, List.cons_append, List.nil_append]
  | closed tag next ih =>
    obtain ⟨htag, hnext⟩ := hd
    have hpiece := readPiece_tag htag true (next.write ++ rest)
    simp only [Derivation.write, List.cons_append, List.append_assoc]
    rw [assemble_cons hpiece]
    simp only [ih hnext _ _ hrest, Derivation.forest, Forest.trees, List.reverse_cons,
      List.append_assoc, List.cons_append, List.nil_append]
  | element tag content blanks next ih₁ ih₂ =>
    obtain ⟨htag, hcontent, hblanks, hnext⟩ := hd
    have hclose := readPiece_closingTag htag.name hblanks (next.write ++ rest)
    have hpiece := readPiece_tag htag false (content.write ++
      '<' :: '/' :: (tag.name.toList ++ (blanks ++ '>' :: (next.write ++ rest))))
    simp only [Derivation.write, List.cons_append, List.append_assoc]
    rw [assemble_cons hpiece]
    refine (ih₁ hcontent _ [] rfl).trans ?_
    rw [assemble_cons hclose]
    simp only [Tag.element, if_true, List.append_nil, List.reverse_reverse, Forest.ofTrees_trees,
      ih₂ hnext _ _ hrest, Derivation.forest, Forest.trees, List.reverse_cons,
      List.append_assoc, List.cons_append, List.nil_append]

/-! ## All that is read is derived -/

/-- Nothing goes on after the last item but the end of the text or of the innermost element. -/
theorem exists_of_assemble_done {opened : List Open} {left : List (Tree Content)} {cs : List Char}
    {f : Forest Content} (hcs : lead cs = .done) (h : assemble opened left cs = .ok f) :
    (cs = [] ∧ opened = []) ∨
      ∃ e outer above blanks after, opened = ⟨e, outer⟩ :: above ∧ Blanks blanks ∧
        cs = '<' :: '/' :: (e.tag.toList ++ (blanks ++ '>' :: after)) ∧
        assemble above (⟨.element e, .ofTrees left.reverse⟩ :: outer) after = .ok f := by
  cases cs with
  | nil =>
    cases opened with
    | nil => exact .inl ⟨rfl, rfl⟩
    | cons o above =>
      unfold assemble at h
      cases h
  | cons c rest =>
    right
    cases hpiece : readPiece c rest with
    | error e =>
      obtain ⟨e', he⟩ := assemble_cons_error hpiece opened left
      rw [he] at h
      cases h
    | ok x =>
      obtain ⟨p, after⟩ := x
      have hreads := reads_of_readPiece hpiece
      rw [assemble_cons hpiece] at h
      cases p with
      | text s =>
        obtain ⟨raw, hne, hraw, -, hsplit, -⟩ := hreads
        obtain ⟨x, raw, rfl⟩ := List.exists_cons_of_ne_nil hne
        rw [hsplit, List.cons_append, lead_of_ne fun hx => hraw (hx ▸ List.mem_cons_self)] at hcs
        cases hcs
      | comment s =>
        rw [hreads.2] at hcs
        cases hcs
      | opening e closed =>
        obtain ⟨t, ht, hsplit, -⟩ := hreads
        rw [hsplit, ht.lead_write] at hcs
        cases hcs
      | closing name =>
        obtain ⟨blanks, -, hb, hsplit⟩ := hreads
        cases opened with
        | nil => cases h
        | cons o above =>
          obtain ⟨e, outer⟩ := o
          simp only at h
          split at h
          · next hname => exact ⟨e, outer, above, blanks, after, rfl, hb, hname ▸ hsplit, h⟩
          · cases h

/-- **What is read starts with a derivation**, up to where no item starts. The recursion is on the
length: an element takes one derivation for its content and one for what follows it. -/
theorem exists_of_assemble {opened : List Open} {left : List (Tree Content)} {cs : List Char}
    {f : Forest Content} (h : assemble opened left cs = .ok f) :
    ∃ (d : Derivation) (rest : List Char), d.Valid ∧ cs = d.write ++ rest ∧ lead rest = .done := by
  cases cs with
  | nil => exact ⟨.nil, [], trivial, rfl, rfl⟩
  | cons c cs =>
    cases hpiece : readPiece c cs with
    | error e =>
      obtain ⟨e', he⟩ := assemble_cons_error hpiece opened left
      rw [he] at h
      cases h
    | ok x =>
      obtain ⟨p, after⟩ := x
      have hlength := length_of_piece hpiece
      have hreads := reads_of_readPiece hpiece
      rw [assemble_cons hpiece] at h
      cases p with
      | text s =>
        obtain ⟨raw, hne, hraw, hends, hsplit, -⟩ := hreads
        obtain ⟨d, rest, hd, rfl, hrest⟩ := exists_of_assemble h
        refine ⟨.text raw d, rest, ⟨⟨hne, hraw, ?_⟩, hd⟩, ?_, hrest⟩
        · -- a text after a text would have been read with it
          cases d with
          | text raw' next =>
            obtain ⟨⟨hne', hraw', -⟩, -⟩ := hd
            obtain ⟨x, raw', rfl⟩ := List.exists_cons_of_ne_nil hne'
            exact absurd (hends x rfl ▸ List.mem_cons_self) hraw'
          | nil | comment _ _ | closed _ _ | element _ _ _ _ => rfl
        · rw [hsplit, Derivation.write, List.append_assoc]
      | comment s =>
        obtain ⟨hs, hsplit⟩ := hreads
        obtain ⟨d, rest, hd, rfl, hrest⟩ := exists_of_assemble h
        refine ⟨.comment s d, rest, ⟨hs, hd⟩, ?_, hrest⟩
        simp only [hsplit, Derivation.write, List.cons_append, List.append_assoc]
      | opening e closed =>
        obtain ⟨t, ht, hsplit, rfl⟩ := hreads
        cases closed with
        | true =>
          obtain ⟨d, rest, hd, rfl, hrest⟩ := exists_of_assemble h
          refine ⟨.closed t d, rest, ⟨ht, hd⟩, ?_, hrest⟩
          simp only [hsplit, Derivation.write, List.cons_append, List.append_assoc]
        | false =>
          obtain ⟨content, r, hcontent, rfl, hr⟩ := exists_of_assemble h
          simp only at h
          rw [assemble_write hcontent _ _ hr] at h
          obtain ⟨-, habove⟩ | ⟨e, outer, above, blanks, next, ho, hb, rfl, hnext⟩ :=
            exists_of_assemble_done hr h
          · cases habove
          have hshorter : next.length < (c :: cs).length := by
            simp only [List.length_append, List.length_cons] at hlength ⊢
            omega
          obtain ⟨d, rest, hd, rfl, hrest⟩ := exists_of_assemble hnext
          obtain rfl : t.element = e := congrArg Open.element (List.cons.inj ho).1
          refine ⟨.element t content blanks d, rest, ⟨ht, hcontent, hb, hd⟩, ?_, hrest⟩
          simp only [hsplit, Tag.element, Derivation.write, List.cons_append, List.append_assoc]
      | closing name =>
        obtain ⟨blanks, -, -, hsplit⟩ := hreads
        exact ⟨.nil, c :: cs, trivial, rfl, hsplit ▸ rfl⟩
termination_by cs.length

/-! ## There is one derivation -/

/-- The first items of two derivations of one text are of one kind. -/
theorem Derivation.Valid.lead_eq {d d' : Derivation} (hd : d.Valid) (hd' : d'.Valid)
    {rest rest' : List Char} (hrest : Grammar.lead rest = .done)
    (hrest' : Grammar.lead rest' = .done) (h : d.write ++ rest = d'.write ++ rest') :
    d.lead = d'.lead := by
  rw [← hd.lead_write hrest, ← hd'.lead_write hrest', h]

/-- **A derivation can be cut off the start of a text in one way only**, if no item comes after
it. -/
theorem write_append_inj {d d' : Derivation} (hd : d.Valid) (hd' : d'.Valid)
    {rest rest' : List Char} (hrest : lead rest = .done) (hrest' : lead rest' = .done)
    (h : d.write ++ rest = d'.write ++ rest') : d = d' ∧ rest = rest' := by
  -- the kind of the first item leaves one case each, but for a tag that may be closed or not
  induction d generalizing d' rest rest' with
  | nil =>
    have hlead := hd.lead_eq hd' hrest hrest' h
    cases d' with
    | nil => exact ⟨rfl, h⟩
    | text _ _ | comment _ _ | closed _ _ | element _ _ _ _ => cases hlead
  | text raw next ih =>
    have hlead := hd.lead_eq hd' hrest hrest' h
    cases d' with
    | text raw' next' =>
      obtain ⟨⟨-, hraw, hs⟩, hnext⟩ := hd
      obtain ⟨⟨-, hraw', hs'⟩, hnext'⟩ := hd'
      simp only [Derivation.write, List.append_assoc] at h
      obtain ⟨rfl, htail⟩ := append_inj_of_all (all_ne_of_not_mem hraw)
        (all_ne_of_not_mem hraw') (hnext.endsText hs hrest).stops
        (hnext'.endsText hs' hrest').stops h
      obtain ⟨rfl, hr⟩ := ih hnext hnext' hrest hrest' htail
      exact ⟨rfl, hr⟩
    | nil | comment _ _ | closed _ _ | element _ _ _ _ => cases hlead
  | comment body next ih =>
    have hlead := hd.lead_eq hd' hrest hrest' h
    cases d' with
    | comment body' next' =>
      simp only [Derivation.write, List.cons_append, List.append_assoc, List.cons.injEq,
        true_and] at h
      have hread := readCommentBody_append hd.1 (next.write ++ rest)
      rw [h, readCommentBody_append hd'.1] at hread
      obtain ⟨hbody, htail⟩ := Prod.mk.inj (Except.ok.inj hread)
      obtain rfl := String.toList_injective hbody
      obtain ⟨rfl, hr⟩ := ih hd.2 hd'.2 hrest hrest' htail.symm
      exact ⟨rfl, hr⟩
    | nil | text _ _ | closed _ _ | element _ _ _ _ => cases hlead
  | closed tag next ih =>
    have hlead := hd.lead_eq hd' hrest hrest' h
    cases d' with
    | closed tag' next' =>
      simp only [Derivation.write, List.cons_append, List.append_assoc, List.cons.injEq,
        true_and] at h
      obtain ⟨rfl, -, htail⟩ := Tag.write_inj hd.1 hd'.1 h
      obtain ⟨rfl, hr⟩ := ih hd.2 hd'.2 hrest hrest' htail
      exact ⟨rfl, hr⟩
    | element tag' content blanks next' =>
      simp only [Derivation.write, List.cons_append, List.append_assoc, List.cons.injEq,
        true_and] at h
      cases (Tag.write_inj hd.1 hd'.1 h).2.1
    | nil | text _ _ | comment _ _ => cases hlead
  | element tag content blanks next ih₁ ih₂ =>
    have hlead := hd.lead_eq hd' hrest hrest' h
    cases d' with
    | closed tag' next' =>
      simp only [Derivation.write, List.cons_append, List.append_assoc, List.cons.injEq,
        true_and] at h
      cases (Tag.write_inj hd.1 hd'.1 h).2.1
    | element tag' content' blanks' next' =>
      obtain ⟨htag, hcontent, hblanks, hnext⟩ := hd
      obtain ⟨htag', hcontent', hblanks', hnext'⟩ := hd'
      simp only [Derivation.write, List.cons_append, List.append_assoc, List.cons.injEq,
        true_and] at h
      obtain ⟨rfl, -, hinner⟩ := Tag.write_inj htag htag' h
      obtain ⟨rfl, hclose⟩ := ih₁ hcontent hcontent' rfl rfl hinner
      -- both closing tags have the name of the one opening tag
      have hname := List.append_cancel_left (List.cons.inj (List.cons.inj hclose).2).2
      obtain ⟨rfl, htail⟩ := append_inj_of_all hblanks hblanks' (stops_cons (by decide) _)
        (stops_cons (by decide) _) hname
      obtain ⟨rfl, hr⟩ := ih₂ hnext hnext' hrest hrest' (List.cons.inj htail).2
      exact ⟨rfl, hr⟩
    | nil | text _ _ | comment _ _ => cases hlead

/-! ## Whole texts -/

theorem Derivation.Derives.parse_eq {d : Derivation} {s : String} (h : d.Derives s) :
    parse s = .ok d.forest := by
  have hend : Grammar.lead [] = .done := rfl
  have := assemble_write h.1 [] [] hend
  rw [List.append_nil, List.append_nil, h.2, assemble_nil, List.reverse_reverse,
    Forest.ofTrees_trees] at this
  exact this

theorem exists_derives {s : String} {f : Forest Content} (h : parse s = .ok f) :
    ∃ d : Derivation, d.Derives s := by
  obtain ⟨d, rest, hd, hs, hrest⟩ := exists_of_assemble h
  rw [parse, hs, assemble_write hd _ _ hrest] at h
  obtain ⟨rfl, -⟩ | ⟨e, outer, above, -, -, ho, -⟩ := exists_of_assemble_done hrest h
  · exact ⟨d, hd, by rw [hs, List.append_nil]⟩
  · cases ho

/-- **A text is read exactly if it has a derivation**; it has at most one, and what is read are its
trees. -/
theorem parse_iff_derives (s : String) :
    ((∃ f, parse s = .ok f) ↔ ∃ d : Derivation, d.Derives s) ∧
      ∀ d : Derivation, d.Derives s →
        parse s = .ok d.forest ∧ ∀ d' : Derivation, d'.Derives s → d' = d := by
  refine ⟨⟨fun ⟨_, hf⟩ => exists_derives hf, fun ⟨d, hd⟩ => ⟨d.forest, hd.parse_eq⟩⟩, ?_⟩
  intro d hd
  refine ⟨hd.parse_eq, ?_⟩
  intro d' hd'
  have hend : lead [] = .done := rfl
  refine (write_append_inj hd'.1 hd.1 hend hend ?_).1
  rw [hd'.2, hd.2]

theorem parse_iff_derives_repeated :
    let d : Derivation := .closed
      ⟨"a", [⟨[' '], "x", some ⟨[], [' '], '\'', ['1']⟩⟩, ⟨[' '], "y", none⟩,
        ⟨[' '], "x", some ⟨[], [], '"', ['2']⟩⟩], []⟩ (.text ['b', '&', 'l', 't', ';'] .nil)
    d.Derives "<a x= '1' y x=\"2\"/>b&lt;" ∧
      parse "<a x= '1' y x=\"2\"/>b&lt;" = .ok (.cons
        (.element { tag := "a", attributes := .ofList [("x", "2"), ("y", "")] }) .nil
        (.cons (.text "b<") .nil .nil)) ∧
      ∀ d' : Derivation, d'.Derives "<a x= '1' y x=\"2\"/>b&lt;" → d' = d := by
  intro d
  have hd : d.Derives "<a x= '1' y x=\"2\"/>b&lt;" := by decide
  obtain ⟨hparse, hunique⟩ := (parse_iff_derives _).2 d hd
  exact ⟨hd, hparse.trans (by decide), hunique⟩

end MarkupTemplate.Markup.Grammar

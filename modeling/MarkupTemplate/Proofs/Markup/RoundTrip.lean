import MarkupTemplate.Proofs.Markup.Merge
import MarkupTemplate.Proofs.Text

/-!
# Reading what was written

Each part of a printed tree is read back as what it was, whatever follows it. The induction is on
the forest; the statement is about every continuation of its markup that does not go on with a
text, since the last text of the forest would run into it. What was read before may end in one,
and then runs into the first text of the forest.

Results:
* `assemble_print`: reading printed trees puts them to the left with their texts merged, and goes on
  after them.
* `parse_print`: what is written is read back with its texts merged.
* `print_parse_inverse`: printing and parsing are inverse to each other on printable trees.
-/

namespace MarkupTemplate

open Text

namespace Markup

/-! ## Names and values -/

theorem readName_toList {p : Char → Bool} {name : String} (hn : IsNameOf p name)
    {rest : List Char} (hrest : Stops p rest) :
    readName p (name.toList ++ rest) = .ok (name, rest) := by
  rw [readName_eq_ok_iff, takeWhile_append_of_all hn.2 hrest,
    dropWhile_append_of_all hn.2 hrest, String.ofList_toList]
  exact ⟨fun h => hn.1 (by simpa using h), rfl, rfl⟩

/-- A value is read up to its quote. -/
theorem readUntilQuote_append {q : Char} {raw : List Char} (hraw : q ∉ raw) (rest : List Char) :
    readUntilQuote q (raw ++ q :: rest) = .ok (String.ofList (decode raw), rest) := by
  have hne := all_ne_of_not_mem hraw
  have hstop : Stops (· ≠ q) (q :: rest) := stops_cons (by simp) rest
  rw [readUntilQuote_eq_ok_iff, dropWhile_append_of_all hne hstop,
    takeWhile_append_of_all hne hstop]
  exact ⟨rfl, rfl⟩

theorem readUntilQuote_escapeValue (cs rest : List Char) :
    readUntilQuote '"' (escapeValue cs ++ '"' :: rest) = .ok (String.ofList cs, rest) := by
  have hdecode : decode (escapeValue cs) = cs := by
    have := decode_escapeValue cs []
    rwa [List.append_nil, decode, List.append_nil] at this
  rw [readUntilQuote_append (not_mem_escapeValue cs), hdecode]

/-! ## Attributes -/

theorem head_of_isNameOf {p : Char → Bool} {name : String} (hn : IsNameOf p name) :
    ∃ c cs, name.toList = c :: cs ∧ p c = true := by
  cases h : name.toList with
  | nil => exact absurd (by simpa using h) hn.1
  | cons c cs => exact ⟨c, cs, rfl, hn.2 c (by simp [h])⟩

/-- The characters of names are visible ASCII characters. -/
theorem toNat_of_isNameChar {c : Char} (h : isNameChar c = true) :
    0x2d ≤ c.toNat ∧ c.toNat ≤ 0x7a := by
  simp only [isNameChar, isTagChar, Bool.or_eq_true, decide_eq_true_eq] at h
  rcases h with ((((h | rfl) | rfl) | rfl) | rfl) | rfl
  · have := toNat_of_isAlphanum h
    omega
  all_goals decide

/-- No character of an attribute's name is a blank. -/
theorem isBlank_of_isNameChar {c : Char} (h : isNameChar c = true) : isBlank c = false := by
  have hrange := toNat_of_isNameChar h
  exact isBlank_of_visible (by omega) (by omega)

theorem readAttribute_printAttribute {a : String × String} (hn : IsNameOf isNameChar a.1)
    (rest : List Char) : readAttribute (printAttribute a ++ rest) = .ok (a, rest) := by
  obtain ⟨c, cs, hname, hc⟩ := head_of_isNameOf hn
  have hblank : (printAttribute a ++ rest).dropWhile isBlank =
      a.1.toList ++ '=' :: '"' :: (escapeValue a.2.toList ++ '"' :: rest) := by
    have hstop : Stops isBlank
        (a.1.toList ++ '=' :: '"' :: (escapeValue a.2.toList ++ '"' :: rest)) := by
      rw [hname]
      exact stops_cons (isBlank_of_isNameChar hc) _
    have hspace : ∀ c ∈ [' '], isBlank c = true := List.all_eq_true.1 rfl
    have := dropWhile_append_of_all hspace hstop
    simpa [printAttribute] using this
  rw [readAttribute_eq_ok_iff, hblank]
  refine ⟨_, readName_toList hn (stops_cons (by decide) _), ?_⟩
  have := readUntilQuote_escapeValue a.2.toList rest
  rw [String.ofList_toList] at this
  exact this

theorem startsAttribute_printAttribute {a : String × String} (hn : IsNameOf isNameChar a.1)
    (rest : List Char) : startsAttribute (printAttribute a ++ rest) = true := by
  obtain ⟨c, cs, hname, hc⟩ := head_of_isNameOf hn
  have hb : isBlank ' ' = true := by decide
  simp [startsAttribute, printAttribute, hname, hb, isBlank_of_isNameChar hc, hc]

theorem startsAttribute_cons {c : Char} (h : isBlank c = false) (rest : List Char) :
    startsAttribute (c :: rest) = false := by
  simp [startsAttribute, h]

theorem readAttributes_printAttribute {as : List (String × String)}
    (hn : ∀ a ∈ as, IsNameOf isNameChar a.1) {rest : List Char}
    (hrest : startsAttribute rest = false) :
    readAttributes (as.flatMap printAttribute ++ rest) = .ok (as, rest) := by
  induction as with
  | nil => exact readAttributes_of_not_starts hrest
  | cons a as ih =>
    have ha := hn a List.mem_cons_self
    rw [List.flatMap_cons, List.append_assoc,
      readAttributes_of_starts (startsAttribute_printAttribute ha _)]
    exact ⟨a, _, as, readAttribute_printAttribute ha _,
      ih fun b hb => hn b (List.mem_cons_of_mem a hb), rfl⟩

/-! ## Tags, comments and texts -/

theorem readTagEnd_gt (rest : List Char) : readTagEnd ('>' :: rest) = .ok (false, rest) := by
  have : ('>' :: rest).dropWhile isBlank = '>' :: rest :=
    List.dropWhile_cons_of_neg (by decide)
  unfold readTagEnd
  rw [this]
  rfl

theorem readTagEnd_slash (rest : List Char) :
    readTagEnd ('/' :: '>' :: rest) = .ok (true, rest) := by
  have : ('/' :: '>' :: rest).dropWhile isBlank = '/' :: '>' :: rest :=
    List.dropWhile_cons_of_neg (by decide)
  unfold readTagEnd
  rw [this]
  rfl

/-- The head of an element is read back up to the end of its tag. -/
theorem readPiece_printHead {e : Element} (he : e.Printable) {fin rest : List Char} {closed : Bool}
    (hstart : startsAttribute fin = false) (hstop : Stops isTagChar fin)
    (hfin : readTagEnd fin = .ok (closed, rest)) :
    ∃ c cs, printHead e ++ fin = c :: cs ∧
      readPiece '<' (c :: cs) = .ok (.opening e closed, rest) := by
  obtain ⟨c, cs, htag, hc⟩ := head_of_isNameOf he.tag
  have hsplit : printHead e ++ fin =
      e.tag.toList ++ (e.attributes.entries.flatMap printAttribute ++ fin) := by
    unfold printHead
    rw [List.append_assoc]
  refine ⟨c, cs ++ (e.attributes.entries.flatMap printAttribute ++ fin), ?_, ?_⟩
  · rw [hsplit, htag, List.cons_append]
  have hs : c ≠ '/' := by rintro rfl; revert hc; decide
  have hb : c ≠ '!' := by rintro rfl; revert hc; decide
  rw [readPiece_opening (by simpa using hs) (by simpa using hb), readOpening_eq_ok_iff,
    ← List.cons_append, ← htag]
  have hblank : Stops isTagChar (e.attributes.entries.flatMap printAttribute ++ fin) := by
    cases e.attributes.entries with
    | nil => exact hstop
    | cons a as => exact stops_cons (by decide) _
  have hattrs := readAttributes_printAttribute
    (fun a ha => he.names a.1 (List.mem_map_of_mem ha)) hstart
  refine ⟨_, _, _, _, _, readName_toList he.tag hblank, hattrs, hfin, ?_⟩
  rw [Attributes.ofList_entries]
  obtain ⟨tag, ns, attributes⟩ := e
  obtain rfl : ns = none := he.ns
  rfl

theorem readClosing_tag {tag : String} (ht : IsNameOf isTagChar tag) (rest : List Char) :
    readPiece '<' ('/' :: (tag.toList ++ '>' :: rest)) = .ok (.closing tag, rest) := by
  rw [readPiece_closing, readClosing_eq_ok_iff]
  exact ⟨_, _, readName_toList ht (stops_cons (by decide) rest),
    List.dropWhile_cons_of_neg (by decide), rfl⟩

theorem readPiece_commentText {s : String} (h : IsCommentText s) (rest : List Char) :
    readPiece '<' ('!' :: '-' :: '-' :: (s.toList ++ '-' :: '-' :: '>' :: rest)) =
      .ok (.comment s, rest) := by
  rw [readPiece_comment, readComment_eq_ok_iff]
  exact ⟨_, _, rfl, readCommentBody_append h rest, by rw [String.ofList_toList]⟩

theorem EndsText.stops {cs : List Char} (h : EndsText cs) : Stops (· ≠ '<') cs :=
  fun c hc => by simp [h c hc]

/-- A text is read as far as it goes. -/
theorem readPiece_raw {raw : List Char} (hne : raw ≠ []) (hraw : '<' ∉ raw) {rest : List Char}
    (hr : EndsText rest) :
    ∃ c cs, raw ++ rest = c :: cs ∧
      readPiece c cs = .ok (.text (String.ofList (decode raw)), rest) := by
  obtain ⟨c, cs, rfl⟩ := List.exists_cons_of_ne_nil hne
  obtain ⟨hc, hcs⟩ := not_or.1 (List.mem_cons.not.1 hraw)
  have hall := all_ne_of_not_mem hcs
  refine ⟨c, cs ++ rest, rfl, ?_⟩
  rw [readPiece_text (Ne.symm hc), takeWhile_append_of_all hall hr.stops,
    dropWhile_append_of_all hall hr.stops]

theorem readPiece_escapeText {s : String} (hs : s ≠ "") {rest : List Char} (hr : EndsText rest) :
    ∃ c cs, escapeText s.toList ++ rest = c :: cs ∧
      readPiece c cs = .ok (.text s, rest) := by
  have hdecode : decode (escapeText s.toList) = s.toList := by
    have := decode_escapeText s.toList []
    rwa [List.append_nil, decode, List.append_nil] at this
  have hne : escapeText s.toList ≠ [] := by
    intro he
    rw [he] at hdecode
    exact hs (by simpa [decode] using hdecode.symm)
  have := readPiece_raw hne (not_mem_escapeText s.toList) hr
  rwa [hdecode, String.ofList_toList] at this

/-! ## Trees -/

theorem endsText_cons (cs : List Char) : EndsText ('<' :: cs) :=
  fun _ hc => (Option.some.inj hc).symm

/-- What is printed of trees that do not start in a text does not go on with one. -/
theorem endsText_print {f : Forest Content} (hf : f.Writable) (hs : f.startsInText = false)
    {rest : List Char} (hr : EndsText rest) : EndsText (print f ++ rest) := by
  cases f with
  | nil => exact hr
  | cons a below beside =>
    cases a with
    | element e => exact endsText_cons _
    | text s => cases hs
    | comment s => exact endsText_cons _
    | fragment => exact absurd hf.1 id

/-- A text is put to the left, if there is one. -/
theorem assemble_escapeText (s : String) (opened : List Open) (left : List (Tree Content))
    {rest : List Char} (hr : EndsText rest) :
    assemble opened left (escapeText s.toList ++ rest) =
      assemble opened ((Forest.prependText s .nil).trees.reverse ++ left) rest := by
  by_cases hs : s = ""
  · rw [hs, Forest.prependText_empty]
    rfl
  · obtain ⟨c, cs, hsplit, hpiece⟩ := readPiece_escapeText hs hr
    rw [hsplit, assemble_cons hpiece, Forest.prependText_of_not_startsInText rfl hs]
    rfl

/-- **Printed trees are read back with their texts merged**, whatever is open and whatever follows
them. What was read before them may have ended in the text `s`. -/
theorem assemble_print {f : Forest Content} (hw : f.Writable) (s : String) (opened : List Open)
    (left : List (Tree Content)) {rest : List Char} (hr : EndsText rest) :
    assemble opened left (escapeText s.toList ++ (print f ++ rest)) =
      assemble opened ((Forest.prependText s f.merged).trees.reverse ++ left) rest := by
  induction f generalizing s opened left rest with
  | nil => exact assemble_escapeText s opened left hr
  | cons a below beside ih₁ ih₂ =>
    obtain ⟨ha, hbeside⟩ := hw
    -- what follows the first tree starts with an empty text
    have hnext : ∀ left, assemble opened left (print beside ++ rest) =
        assemble opened (beside.merged.trees.reverse ++ left) rest := by
      intro left
      have := ih₂ hbeside "" opened left hr
      rwa [Forest.prependText_empty] at this
    cases a with
    | text t =>
      have hescape : escapeText (s ++ t).toList = escapeText s.toList ++ escapeText t.toList := by
        rw [String.toList_append]
        exact List.flatMap_append
      unfold print
      rw [← List.append_assoc, ← List.append_assoc, ← hescape, List.append_assoc,
        ih₂ hbeside (s ++ t) opened left hr, Forest.merged, Forest.prependText_prependText]
    | comment t =>
      obtain ⟨htext, rfl⟩ := ha
      have hpiece := readPiece_commentText htext (print beside ++ rest)
      rw [assemble_escapeText s opened left (endsText_print (f := .cons (.comment t) .nil beside)
        ⟨⟨htext, rfl⟩, hbeside⟩ rfl hr), Forest.merged_cons rfl, Forest.prependText_cons rfl]
      simp only [print, List.cons_append, List.append_assoc, List.nil_append]
      rw [assemble_cons hpiece]
      simp only [hnext, Forest.trees_append, Forest.trees, Forest.merged, List.reverse_append,
        List.reverse_cons, List.append_assoc, List.cons_append, List.nil_append]
    | element e =>
      obtain ⟨he, hbelow⟩ := ha
      rw [assemble_escapeText s opened left (endsText_print (f := .cons (.element e) below beside)
        ⟨⟨he, hbelow⟩, hbeside⟩ rfl hr), Forest.merged_cons rfl, Forest.prependText_cons rfl]
      cases below with
      | nil =>
        obtain ⟨c, cs, hsplit, hpiece⟩ := readPiece_printHead he
          (startsAttribute_cons (by decide) _) (stops_cons (by decide) _)
          (readTagEnd_slash (print beside ++ rest))
        simp only [print, printElement, isChildless, if_true, List.cons_append, List.append_assoc,
          List.nil_append]
        rw [hsplit, assemble_cons hpiece]
        simp only [hnext, Forest.trees_append, Forest.trees, Forest.merged, List.reverse_append,
          List.reverse_cons, List.append_assoc, List.cons_append, List.nil_append]
      | cons b bs f =>
        obtain ⟨c, cs, hsplit, hpiece⟩ := readPiece_printHead he
          (startsAttribute_cons (by decide) _) (stops_cons (by decide) _)
          (readTagEnd_gt (print (.cons b bs f) ++
            ('<' :: '/' :: (e.tag.toList ++ '>' :: (print beside ++ rest)))))
        have hclose := readClosing_tag he.tag (print beside ++ rest)
        have hinner := ih₁ hbelow ""
          (⟨e, (Forest.prependText s .nil).trees.reverse ++ left⟩ :: opened) []
          (endsText_cons ('/' :: (e.tag.toList ++ '>' :: (print beside ++ rest))))
        rw [Forest.prependText_empty] at hinner
        rw [print, printElement, isChildless]
        simp only [Bool.false_eq_true, if_false, List.cons_append, List.append_assoc,
          List.nil_append]
        rw [hsplit, assemble_cons hpiece]
        refine hinner.trans ?_
        rw [assemble_cons hclose]
        simp only [if_true, List.append_nil, List.reverse_reverse, Forest.ofTrees_trees, hnext,
          Forest.trees_append, Forest.trees, List.reverse_append, List.reverse_cons,
          List.append_assoc, List.cons_append, List.nil_append]
    | fragment => exact absurd ha id

/-- **What is written is read back with its texts merged.** -/
theorem parse_print {f : Forest Content} (hf : f.Writable) : parse f.toMarkup = .ok f.merged := by
  have hend : EndsText [] := nofun
  have := assemble_print hf "" [] [] hend
  rw [Forest.prependText_empty, List.append_nil, List.append_nil] at this
  unfold parse Forest.toMarkup
  rw [String.toList_ofList]
  refine this.trans ?_
  rw [assemble_nil, List.reverse_reverse, Forest.ofTrees_trees]

theorem parse_toMarkup {f : Forest Content} (hf : f.Printable) : parse f.toMarkup = .ok f := by
  rw [parse_print hf.1, Forest.merged_eq_self hf]

/-- **Printing and parsing are inverse** on printable trees: only these are read from markup, and
each is read back from what it is printed as. -/
theorem print_parse_inverse :
    (∀ s f, parse s = .ok f → (Tree.ofFragment f).Printable) ∧
      ∀ t : Tree Content, t.Printable → (parse t.toMarkup).map Tree.ofFragment = .ok t := by
  refine ⟨fun _ _ => printable_of_parse, ?_⟩
  intro t ht
  obtain ⟨a, f⟩ := t
  obtain rfl : a = .fragment := ht.root
  have hprint : (Tree.mk .fragment f).toMarkup = f.toMarkup :=
    congrArg String.ofList (print_fragment f)
  rw [hprint, parse_toMarkup ⟨ht.writable, ht.separated⟩]
  rfl

/-- A paragraph whose value and text need escaping, and whose comment ends in a dash. -/
theorem print_parse_inverse_paragraph :
    let t : Tree Content := .ofFragment (.cons
      (.element { tag := "p", attributes := .ofList [("title", "<\"&")] })
      (.cons (.text "a<b") .nil (.cons (.comment "-") .nil .nil)) .nil)
    t.Printable ∧ (parse t.toMarkup).map Tree.ofFragment = .ok t ∧
      ∃ f, parse "<br a='1'/>" = .ok f ∧ (Tree.ofFragment f).Printable := by
  intro t
  have ht : t.Printable := ⟨rfl, by decide, by decide⟩
  refine ⟨ht, print_parse_inverse.2 t ht, ?_⟩
  have hpiece : readPiece '<' ['b', 'r', ' ', 'a', '=', '\'', '1', '\'', '/', '>'] =
      .ok (.opening { tag := "br", attributes := .ofList [("a", "1")] } true, []) := by
    with_unfolding_all rfl
  have hparse : parse "<br a='1'/>" = .ok (.cons
      (.element { tag := "br", attributes := .ofList [("a", "1")] }) .nil .nil) :=
    (assemble_cons hpiece).trans (assemble_nil _)
  exact ⟨_, hparse, print_parse_inverse.1 _ _ hparse⟩

end Markup

end MarkupTemplate

import MarkupTemplate.Markup.Printer
import MarkupTemplate.Proofs.Attributes
import MarkupTemplate.Proofs.Markup.Reading
import Mathlib.Data.List.TakeWhile

/-!
# Printable trees

What can be written as markup and read back: elements with names that a tag can hold, comments that
do not close themselves, and texts that are neither empty nor next to one another. The first
two conditions are those of writing at all (`Forest.Writable`); the last one makes the written
texts distinguishable (`Forest.Separated`).

Results:
* `printable_of_parse`: whatever is read from markup is printable.
-/

namespace MarkupTemplate

open Markup

/-! ## What can be written -/

/-- One or more characters that satisfy `p`. -/
def Markup.IsNameOf (p : Char → Bool) (s : String) : Prop :=
  s ≠ "" ∧ ∀ c ∈ s.toList, p c = true

/-- An element whose tag and attribute names a tag can hold. -/
structure Element.Printable (e : Element) : Prop where
  /-- The tag is a tag. -/
  tag : IsNameOf isTagChar e.tag
  /-- The tag has no namespace. -/
  ns : e.ns = none
  /-- The names are names of attributes. -/
  names : ∀ n ∈ e.attributes.names, IsNameOf Markup.isNameChar n

/-- What a comment may hold: anything but its end. -/
def Markup.IsCommentText (s : String) : Prop :=
  ¬['-', '-', '>'] <:+: s.toList

namespace Content

/-- Whether the node is a text. -/
def isText : Content → Bool
  | text _ => true
  | _ => false

end Content

namespace Forest

/-- Trees that can be written: printable elements, comments that do not close themselves, nothing
under texts and comments, and no fragment. -/
def Writable : Forest Content → Prop
  | nil => True
  | cons a below beside =>
    (match a with
      | .element e => e.Printable ∧ below.Writable
      | .text _ => below = nil
      | .comment s => IsCommentText s ∧ below = nil
      | .fragment => False) ∧ beside.Writable

/-- Whether the first tree is a text. -/
def startsInText : Forest Content → Bool
  | nil => false
  | cons a _ _ => a.isText

/-- Whether the last tree is a text. -/
def endsInText : Forest Content → Bool
  | nil => false
  | cons a _ nil => a.isText
  | cons _ _ beside => beside.endsInText

/-- No text is empty, and no two texts are neighbours. -/
def Separated : Forest Content → Prop
  | nil => True
  | cons a below beside =>
    (∀ s, a = .text s → s ≠ "" ∧ beside.startsInText = false) ∧ below.Separated ∧
      beside.Separated

/-- A tree that is no text is apart from all others. -/
theorem separated_cons {a : Content} (ha : a.isText = false) {below beside : Forest Content} :
    (cons a below beside).Separated ↔ below.Separated ∧ beside.Separated := by
  refine ⟨fun h => h.2, fun h => ⟨fun s hs => ?_, h⟩⟩
  rw [hs] at ha
  cases ha

/-- What stands under a tree that can be written can be written. -/
theorem Writable.below {a : Content} {below beside : Forest Content}
    (h : (cons a below beside).Writable) : below.Writable := by
  cases a with
  | element e => exact h.1.2
  | text s =>
    obtain rfl : below = nil := h.1
    trivial
  | comment s =>
    obtain ⟨-, rfl⟩ := h.1
    trivial
  | fragment => exact h.1.elim

/-! ## Deciding what can be written -/

instance (p : Char → Bool) (s : String) : Decidable (IsNameOf p s) :=
  decidable_of_iff (s ≠ "" ∧ s.toList.all p = true) (and_congr_right fun _ => List.all_eq_true)

instance (s : String) : Decidable (IsCommentText s) :=
  inferInstanceAs (Decidable (¬_))

instance (e : Element) : Decidable e.Printable :=
  decidable_of_iff (IsNameOf isTagChar e.tag ∧ e.ns = none ∧
      ∀ n ∈ e.attributes.names, IsNameOf Markup.isNameChar n)
    ⟨fun ⟨h₁, h₂, h₃⟩ => ⟨h₁, h₂, h₃⟩, fun ⟨h₁, h₂, h₃⟩ => ⟨h₁, h₂, h₃⟩⟩

instance decidableWritable : (f : Forest Content) → Decidable f.Writable
  | nil => .isTrue trivial
  | cons a below beside =>
    have := decidableWritable below
    have := decidableWritable beside
    match a with
    | .element e => inferInstanceAs (Decidable ((e.Printable ∧ below.Writable) ∧ beside.Writable))
    | .text _ => inferInstanceAs (Decidable (below = nil ∧ beside.Writable))
    | .comment s =>
      inferInstanceAs (Decidable ((IsCommentText s ∧ below = nil) ∧ beside.Writable))
    | .fragment => .isFalse And.left

instance decidableSeparated : (f : Forest Content) → Decidable f.Separated
  | nil => .isTrue trivial
  | cons a below beside =>
    have := decidableSeparated below
    have := decidableSeparated beside
    match a with
    | .text s => decidable_of_iff
        ((s ≠ "" ∧ beside.startsInText = false) ∧ below.Separated ∧ beside.Separated)
        (and_congr_left' ⟨fun h _ he => Content.text.inj he ▸ h, fun h => h s rfl⟩)
    | .element _ | .comment _ | .fragment =>
      decidable_of_iff (below.Separated ∧ beside.Separated) (separated_cons rfl).symm

/-! ## One more tree -/

theorem writable_append {f g : Forest Content} :
    (f ++ g).Writable ↔ f.Writable ∧ g.Writable := by
  induction f with
  | nil => simp [Writable]
  | cons a below beside _ ih => simp only [cons_append, Writable, ih, and_assoc]

theorem endsInText_cons {a : Content} {below beside : Forest Content} (h : beside ≠ nil) :
    (cons a below beside).endsInText = beside.endsInText := by
  cases beside with
  | nil => exact absurd rfl h
  | cons _ _ _ => rfl

@[simp] theorem endsInText_append_cons (f : Forest Content) (a : Content) (below : Forest Content) :
    (f ++ cons a below nil).endsInText = a.isText := by
  induction f with
  | nil => rfl
  | cons b bs f _ ih =>
    rw [cons_append, endsInText_cons (by cases f <;> simp), ih]

theorem separated_append {f g : Forest Content} (hf : f.Separated) (hg : g.Separated)
    (h : f.endsInText = true → g.startsInText = false) : (f ++ g).Separated := by
  induction f with
  | nil => exact hg
  | cons a below beside _ ih =>
    obtain ⟨ha, hbelow, hbeside⟩ := hf
    cases beside with
    | nil =>
      refine ⟨fun s hs => ⟨(ha s hs).1, ?_⟩, hbelow, hg⟩
      subst hs
      exact h rfl
    | cons b bs beside => exact ⟨ha, hbelow, ih hbeside h⟩

end Forest

/-- A tree that markup can be read to: a fragment of writable trees with separate texts. -/
structure Tree.Printable (t : Tree Content) : Prop where
  /-- The root is a fragment. -/
  root : t.label = .fragment
  /-- What is under it can be written. -/
  writable : t.children.Writable
  /-- Its texts are told apart. -/
  separated : t.children.Separated

/-! ## What is read can be written -/

namespace Markup

/-- A piece that can be written. -/
def Piece.Printable : Piece → Prop
  | opening e _ => e.Printable
  | closing _ => True
  | comment s => IsCommentText s
  | text s => s ≠ ""

/-- A text that does not go on with a text: it ends, or a tag or a comment is next. -/
def EndsText (cs : List Char) : Prop :=
  ∀ c ∈ cs.head?, c = '<'

theorem endsText_dropWhile (cs : List Char) : EndsText (cs.dropWhile (· ≠ '<')) := by
  intro c hc
  have := List.head?_dropWhile_not (· ≠ '<') cs
  rw [Option.mem_def.1 hc] at this
  simpa using this

theorem isNameOf_of_readName {p : Char → Bool} {cs rest : List Char} {name : String}
    (h : readName p cs = .ok (name, rest)) : IsNameOf p name := by
  obtain ⟨hne, rfl, -⟩ := readName_eq_ok_iff.1 h
  refine ⟨fun he => hne (by simpa using he), ?_⟩
  intro c hc
  rw [String.toList_ofList] at hc
  exact List.mem_takeWhile_imp hc

theorem isNameOf_of_readAttributes {cs rest : List Char} {as : List (String × String)}
    (h : readAttributes cs = .ok (as, rest)) : ∀ a ∈ as, IsNameOf isNameChar a.1 := by
  fun_induction readAttributes cs generalizing as rest with
  | case1 => cases h
  | case2 => cases h
  | case3 cs _ a r hr _ as' r' hr' ih =>
    obtain ⟨rfl, rfl⟩ := Prod.mk.inj (Except.ok.inj h)
    obtain ⟨_, hn, -⟩ := readAttribute_eq_ok_iff.1 hr
    intro b hb
    rcases List.mem_cons.1 hb with rfl | hb
    · exact isNameOf_of_readName hn
    · exact ih hr' b hb
  | case4 =>
    obtain ⟨rfl, rfl⟩ := Prod.mk.inj (Except.ok.inj h)
    exact fun a ha => absurd ha List.not_mem_nil

theorem decode_ne_nil {cs : List Char} (h : cs ≠ []) : decode cs ≠ [] := by
  unfold decode
  split <;> simp_all

/-- Every piece that is read can be written, and a text is read as far as it goes. -/
theorem printable_of_readPiece {c : Char} {cs rest : List Char} {p : Piece}
    (h : readPiece c cs = .ok (p, rest)) :
    p.Printable ∧ ∀ s, p = .text s → c ≠ '<' ∧ EndsText rest := by
  by_cases hc : c = '<'
  · subst hc
    suffices p.Printable ∧ ∀ s, p ≠ .text s from ⟨this.1, fun s hs => absurd hs (this.2 s)⟩
    unfold readPiece at h
    rw [if_pos rfl] at h
    split at h
    · obtain ⟨tag, r, -, -, rfl⟩ := readClosing_eq_ok_iff.1 h
      exact ⟨trivial, nofun⟩
    · obtain ⟨r, body, -, hbody, rfl⟩ := readComment_eq_ok_iff.1 h
      refine ⟨?_, nofun⟩
      rw [Piece.Printable, IsCommentText, String.toList_ofList]
      exact (readCommentBody_eq hbody).2
    · obtain ⟨tag, r, as, r', closed, hn, ha, -, rfl⟩ := readOpening_eq_ok_iff.1 h
      refine ⟨⟨isNameOf_of_readName hn, rfl, fun n hn => ?_⟩, nofun⟩
      obtain ⟨a, ha', rfl⟩ := List.mem_map.1 (Attributes.mem_names_ofList.1 hn)
      exact isNameOf_of_readAttributes ha a ha'
  · rw [readPiece_text hc] at h
    obtain ⟨rfl, rfl⟩ := Prod.mk.inj (Except.ok.inj h)
    refine ⟨fun he => ?_, fun _ _ => ⟨hc, endsText_dropWhile cs⟩⟩
    have := congrArg String.toList he
    rw [String.toList_ofList] at this
    exact decode_ne_nil (by simp) this

end Markup

namespace Forest

/-- Trees that can be written, with their texts told apart. -/
def Printable (f : Forest Content) : Prop :=
  f.Writable ∧ f.Separated

theorem ofTrees_reverse_cons (t : Tree Content) (left : List (Tree Content)) :
    ofTrees (t :: left).reverse = ofTrees left.reverse ++ t.toForest := by
  have happend : ∀ ts us : List (Tree Content), ofTrees (ts ++ us) = ofTrees ts ++ ofTrees us := by
    intro ts us
    induction ts with
    | nil => rfl
    | cons t ts ih => exact congrArg (cons t.label t.children) ih
  rw [List.reverse_cons, happend]
  rfl

/-- One more tree can be put after printable ones, unless two texts meet. -/
theorem Printable.concat {f : Forest Content} (hf : f.Printable) {a : Content}
    {below : Forest Content} (ha : (cons a below nil).Printable)
    (h : f.endsInText = true → a.isText = false) : (f ++ cons a below nil).Printable :=
  ⟨writable_append.2 ⟨hf.1, ha.1⟩, separated_append hf.2 ha.2 h⟩

theorem printable_nil : (nil : Forest Content).Printable :=
  ⟨trivial, trivial⟩

theorem printable_text {s : String} (h : s ≠ "") : (cons (.text s) nil nil).Printable :=
  ⟨⟨rfl, trivial⟩, fun _ he => ⟨Content.text.inj he ▸ h, rfl⟩, trivial, trivial⟩

theorem printable_comment {s : String} (h : IsCommentText s) :
    (cons (.comment s) nil nil).Printable :=
  ⟨⟨⟨h, rfl⟩, trivial⟩, (separated_cons rfl).2 ⟨trivial, trivial⟩⟩

theorem printable_element {e : Element} (h : e.Printable) {below : Forest Content}
    (hb : below.Printable) : (cons (.element e) below nil).Printable :=
  ⟨⟨⟨h, hb.1⟩, trivial⟩, (separated_cons rfl).2 ⟨hb.2, trivial⟩⟩

end Forest

namespace Markup

/-- What has been read so far can be written: the trees on the left of each open element, and
those under the innermost one, whose last text is at its end. -/
structure PrintableSoFar (opened : List Open) (left : List (Tree Content)) (cs : List Char) :
    Prop where
  /-- The open elements and what is on their left. -/
  outer : ∀ o ∈ opened, o.element.Printable ∧ (Forest.ofTrees o.left.reverse).Printable
  /-- What is under the innermost element. -/
  inner : (Forest.ofTrees left.reverse).Printable
  /-- A text on the left is at its end. -/
  ends : (Forest.ofTrees left.reverse).endsInText = true → EndsText cs

/-- One more tree is read, with what follows it. -/
theorem PrintableSoFar.push {opened : List Open} {left : List (Tree Content)} {cs : List Char}
    (h : PrintableSoFar opened left cs) {a : Content} {below : Forest Content}
    (ha : (Forest.cons a below .nil).Printable)
    (hmeet : (Forest.ofTrees left.reverse).endsInText = true → a.isText = false)
    {rest : List Char} (hrest : a.isText = true → EndsText rest) :
    PrintableSoFar opened (⟨a, below⟩ :: left) rest where
  outer := h.outer
  inner := by
    rw [Forest.ofTrees_reverse_cons]
    exact h.inner.concat ha hmeet
  ends := by
    rw [Forest.ofTrees_reverse_cons, Tree.toForest, Forest.endsInText_append_cons]
    exact hrest

theorem printable_of_assemble {opened : List Open} {left : List (Tree Content)} {cs : List Char}
    {f : Forest Content} (hso : PrintableSoFar opened left cs)
    (h : assemble opened left cs = .ok f) : f.Printable := by
  fun_induction assemble opened left cs with
  | case1 => exact Except.ok.inj h ▸ hso.inner
  | case2 | case3 | case4 | case9 | case11 => cases h
  | case5 opened left c rest after s hp _ _ ih =>
    obtain ⟨hs, htext⟩ := printable_of_readPiece hp
    obtain ⟨hc, hafter⟩ := htext s rfl
    -- a text on the left would have ended before `c`
    exact ih (hso.push (Forest.printable_text hs) (fun hl => absurd (hso.ends hl c rfl) hc)
      fun _ => hafter) h
  | case6 opened left c rest after s hp _ _ ih =>
    have hs := (printable_of_readPiece hp).1
    exact ih (hso.push (Forest.printable_comment hs) (fun _ => rfl) fun hx => nomatch hx) h
  | case7 opened left c rest after e hp _ _ ih =>
    have he := (printable_of_readPiece hp).1
    exact ih (hso.push (Forest.printable_element he Forest.printable_nil) (fun _ => rfl)
      fun hx => nomatch hx) h
  | case8 opened left c rest after e hp _ _ ih =>
    have he := (printable_of_readPiece hp).1
    refine ih ⟨fun o ho => ?_, Forest.printable_nil, fun hx => nomatch hx⟩ h
    rcases List.mem_cons.1 ho with rfl | ho
    · exact ⟨he, hso.inner⟩
    · exact hso.outer o ho
  | case10 left c rest after e outer opened hp _ _ ih =>
    obtain ⟨he, houter⟩ := hso.outer _ List.mem_cons_self
    rw [List.unattach_reverse, List.unattach_attach] at ih
    have hclosed : PrintableSoFar opened outer ['<'] :=
      ⟨fun o ho => hso.outer o (List.mem_cons_of_mem _ ho), houter, fun _ _ hx =>
        (Option.some.inj hx).symm⟩
    exact ih (hclosed.push (Forest.printable_element he hso.inner) (fun _ => rfl)
      fun hx => nomatch hx) h

/-- **Whatever is read from markup is printable.** -/
theorem printable_of_parse {s : String} {f : Forest Content} (h : parse s = .ok f) :
    (Tree.ofFragment f).Printable :=
  have hso : PrintableSoFar [] [] s.toList := ⟨nofun, Forest.printable_nil, fun hx => nomatch hx⟩
  have hf : f.Printable := printable_of_assemble hso h
  ⟨rfl, hf.1, hf.2⟩

end Markup

end MarkupTemplate

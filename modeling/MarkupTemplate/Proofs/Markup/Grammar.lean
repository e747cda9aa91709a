import MarkupTemplate.Proofs.Markup.RoundTrip

/-!
# The grammar of markup

Markup is a sequence of items: texts, comments and elements. A `Derivation` says how a text falls
into items and their parts, with every blank and the kind of every quote, so it can be written down
as exactly one text; and it says which trees the text stands for. Nothing in it refers to reading.

This module has the parts of tags: they are read as they are derived, and derived in one way only.

Results:
* `readAttributes_write`, `exists_of_readAttributes`: attributes are read as they are derived.
* `readOpening_eq_ok_iff_exists`: so are opening tags.
* `Attribute.write_inj`, `Tag.write_inj`: attributes and tags are derived in one way only.
-/

namespace MarkupTemplate

/-! ## Repeated names -/

namespace Attributes

/-- The last value that a name is given. -/
def lastValue (es : List (String × String)) (name : String) : String :=
  ((es.reverse.find? (·.1 = name)).map Prod.snd).getD ""

theorem names_ofList (es : List (String × String)) :
    (ofList es).names = (es.map Prod.fst).eraseDups := by
  induction es using List.reverseRecOn with
  | nil => rfl
  | append_singleton es e ih =>
    have hlast : ofList (es ++ [e]) = (ofList es).set e.1 e.2 := by
      rw [ofList, List.foldl_append]
      rfl
    rw [hlast, List.map_append, List.eraseDups_append, ← ih]
    by_cases he : e.1 ∈ (ofList es).names
    · have : e.1 ∈ es.map Prod.fst := mem_names_ofList.1 he
      rw [names_set_of_mem he]
      simp [List.removeAll, this]
    · have : e.1 ∉ es.map Prod.fst := fun h => he (mem_names_ofList.2 h)
      rw [names_set_of_not_mem he]
      simp [List.removeAll, List.eraseDups_cons, this]

/-- The attributes of a tag: each name at its first place, with its last value. -/
def settle (es : List (String × String)) : Attributes where
  entries := (es.map Prod.fst).eraseDups.map fun name => (name, lastValue es name)
  nodup := by
    rw [List.map_map, ← names_ofList]
    exact (List.map_id _).symm ▸ (ofList es).nodup

/-- **Attributes that are set one by one** end at the first places of their names, with the last
values. -/
theorem ofList_eq_settle (es : List (String × String)) : ofList es = settle es := by
  refine eq_of_entries ?_
  rw [entries_eq_map, names_ofList]
  refine List.map_congr_left ?_
  intro name _
  rw [ofList_eq_setAll, get?_setAll, lastValue]
  cases es.reverse.find? (·.1 = name) <;> rfl

end Attributes

namespace Markup.Grammar

open Text

/-! ## Derivations -/

/-- An equals sign and a value in quotes. -/
structure Assignment where
  /-- The blanks before the equals sign. -/
  before : List Char
  /-- The blanks after it. -/
  after : List Char
  /-- The quote before and after the value. -/
  quote : Char
  /-- What is between the quotes. -/
  raw : List Char

/-- An attribute, with the blanks before it. -/
structure Attribute where
  /-- The blanks before the name. -/
  blanks : List Char
  /-- The name. -/
  name : String
  /-- The value, if there is one. -/
  value : Option Assignment

/-- What stands between `<` and the end of a tag. -/
structure Tag where
  /-- The name of the element. -/
  name : String
  /-- The attributes in order. -/
  attributes : List Attribute
  /-- The blanks before the end. -/
  blanks : List Char

/-- A sequence of items. -/
inductive Derivation where
  /-- No item. -/
  | nil
  /-- A text. -/
  | text (raw : List Char) (rest : Derivation)
  /-- A comment. -/
  | comment (body : String) (rest : Derivation)
  /-- A tag that closes itself. -/
  | closed (tag : Tag) (rest : Derivation)
  /-- An element with content, and the blanks in its closing tag. -/
  | element (tag : Tag) (content : Derivation) (blanks : List Char) (rest : Derivation)

/-- All characters are blanks. -/
def Blanks (cs : List Char) : Prop :=
  ∀ c ∈ cs, isBlank c = true

/-- The end of an opening tag. -/
def tagEnd (closed : Bool) : List Char :=
  if closed then ['/', '>'] else ['>']

namespace Assignment

/-- The blanks are blanks, the quote is one, and it does not stand in the value. -/
structure Valid (a : Assignment) : Prop where
  before : Blanks a.before
  after : Blanks a.after
  quote : a.quote = '"' ∨ a.quote = '\''
  raw : a.quote ∉ a.raw

/-- The text of an assignment. -/
def write (a : Assignment) : List Char :=
  a.before ++ '=' :: (a.after ++ a.quote :: (a.raw ++ [a.quote]))

/-- The value, with its entities decoded. -/
def decoded (a : Assignment) : String :=
  String.ofList (decode a.raw)

end Assignment

namespace Attribute

/-- There is a blank before the name. -/
structure Valid (a : Attribute) : Prop where
  blank : a.blanks ≠ []
  blanks : Blanks a.blanks
  name : IsNameOf Markup.isNameChar a.name
  value : ∀ v ∈ a.value, v.Valid

/-- The text of an attribute. -/
def write (a : Attribute) : List Char :=
  a.blanks ++ (a.name.toList ++ a.value.elim [] Assignment.write)

/-- The name with its value, which is empty where there is none. -/
def entry (a : Attribute) : String × String :=
  (a.name, a.value.elim "" Assignment.decoded)

end Attribute

namespace Tag

/-- The name is that of an element, and the attributes are attributes. -/
structure Valid (t : Tag) : Prop where
  name : IsNameOf isTagChar t.name
  attributes : ∀ a ∈ t.attributes, a.Valid
  blanks : Blanks t.blanks

/-- The text of a tag up to its end. -/
def write (t : Tag) : List Char :=
  t.name.toList ++ (t.attributes.flatMap Attribute.write ++ t.blanks)

/-- The element of a tag. -/
def element (t : Tag) : Element where
  tag := t.name
  attributes := .settle (t.attributes.map Attribute.entry)

end Tag

namespace Derivation

/-- Whether the first item is a text. -/
def startsInText : Derivation → Bool
  | text _ _ => true
  | _ => false

/-- A text is not empty and goes as far as the next item, and a comment does not contain its end. -/
def Valid : Derivation → Prop
  | nil => True
  | text raw rest => (raw ≠ [] ∧ '<' ∉ raw ∧ rest.startsInText = false) ∧ rest.Valid
  | comment body rest => IsCommentText body ∧ rest.Valid
  | closed tag rest => tag.Valid ∧ rest.Valid
  | element tag content blanks rest => tag.Valid ∧ content.Valid ∧ Blanks blanks ∧ rest.Valid

/-- The text of the items. The closing tag of an element has the name of its opening tag. -/
def write : Derivation → List Char
  | nil => []
  | text raw rest => raw ++ rest.write
  | comment body rest =>
    '<' :: '!' :: '-' :: '-' :: (body.toList ++ '-' :: '-' :: '>' :: rest.write)
  | closed tag rest => '<' :: (tag.write ++ (tagEnd true ++ rest.write))
  | element tag content blanks rest =>
    '<' :: (tag.write ++ (tagEnd false ++ (content.write ++
      '<' :: '/' :: (tag.name.toList ++ (blanks ++ '>' :: rest.write)))))

/-- The trees of the items. Entities are decoded in texts and values, and not in comments. -/
def forest : Derivation → Forest Content
  | nil => .nil
  | text raw rest => .cons (.text (String.ofList (decode raw))) .nil rest.forest
  | comment body rest => .cons (.comment body) .nil rest.forest
  | closed tag rest => .cons (.element tag.element) .nil rest.forest
  | element tag content _ rest => .cons (.element tag.element) content.forest rest.forest

/-- The items make up the text. -/
def Derives (d : Derivation) (s : String) : Prop :=
  d.Valid ∧ d.write = s.toList

end Derivation

/-! ## Deciding what is derived -/

instance (cs : List Char) : Decidable (Blanks cs) :=
  decidable_of_iff (cs.all isBlank = true) List.all_eq_true

instance (a : Assignment) : Decidable a.Valid :=
  decidable_of_iff (Blanks a.before ∧ Blanks a.after ∧ (a.quote = '"' ∨ a.quote = '\'') ∧
      a.quote ∉ a.raw)
    ⟨fun ⟨h₁, h₂, h₃, h₄⟩ => ⟨h₁, h₂, h₃, h₄⟩, fun ⟨h₁, h₂, h₃, h₄⟩ => ⟨h₁, h₂, h₃, h₄⟩⟩

instance (a : Attribute) : Decidable a.Valid :=
  decidable_of_iff (a.blanks ≠ [] ∧ Blanks a.blanks ∧ IsNameOf Markup.isNameChar a.name ∧
      ∀ v ∈ a.value, v.Valid)
    ⟨fun ⟨h₁, h₂, h₃, h₄⟩ => ⟨h₁, h₂, h₃, h₄⟩, fun ⟨h₁, h₂, h₃, h₄⟩ => ⟨h₁, h₂, h₃, h₄⟩⟩

instance (t : Tag) : Decidable t.Valid :=
  decidable_of_iff (IsNameOf isTagChar t.name ∧ (∀ a ∈ t.attributes, a.Valid) ∧ Blanks t.blanks)
    ⟨fun ⟨h₁, h₂, h₃⟩ => ⟨h₁, h₂, h₃⟩, fun ⟨h₁, h₂, h₃⟩ => ⟨h₁, h₂, h₃⟩⟩

namespace Derivation

instance decidableValid : (d : Derivation) → Decidable d.Valid
  | nil => .isTrue trivial
  | text raw rest =>
    have := decidableValid rest
    inferInstanceAs (Decidable ((raw ≠ [] ∧ '<' ∉ raw ∧ rest.startsInText = false) ∧ rest.Valid))
  | comment body rest =>
    have := decidableValid rest
    inferInstanceAs (Decidable (IsCommentText body ∧ rest.Valid))
  | closed tag rest =>
    have := decidableValid rest
    inferInstanceAs (Decidable (tag.Valid ∧ rest.Valid))
  | element tag content blanks rest =>
    have := decidableValid content
    have := decidableValid rest
    inferInstanceAs (Decidable (tag.Valid ∧ content.Valid ∧ Blanks blanks ∧ rest.Valid))

instance (d : Derivation) (s : String) : Decidable (d.Derives s) :=
  inferInstanceAs (Decidable (d.Valid ∧ d.write = s.toList))

end Derivation

/-! ## Cutting off words -/

/-- Characters of one kind are cut off a text in one way, if none of them follows. -/
theorem append_inj_of_all {p : Char → Bool} {cs cs' rest rest' : List Char}
    (hcs : ∀ c ∈ cs, p c = true) (hcs' : ∀ c ∈ cs', p c = true) (hrest : Stops p rest)
    (hrest' : Stops p rest') (h : cs ++ rest = cs' ++ rest') : cs = cs' ∧ rest = rest' := by
  have htake := congrArg (List.takeWhile p) h
  have hdrop := congrArg (List.dropWhile p) h
  rw [takeWhile_append_of_all hcs hrest, takeWhile_append_of_all hcs' hrest'] at htake
  rw [dropWhile_append_of_all hcs hrest, dropWhile_append_of_all hcs' hrest'] at hdrop
  exact ⟨htake, hdrop⟩

theorem name_append_inj {p : Char → Bool} {n n' : String} (hn : IsNameOf p n)
    (hn' : IsNameOf p n') {rest rest' : List Char} (hrest : Stops p rest) (hrest' : Stops p rest')
    (h : n.toList ++ rest = n'.toList ++ rest') : n = n' ∧ rest = rest' :=
  have ⟨hname, hr⟩ := append_inj_of_all hn.2 hn'.2 hrest hrest' h
  ⟨String.toList_injective hname, hr⟩

theorem blanks_takeWhile (cs : List Char) : Blanks (cs.takeWhile isBlank) :=
  fun _ => List.mem_takeWhile_imp

/-- Blanks stop before a name. -/
theorem stops_name {p q : Char → Bool} {n : String} (hn : IsNameOf p n)
    (hpq : ∀ c, p c = true → q c = false) (rest : List Char) : Stops q (n.toList ++ rest) := by
  obtain ⟨c, cs, hname, hc⟩ := head_of_isNameOf hn
  rw [hname]
  exact stops_cons (hpq c hc) (cs ++ rest)

theorem isNameChar_of_isBlank {c : Char} (h : isBlank c = true) :
    Markup.isNameChar c = false :=
  Bool.eq_false_iff.2 fun hn => by rw [isBlank_of_isNameChar hn] at h; cases h

theorem isTagChar_of_isBlank {c : Char} (h : isBlank c = true) : isTagChar c = false := by
  have := isNameChar_of_isBlank h
  simp only [Markup.isNameChar, Bool.or_eq_false_iff] at this
  exact this.1.1

/-- A name stops before blanks, if it stops before what follows them. -/
theorem stops_blanks {p : Char → Bool} (hp : ∀ c, isBlank c = true → p c = false)
    {blanks rest : List Char} (hb : Blanks blanks) (hrest : Stops p rest) :
    Stops p (blanks ++ rest) :=
  stops_append (fun c hc => hp c (hb c hc)) hrest

theorem eq_of_readName {p : Char → Bool} {cs rest : List Char} {name : String}
    (h : readName p cs = .ok (name, rest)) : cs = name.toList ++ rest := by
  obtain ⟨-, rfl, rfl⟩ := readName_eq_ok_iff.1 h
  rw [String.toList_ofList, List.takeWhile_append_dropWhile]

/-! ## Values -/

theorem isBlank_of_quote {q : Char} (hq : q = '"' ∨ q = '\'') : isBlank q = false := by
  rcases hq with rfl | rfl <;> decide

theorem readQuoted_append {q : Char} (hq : q = '"' ∨ q = '\'') {raw : List Char} (hraw : q ∉ raw)
    (rest : List Char) :
    readQuoted (q :: (raw ++ q :: rest)) = .ok (String.ofList (decode raw), rest) := by
  have huntil := readUntilQuote_append hraw rest
  rcases hq with rfl | rfl <;> exact huntil

theorem exists_of_readQuoted {cs rest : List Char} {value : String}
    (h : readQuoted cs = .ok (value, rest)) :
    ∃ q raw, (q = '"' ∨ q = '\'') ∧ q ∉ raw ∧ cs = q :: (raw ++ q :: rest) ∧
      value = String.ofList (decode raw) := by
  have huntil : ∀ {q : Char} {cs : List Char}, readUntilQuote q cs = .ok (value, rest) →
      ∃ raw, q ∉ raw ∧ cs = raw ++ q :: rest ∧ value = String.ofList (decode raw) := by
    intro q cs h
    obtain ⟨hdrop, rfl⟩ := readUntilQuote_eq_ok_iff.1 h
    refine ⟨_, fun hq => ?_, ?_, rfl⟩
    · simpa using List.mem_takeWhile_imp hq
    · rw [← hdrop, List.takeWhile_append_dropWhile]
  unfold readQuoted at h
  split at h
  · obtain ⟨raw, hraw, rfl, hvalue⟩ := huntil h
    exact ⟨_, raw, .inl rfl, hraw, rfl, hvalue⟩
  · obtain ⟨raw, hraw, rfl, hvalue⟩ := huntil h
    exact ⟨_, raw, .inr rfl, hraw, rfl, hvalue⟩
  · cases h

/-- The text after an attribute: it does not go on with the name, nor with a value. -/
structure EndsAttribute (rest : List Char) : Prop where
  name : Stops Markup.isNameChar rest
  value : (rest.dropWhile isBlank).head? ≠ some '='

theorem Assignment.Valid.dropWhile_write {a : Assignment} (ha : a.Valid) (rest : List Char) :
    (a.write ++ rest).dropWhile isBlank =
      '=' :: (a.after ++ a.quote :: (a.raw ++ a.quote :: rest)) := by
  have := dropWhile_append_of_all ha.before (stops_cons (p := isBlank) (c := '=') (by decide)
    (a.after ++ a.quote :: (a.raw ++ a.quote :: rest)))
  simpa [write] using this

theorem readValue_write {v : Option Assignment} (hv : ∀ a ∈ v, a.Valid) {rest : List Char}
    (hrest : (rest.dropWhile isBlank).head? ≠ some '=') :
    readValue (v.elim [] Assignment.write ++ rest) = .ok (v.elim "" Assignment.decoded, rest) := by
  unfold readValue
  cases v with
  | none =>
    rw [Option.elim_none, List.nil_append]
    split
    · next heq => exact absurd (congrArg List.head? heq) hrest
    · rfl
  | some a =>
    have ha := hv a rfl
    have hafter := dropWhile_append_of_all ha.after
      (stops_cons (isBlank_of_quote ha.quote) (a.raw ++ a.quote :: rest))
    rw [Option.elim_some, ha.dropWhile_write]
    simp only
    rw [hafter]
    exact readQuoted_append ha.quote ha.raw rest

theorem exists_of_readValue {cs rest : List Char} {value : String}
    (h : readValue cs = .ok (value, rest)) :
    ∃ v : Option Assignment, (∀ a ∈ v, a.Valid) ∧ cs = v.elim [] Assignment.write ++ rest ∧
      value = v.elim "" Assignment.decoded := by
  unfold readValue at h
  split at h
  · next r heq =>
    obtain ⟨q, raw, hq, hraw, hr, rfl⟩ := exists_of_readQuoted h
    refine ⟨some ⟨cs.takeWhile isBlank, r.takeWhile isBlank, q, raw⟩, ?_, ?_, rfl⟩
    · rintro _ ⟨⟩
      exact ⟨blanks_takeWhile cs, blanks_takeWhile r, hq, hraw⟩
    · have hcs : cs = cs.takeWhile isBlank ++
          '=' :: (r.takeWhile isBlank ++ r.dropWhile isBlank) := by
        rw [List.takeWhile_append_dropWhile, ← heq, List.takeWhile_append_dropWhile]
      rw [hr] at hcs
      simpa [Assignment.write] using hcs
  · obtain ⟨rfl, rfl⟩ := Prod.mk.inj (Except.ok.inj h)
    exact ⟨none, fun _ ha => (by cases ha), rfl, rfl⟩

/-- A value is derived in one way. -/
theorem Assignment.write_inj {a a' : Assignment} (ha : a.Valid) (ha' : a'.Valid)
    {rest rest' : List Char} (h : a.write ++ rest = a'.write ++ rest') :
    a = a' ∧ rest = rest' := by
  obtain ⟨before, after, q, raw⟩ := a
  obtain ⟨before', after', q', raw'⟩ := a'
  simp only [write, List.append_assoc, List.cons_append, List.nil_append] at h
  obtain ⟨rfl, heq⟩ := append_inj_of_all ha.before ha'.before (stops_cons (by decide) _)
    (stops_cons (by decide) _) h
  obtain ⟨rfl, hquote⟩ := append_inj_of_all ha.after ha'.after
    (stops_cons (isBlank_of_quote ha.quote) _) (stops_cons (isBlank_of_quote ha'.quote) _)
    (List.cons.inj heq).2
  obtain ⟨rfl, hraw⟩ := List.cons.inj hquote
  obtain ⟨rfl, hend⟩ := append_inj_of_all (all_ne_of_not_mem ha.raw) (all_ne_of_not_mem ha'.raw)
    (stops_cons (by simp) _) (stops_cons (by simp) _) hraw
  exact ⟨rfl, (List.cons.inj hend).2⟩

/-! ## Attributes -/

namespace Attribute

/-- After the blanks before an attribute comes its name. -/
theorem Valid.dropWhile_write {a : Attribute} (ha : a.Valid) (rest : List Char) :
    (a.write ++ rest).dropWhile isBlank =
      a.name.toList ++ (a.value.elim [] Assignment.write ++ rest) := by
  have := dropWhile_append_of_all ha.blanks
    (stops_name ha.name (fun _ => isBlank_of_isNameChar) (a.value.elim [] Assignment.write ++ rest))
  rw [← this, write, List.append_assoc, List.append_assoc]

/-- A name stops before a value and before what follows the attribute. -/
theorem stops_value {v : Option Assignment} (hv : ∀ a ∈ v, a.Valid) {rest : List Char}
    (hrest : Stops Markup.isNameChar rest) :
    Stops Markup.isNameChar (v.elim [] Assignment.write ++ rest) := by
  cases v with
  | none => exact hrest
  | some a =>
    rw [Option.elim_some, Assignment.write, List.append_assoc]
    exact stops_blanks (fun _ => isNameChar_of_isBlank) (hv a rfl).before
      (stops_cons (by decide) _)

theorem Valid.readAttribute_write {a : Attribute} (ha : a.Valid) {rest : List Char}
    (hrest : EndsAttribute rest) : readAttribute (a.write ++ rest) = .ok (a.entry, rest) := by
  rw [readAttribute_eq_ok_iff, ha.dropWhile_write]
  exact ⟨_, readName_toList ha.name (stops_value ha.value hrest.name),
    readValue_write ha.value hrest.value⟩

theorem Valid.startsAttribute_write {a : Attribute} (ha : a.Valid) (rest : List Char) :
    startsAttribute (a.write ++ rest) = true := by
  obtain ⟨c, cs, hname, hc⟩ := head_of_isNameOf ha.name
  obtain ⟨b, bs, hb⟩ := List.exists_cons_of_ne_nil ha.blank
  have hblank : isBlank b = true := ha.blanks b (hb ▸ List.mem_cons_self)
  rw [startsAttribute, ha.dropWhile_write, hname, write, hb]
  simp [hblank, hc]

/-- An attribute ends where another one starts. -/
theorem Valid.endsAttribute_write {a : Attribute} (ha : a.Valid) (rest : List Char) :
    EndsAttribute (a.write ++ rest) where
  name := by
    obtain ⟨b, bs, hb⟩ := List.exists_cons_of_ne_nil ha.blank
    rw [write, hb]
    exact stops_cons (isNameChar_of_isBlank (ha.blanks b (hb ▸ List.mem_cons_self))) _
  value := by
    obtain ⟨c, cs, hname, hc⟩ := head_of_isNameOf ha.name
    rw [ha.dropWhile_write, hname]
    intro h
    obtain rfl := Option.some.inj h
    revert hc
    decide

theorem exists_of_readAttribute {cs rest : List Char} {e : String × String}
    (hs : startsAttribute cs = true) (h : readAttribute cs = .ok (e, rest)) :
    ∃ a : Attribute, a.Valid ∧ cs = a.write ++ rest ∧ e = a.entry := by
  obtain ⟨r, hname, hvalue⟩ := readAttribute_eq_ok_iff.1 h
  obtain ⟨v, hv, hr, hdecoded⟩ := exists_of_readValue hvalue
  refine ⟨⟨cs.takeWhile isBlank, e.1, v⟩, ⟨?_, blanks_takeWhile cs, isNameOf_of_readName hname, hv⟩,
    ?_, Prod.ext rfl hdecoded⟩
  · cases cs with
    | nil => cases hs
    | cons c cs =>
      have hc : isBlank c = true := by
        rw [startsAttribute, Bool.and_eq_true] at hs
        simpa using hs.1
      rw [List.takeWhile_cons_of_pos hc]
      exact List.cons_ne_nil _ _
  · have := eq_of_readName hname
    rw [hr] at this
    rw [write, List.append_assoc, List.append_assoc, ← this, List.takeWhile_append_dropWhile]

/-- An attribute is derived in one way. -/
theorem write_inj {a a' : Attribute} (ha : a.Valid) (ha' : a'.Valid) {rest rest' : List Char}
    (hrest : EndsAttribute rest) (hrest' : EndsAttribute rest')
    (h : a.write ++ rest = a'.write ++ rest') : a = a' ∧ rest = rest' := by
  obtain ⟨blanks, name, v⟩ := a
  obtain ⟨blanks', name', v'⟩ := a'
  simp only [write, List.append_assoc] at h
  have hblank : ∀ c, Markup.isNameChar c = true → isBlank c = false :=
    fun _ => isBlank_of_isNameChar
  obtain ⟨rfl, hname⟩ := append_inj_of_all ha.blanks ha'.blanks (stops_name ha.name hblank _)
    (stops_name ha'.name hblank _) h
  obtain ⟨rfl, hvalue⟩ := name_append_inj ha.name ha'.name (stops_value ha.value hrest.name)
    (stops_value ha'.value hrest'.name) hname
  -- a value starts with an equals sign, and nothing else after a name does
  cases v with
  | none =>
    cases v' with
    | none => exact ⟨rfl, hvalue⟩
    | some w =>
      obtain rfl : rest = w.write ++ rest' := hvalue
      exact absurd (by rw [(ha'.value w rfl).dropWhile_write]; rfl) hrest.value
  | some v =>
    cases v' with
    | none =>
      obtain rfl : v.write ++ rest = rest' := hvalue
      exact absurd (by rw [(ha.value v rfl).dropWhile_write]; rfl) hrest'.value
    | some w =>
      obtain ⟨rfl, hr⟩ := Assignment.write_inj (ha.value v rfl) (ha'.value w rfl) hvalue
      exact ⟨rfl, hr⟩

end Attribute

/-- Attributes do not go on with a name or a value where nothing after them does. -/
theorem endsAttribute_attributes {as : List Attribute} (has : ∀ a ∈ as, a.Valid)
    {rest : List Char} (hrest : EndsAttribute rest) :
    EndsAttribute (as.flatMap Attribute.write ++ rest) := by
  cases as with
  | nil => exact hrest
  | cons a as =>
    rw [List.flatMap_cons, List.append_assoc]
    exact (has a List.mem_cons_self).endsAttribute_write _

/-- **Attributes are read as they are derived.** -/
theorem readAttributes_write {as : List Attribute} (has : ∀ a ∈ as, a.Valid) {rest : List Char}
    (hrest : EndsAttribute rest) (hstart : startsAttribute rest = false) :
    readAttributes (as.flatMap Attribute.write ++ rest) = .ok (as.map Attribute.entry, rest) := by
  induction as with
  | nil => exact readAttributes_of_not_starts hstart
  | cons a as ih =>
    have ha := has a List.mem_cons_self
    have hnext := ih fun b hb => has b (List.mem_cons_of_mem a hb)
    have hends := endsAttribute_attributes (fun b hb => has b (List.mem_cons_of_mem a hb)) hrest
    rw [List.flatMap_cons, List.append_assoc,
      readAttributes_of_starts (ha.startsAttribute_write _)]
    exact ⟨a.entry, _, as.map Attribute.entry, ha.readAttribute_write hends, hnext, rfl⟩

theorem exists_of_readAttributes {cs rest : List Char} {es : List (String × String)}
    (h : readAttributes cs = .ok (es, rest)) :
    ∃ as : List Attribute, (∀ a ∈ as, a.Valid) ∧ cs = as.flatMap Attribute.write ++ rest ∧
      es = as.map Attribute.entry := by
  fun_induction readAttributes cs generalizing es rest with
  | case1 => cases h
  | case2 => cases h
  | case3 cs hs e r hr _ es' r' hr' ih =>
    obtain ⟨rfl, rfl⟩ := Prod.mk.inj (Except.ok.inj h)
    obtain ⟨a, ha, rfl, rfl⟩ := Attribute.exists_of_readAttribute hs hr
    obtain ⟨as, has, rfl, rfl⟩ := ih hr'
    refine ⟨a :: as, ?_, by rw [List.flatMap_cons, List.append_assoc], rfl⟩
    intro b hb
    rcases List.mem_cons.1 hb with rfl | hb
    · exact ha
    · exact has b hb
  | case4 =>
    obtain ⟨rfl, rfl⟩ := Prod.mk.inj (Except.ok.inj h)
    exact ⟨[], fun _ ha => absurd ha List.not_mem_nil, rfl, rfl⟩

/-- Attributes are derived in one way, if none starts after them. -/
theorem attributes_inj {as as' : List Attribute} (has : ∀ a ∈ as, a.Valid)
    (has' : ∀ a ∈ as', a.Valid) {rest rest' : List Char} (hrest : EndsAttribute rest)
    (hrest' : EndsAttribute rest') (hs : startsAttribute rest = false)
    (hs' : startsAttribute rest' = false)
    (h : as.flatMap Attribute.write ++ rest = as'.flatMap Attribute.write ++ rest') :
    as = as' ∧ rest = rest' := by
  have hstart : ∀ {a : Attribute} {as : List Attribute} {rest : List Char}, a.Valid →
      startsAttribute ((a :: as).flatMap Attribute.write ++ rest) = true := by
    intro a as rest ha
    rw [List.flatMap_cons, List.append_assoc]
    exact ha.startsAttribute_write _
  induction as generalizing as' with
  | nil =>
    cases as' with
    | nil => exact ⟨rfl, h⟩
    | cons b bs =>
      obtain rfl : rest = (b :: bs).flatMap Attribute.write ++ rest' := h
      rw [hstart (has' b List.mem_cons_self)] at hs
      cases hs
  | cons a as ih =>
    cases as' with
    | nil =>
      obtain rfl : (a :: as).flatMap Attribute.write ++ rest = rest' := h
      rw [hstart (has a List.mem_cons_self)] at hs'
      cases hs'
    | cons b bs =>
      have htail := fun x hx => has x (List.mem_cons_of_mem a hx)
      have htail' := fun x hx => has' x (List.mem_cons_of_mem b hx)
      simp only [List.flatMap_cons, List.append_assoc] at h
      obtain ⟨rfl, hnext⟩ := Attribute.write_inj (has a List.mem_cons_self)
        (has' b List.mem_cons_self) (endsAttribute_attributes htail hrest)
        (endsAttribute_attributes htail' hrest') h
      obtain ⟨rfl, hr⟩ := ih htail htail' hnext
      exact ⟨rfl, hr⟩

/-! ## Tags -/

theorem stops_tagEnd {p : Char → Bool} (hgt : p '>' = false) (hslash : p '/' = false)
    (closed : Bool) (rest : List Char) : Stops p (tagEnd closed ++ rest) := by
  cases closed with
  | false => exact stops_cons hgt rest
  | true => exact stops_cons hslash ('>' :: rest)

section

variable {blanks : List Char} (hb : Blanks blanks) (closed : Bool) (rest : List Char)

include hb

theorem dropWhile_tagEnd :
    (blanks ++ (tagEnd closed ++ rest)).dropWhile isBlank = tagEnd closed ++ rest :=
  dropWhile_append_of_all hb (stops_tagEnd (by decide) (by decide) closed rest)

/-- The end of a tag goes on with no name and no value. -/
theorem endsAttribute_tagEnd : EndsAttribute (blanks ++ (tagEnd closed ++ rest)) where
  name := stops_blanks (fun _ => isNameChar_of_isBlank) hb
    (stops_tagEnd (by decide) (by decide) closed rest)
  value := by
    rw [dropWhile_tagEnd hb]
    cases closed <;> simp [tagEnd]

/-- No attribute starts at the end of a tag. -/
theorem startsAttribute_tagEnd :
    startsAttribute (blanks ++ (tagEnd closed ++ rest)) = false := by
  have hgt : Markup.isNameChar '>' = false := by decide
  have hslash : Markup.isNameChar '/' = false := by decide
  rw [startsAttribute, dropWhile_tagEnd hb]
  cases closed <;> simp [tagEnd, hgt, hslash]

theorem readTagEnd_tagEnd :
    readTagEnd (blanks ++ (tagEnd closed ++ rest)) = .ok (closed, rest) := by
  unfold readTagEnd
  rw [dropWhile_tagEnd hb]
  cases closed <;> rfl

end

theorem exists_of_readTagEnd {cs rest : List Char} {closed : Bool}
    (h : readTagEnd cs = .ok (closed, rest)) :
    ∃ blanks, Blanks blanks ∧ cs = blanks ++ (tagEnd closed ++ rest) := by
  refine ⟨cs.takeWhile isBlank, blanks_takeWhile cs, ?_⟩
  suffices cs.dropWhile isBlank = tagEnd closed ++ rest by
    rw [← this, List.takeWhile_append_dropWhile]
  unfold readTagEnd at h
  split at h
  · next heq =>
    obtain ⟨rfl, rfl⟩ := Prod.mk.inj (Except.ok.inj h)
    exact heq
  · next heq =>
    obtain ⟨rfl, rfl⟩ := Prod.mk.inj (Except.ok.inj h)
    exact heq
  · cases h
  · cases h

namespace Tag

/-- The name of a tag stops before its attributes and its end. -/
theorem Valid.stops_name {t : Tag} (ht : t.Valid) (closed : Bool) (rest : List Char) :
    Stops isTagChar
      (t.attributes.flatMap Attribute.write ++ (t.blanks ++ (tagEnd closed ++ rest))) := by
  intro c hc
  have := (endsAttribute_attributes ht.attributes
    (endsAttribute_tagEnd ht.blanks closed rest)).name c hc
  simp only [Markup.isNameChar, Bool.or_eq_false_iff] at this
  exact this.1.1

/-- A tag is derived in one way. -/
theorem write_inj {t t' : Tag} (ht : t.Valid) (ht' : t'.Valid) {closed closed' : Bool}
    {rest rest' : List Char}
    (h : t.write ++ (tagEnd closed ++ rest) = t'.write ++ (tagEnd closed' ++ rest')) :
    t = t' ∧ closed = closed' ∧ rest = rest' := by
  have hstop := ht.stops_name closed rest
  have hstop' := ht'.stops_name closed' rest'
  obtain ⟨name, attributes, blanks⟩ := t
  obtain ⟨name', attributes', blanks'⟩ := t'
  simp only [write, List.append_assoc] at h
  obtain ⟨rfl, hattributes⟩ := name_append_inj ht.name ht'.name hstop hstop' h
  obtain ⟨rfl, hblanks⟩ := attributes_inj ht.attributes ht'.attributes
    (endsAttribute_tagEnd ht.blanks closed rest) (endsAttribute_tagEnd ht'.blanks closed' rest')
    (startsAttribute_tagEnd ht.blanks closed rest)
    (startsAttribute_tagEnd ht'.blanks closed' rest') hattributes
  obtain ⟨rfl, hend⟩ := append_inj_of_all ht.blanks ht'.blanks
    (stops_tagEnd (by decide) (by decide) closed rest)
    (stops_tagEnd (by decide) (by decide) closed' rest') hblanks
  cases closed with
  | false =>
    cases closed' with
    | false => exact ⟨rfl, rfl, (List.cons.inj hend).2⟩
    | true => cases (List.cons.inj hend).1
  | true =>
    cases closed' with
    | false => cases (List.cons.inj hend).1
    | true => exact ⟨rfl, rfl, (List.cons.inj (List.cons.inj hend).2).2⟩

end Tag

/-- **Opening tags are read as they are derived.** -/
theorem readOpening_eq_ok_iff_exists {cs rest : List Char} {p : Piece} :
    readOpening cs = .ok (p, rest) ↔
      ∃ (t : Tag) (closed : Bool), t.Valid ∧ cs = t.write ++ (tagEnd closed ++ rest) ∧
        p = .opening t.element closed := by
  rw [readOpening_eq_ok_iff]
  constructor
  · rintro ⟨tag, r, es, r', closed, hname, hattributes, hend, rfl⟩
    obtain ⟨as, has, rfl, rfl⟩ := exists_of_readAttributes hattributes
    obtain ⟨blanks, hblanks, rfl⟩ := exists_of_readTagEnd hend
    refine ⟨⟨tag, as, blanks⟩, closed, ⟨isNameOf_of_readName hname, has, hblanks⟩, ?_, ?_⟩
    · rw [eq_of_readName hname]
      simp only [Tag.write, List.append_assoc]
    · rw [Attributes.ofList_eq_settle]
      rfl
  · rintro ⟨t, closed, ht, rfl, rfl⟩
    refine ⟨t.name, _, t.attributes.map Attribute.entry, t.blanks ++ (tagEnd closed ++ rest),
      closed, ?_, readAttributes_write ht.attributes (endsAttribute_tagEnd ht.blanks closed rest)
        (startsAttribute_tagEnd ht.blanks closed rest), readTagEnd_tagEnd ht.blanks closed rest, ?_⟩
    · have := readName_toList ht.name (ht.stops_name closed rest)
      simpa only [Tag.write, List.append_assoc] using this
    · rw [Attributes.ofList_eq_settle]
      rfl

end Markup.Grammar

end MarkupTemplate

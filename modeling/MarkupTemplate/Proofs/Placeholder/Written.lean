import Mathlib.Data.Set.Function
import MarkupTemplate.Proofs.Placeholder.Decomposition
import MarkupTemplate.Proofs.Template.Slots

/-!
# Tokens as they are written

Tokens can be written down again, as a descriptor shows those of its attribute. A placeholder loses
the blanks inside its braces that way, so it is not the text that comes back, and what follows a
static part is no longer what followed it. Yet no placeholder can start in a static part because of
that: one that reaches beyond the part would have the next opening brace inside, and a placeholder
has no brace but its own. So the written text is cut where the text was.

Results:
* `NoneStarts.of_alone`: what follows a static part does not matter, if it is a placeholder.
* `Leftmost.bare`: a text without its padding is cut as it was.
* `tokenize_static`: a static part has no other token by itself.
* `tokenize_writeTokens`: tokens are read back from their written form.
* `written_tokens_read_back`: so what is shown of tokens determines them.
-/

namespace MarkupTemplate

/-- Tokens as they are written, one after the other. -/
def writeTokens (ts : List Token) : String :=
  String.join (ts.map Token.written)

/-! ## Placeholders without padding -/

namespace Placeholder

open Text

/-- A placeholder has one opening brace only. -/
theorem brace_not_mem_tail (p : Placeholder) :
    '{' ∉ p.left ++ (p.path ++ (p.right ++ ['}'])) := by
  have hblank : ∀ {cs : List Char}, (∀ c ∈ cs, isBlank c = true) → '{' ∉ cs := fun h hm =>
    absurd (h _ hm) (by decide)
  have hpath : '{' ∉ p.path := fun hm => absurd (p.isPathChar_of_mem_path hm) (by decide)
  simp only [List.mem_append, List.mem_singleton, not_or]
  exact ⟨hblank p.blank_left, hpath, hblank p.blank_right, by decide⟩

/-- Padding without characters is blank throughout. -/
theorem blank_nil : ∀ c ∈ [], isBlank c = true :=
  List.forall_mem_nil _

/-- The placeholder without the blanks inside its braces. -/
def bare (p : Placeholder) : Placeholder where
  left := []
  names := p.names
  right := []
  blank_left := blank_nil
  names_ne_nil := p.names_ne_nil
  isName_names := p.isName_names
  blank_right := blank_nil

@[simp] theorem path_bare (p : Placeholder) : p.bare.path = p.path := rfl

theorem written_bare (p : Placeholder) :
    p.bare.written = (Token.expression (String.ofList p.path)).written.toList := by
  simp [Token.written, written, bare, path]

end Placeholder

namespace Decomposition

/-! ## What follows a static part -/

/-- Where no placeholder starts, none starts in the part by itself. -/
theorem NoneStarts.alone {s after : List Char} (h : NoneStarts s after) : NoneStarts s [] := by
  intro u hu hne p hp
  rw [List.append_nil] at hp
  exact h u hu hne p (hp.trans (List.prefix_append u after))

/-- **What follows a static part does not matter**, if it starts with a brace. -/
theorem NoneStarts.of_alone {s : List Char} (h : NoneStarts s []) (rest : List Char) :
    NoneStarts s ('{' :: rest) := by
  intro u hu hne p hp
  rcases List.prefix_or_prefix_of_prefix hp (List.prefix_append u _) with hp' | ⟨w, hw⟩
  · refine h u hu hne p ?_
    rwa [List.append_nil]
  · -- the brace would be inside the placeholder
    obtain ⟨c, u, rfl⟩ := List.exists_cons_of_ne_nil hne
    cases w with
    | nil =>
      rw [List.append_nil] at hw
      exact h _ hu hne p ⟨[], congrArg (· ++ []) hw.symm⟩
    | cons d w =>
      have hbrace : d = '{' := by
        rw [← hw, List.prefix_append_right_inj] at hp
        exact (List.cons_prefix_cons.1 hp).1
      have htail := (List.cons.inj hw).2
      refine p.brace_not_mem_tail (htail ▸ ?_)
      rw [hbrace]
      exact List.mem_append_right _ List.mem_cons_self

/-! ## Texts without padding -/

/-- The text without the blanks inside the braces of its placeholders. -/
def bare : Decomposition → Decomposition
  | last s => last s
  | next s p rest => next s p.bare rest.bare

theorem tokens_bare (d : Decomposition) : d.bare.tokens = d.tokens := by
  induction d with
  | last s => rfl
  | next s p rest ih => rw [bare, tokens, ih, Placeholder.path_bare, tokens]

/-- **A text without its padding is cut as it was.** -/
theorem Leftmost.bare {d : Decomposition} (hd : d.Leftmost) : d.bare.Leftmost := by
  induction d with
  | last s => exact hd
  | next s p rest ih => exact ⟨hd.1.alone.of_alone _, ih hd.2⟩

theorem toList_writeTokens_static (s : List Char) (ts : List Token) :
    (writeTokens (static s ++ ts)).toList = s ++ (writeTokens ts).toList := by
  cases s with
  | nil => rfl
  | cons c s => simp [writeTokens, static, Token.written]

/-- Tokens are written as the text without its padding. -/
theorem toList_writeTokens (d : Decomposition) :
    (writeTokens d.tokens).toList = d.bare.written := by
  induction d with
  | last s =>
    have hlast := toList_writeTokens_static s []
    rw [List.append_nil] at hlast
    rw [tokens, hlast]
    exact List.append_nil s
  | next s p rest ih =>
    have hnext : (writeTokens (.expression (String.ofList p.path) :: rest.tokens)).toList =
        p.bare.written ++ rest.bare.written := by
      rw [Placeholder.written_bare, ← ih, ← String.toList_append]
      simp [writeTokens]
    rw [tokens, toList_writeTokens_static, hnext]
    rfl

/-- A static token is a static part. -/
theorem Leftmost.noneStarts_of_mem {d : Decomposition} (hd : d.Leftmost) {x : String}
    (hx : .static x ∈ d.tokens) : x.toList ≠ [] ∧ NoneStarts x.toList [] := by
  have hstatic : ∀ {s after : List Char}, NoneStarts s after → .static x ∈ static s →
      x.toList ≠ [] ∧ NoneStarts x.toList [] := by
    intro s after hs hx
    unfold static at hx
    split at hx
    · cases hx
    · next hne =>
      rw [Token.static.inj (List.mem_singleton.1 hx), String.toList_ofList]
      exact ⟨hne, hs.alone⟩
  induction d with
  | last s => exact hstatic hd hx
  | next s p rest ih =>
    rcases List.mem_append.1 hx with hx | hx
    · exact hstatic hd.1 hx
    · rcases List.mem_cons.1 hx with hx | hx
      · cases hx
      · exact ih hd.2 hx

end Decomposition

/-! ## Tokens of written texts -/

/-- **A static part has no other token** by itself. -/
theorem tokenize_static {text x : String} (hx : .static x ∈ tokenize text) :
    tokenize x = [.static x] := by
  obtain ⟨d, hd, hleft⟩ := Decomposition.exists_leftmost text.toList
  rw [tokenize, ← hd, hleft.tokensFrom_written] at hx
  obtain ⟨hne, hnone⟩ := hleft.noneStarts_of_mem hx
  have hlast : (Decomposition.last x.toList).Leftmost := hnone
  refine hlast.tokensFrom_written.trans ?_
  rw [Decomposition.tokens, Decomposition.static, if_neg hne, String.ofList_toList]

/-- **Tokens are read back** from their written form. -/
theorem tokenize_writeTokens (text : String) :
    tokenize (writeTokens (tokenize text)) = tokenize text := by
  obtain ⟨d, hd, hleft⟩ := Decomposition.exists_leftmost text.toList
  have htokens : tokenize text = d.tokens := by rw [tokenize, ← hd, hleft.tokensFrom_written]
  rw [htokens, tokenize, d.toList_writeTokens, hleft.bare.tokensFrom_written, d.tokens_bare]

/-- The tokens of an attribute come from a text. -/
theorem Template.exists_tokenize {d : Document} {n : Handle} {s : Descriptor}
    (hs : s ∈ (ofNode d n).descriptors) {name : String} {ts : List Token}
    (ht : s.target = .attributeValue name ts) : ∃ text, ts = tokenize text := by
  unfold ofNode at hs
  cases hn : d.shape? n with
  | none =>
    rw [hn] at hs
    cases hs
  | some t =>
    have hmem : s.target ∈ t.targets := by
      rw [← t.map_target_ofTree]
      rw [hn] at hs
      exact List.mem_map_of_mem hs
    obtain ⟨c, -, hc⟩ := List.mem_flatMap.1 hmem
    rw [ht] at hc
    cases c with
    | text x =>
      obtain ⟨token, -, htoken⟩ := List.mem_filterMap.1 hc
      cases token <;> cases htoken
    | element e =>
      obtain ⟨a, -, ha⟩ := List.mem_map.1 hc
      exact ⟨a.2, (Target.attributeValue.inj ha).2.symm⟩
    | comment x => cases hc
    | fragment => cases hc

/-- **Tokens are read back from their written form.** A text may lose the blanks inside the braces
of its placeholders when its tokens are written, but its tokens it keeps. So no two lists of tokens
that texts have are written the same. A template's descriptor of an attribute shows the tokens as
they are written, and what it shows determines them: they are the tokens of the shown value, and any
descriptor of an attribute that shows the same value has the same tokens. -/
theorem written_tokens_read_back :
    (∀ text, tokenize (writeTokens (tokenize text)) = tokenize text) ∧
      Set.InjOn writeTokens (Set.range tokenize) ∧
      ∀ (d : Document) (n : Handle), ∀ s ∈ (Template.ofNode d n).descriptors,
        ∀ name ts, s.target = .attributeValue name ts →
          s.text = s.address.text ++ (" attribute " ++ name ++ "=\"" ++ writeTokens ts ++ "\"") ∧
            tokenize (writeTokens ts) = ts ∧
            ∀ (d' : Document) (n' : Handle), ∀ s' ∈ (Template.ofNode d' n').descriptors,
              ∀ name' ts', s'.target = .attributeValue name' ts' →
                writeTokens ts' = writeTokens ts → ts' = ts := by
  have hinj : Set.InjOn writeTokens (Set.range tokenize) := by
    rintro _ ⟨text, rfl⟩ _ ⟨text', rfl⟩ h
    rw [← tokenize_writeTokens text, h, tokenize_writeTokens]
  refine ⟨tokenize_writeTokens, hinj, fun d n s hs name ts ht => ?_⟩
  obtain ⟨text, rfl⟩ := Template.exists_tokenize hs ht
  refine ⟨?_, tokenize_writeTokens text, fun d' n' s' hs' name' ts' ht' heq => ?_⟩
  · rw [Descriptor.text, ht]
    rfl
  · obtain ⟨text', rfl⟩ := Template.exists_tokenize hs' ht'
    exact hinj ⟨text', rfl⟩ ⟨text, rfl⟩ heq

/-- A static part ends in what might be the start of the placeholder after it. -/
theorem written_tokens_read_back_padded :
    let text := "\x7ba\x7b b.c \x7d\x7d"
    let d := (Document.empty.plant
      ⟨.element { tag := "p", attributes := .ofList [("t", text)] }, .nil⟩).1
    let ts : List Token := [.static "\x7ba", .expression "b.c", .static "\x7d"]
    (Template.ofNode d 0).descriptors = [⟨.root, .attributeValue "t" ts⟩] ∧
      writeTokens ts = "\x7ba\x7bb.c\x7d\x7d" ∧ tokenize (writeTokens ts) = ts := by
  intro text d ts
  have hdescriptors : (Template.ofNode d 0).descriptors = [⟨.root, .attributeValue "t" ts⟩] := by
    decide +kernel
  obtain ⟨-, -, hshown⟩ := written_tokens_read_back
  obtain ⟨-, htokens, -⟩ := hshown d 0 _ (hdescriptors ▸ List.mem_cons_self) "t" ts rfl
  exact ⟨hdescriptors, by decide +kernel, htokens⟩

end MarkupTemplate

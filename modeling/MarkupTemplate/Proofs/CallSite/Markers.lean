import MarkupTemplate.CallSite.Gap
import MarkupTemplate.Proofs.Placeholder.Decomposition

/-!
# Texts with markers

A text with markers is static text and markers in turn (`turns`). The start of a marker has its
first character only there, so it cannot overlap another one, and a number has no character of the
end of a marker; so the text is split where its markers are, if its static parts hold no start of a
marker. They may hold anything else, also the end of a marker, or what looks like a part of one.

Any text is split into such turns. A start of a marker without a number may be left in the last of
them, and then the text is not cut again after it; but nothing is lost, since the turns are the text
when they are written down.

Results:
* `exists_turns`: a text is split into turns that make up the text.
* `splitFrom_turns`: turns are read back.
* `split_inverts_writing`: both, and what the tokens of a text are like.
-/

namespace MarkupTemplate.Gap

open Text

/-! ## Writing tokens down -/

/-- A marker whose number is written as `digits`. -/
def written (digits : List Char) : List Char :=
  markerOpen ++ (digits ++ markerClose)

theorem written_toDigits (k : Nat) : written (Nat.toDigits 10 k) = marker k :=
  (List.append_assoc markerOpen _ markerClose).symm

/-- A token as it is written in a text with markers. -/
def writeToken : Token → String
  | .static s => s
  | .expression digits => String.ofList (written digits.toList)

/-- Tokens as they are written, one after the other. -/
def writeTokens (ts : List Token) : String :=
  String.join (ts.map writeToken)

theorem toList_writeTokens_cons (t : Token) (ts : List Token) :
    (writeTokens (t :: ts)).toList = (writeToken t).toList ++ (writeTokens ts).toList := by
  simp [writeTokens]

/-- Static text and markers in turn, from a first static text on. -/
def turns (head : String) : (tail : List (String × String)) → List Token
  | [] => [.static head]
  | (digits, s) :: tail => .static head :: .expression digits :: turns s tail

/-- Turns as they are written. -/
theorem toList_writeTokens_turns (head : String) (tail : List (String × String)) :
    (writeTokens (turns head tail)).toList =
      head.toList ++ tail.flatMap fun m => written m.1.toList ++ m.2.toList := by
  induction tail generalizing head with
  | nil => rw [turns, toList_writeTokens_cons]; rfl
  | cons m tail ih =>
    rw [turns, toList_writeTokens_cons, toList_writeTokens_cons, ih, writeToken, writeToken,
      String.toList_ofList, List.flatMap_cons, List.append_assoc]

/-! ## Tokens that are not empty -/

/-- The tokens without empty static text. -/
def nonempty (ts : List Token) : List Token :=
  ts.filter (· ≠ .static "")

/-- Empty static text makes no difference where tokens are written. -/
theorem writeTokens_nonempty (ts : List Token) : writeTokens (nonempty ts) = writeTokens ts := by
  induction ts with
  | nil => rfl
  | cons t ts ih =>
    rw [← String.toList_inj] at ih ⊢
    rw [nonempty, List.filter_cons, toList_writeTokens_cons, ← ih]
    split
    · exact toList_writeTokens_cons t _
    · next ht =>
      obtain rfl : t = .static "" := by simpa using ht
      rfl

theorem nonempty_static (s : String) : nonempty [.static s] = splitFrom.static s.toList := by
  unfold nonempty splitFrom.static
  by_cases hs : s = "" <;> simp [hs]

theorem nonempty_turns_cons (head digits s : String) (tail : List (String × String)) :
    nonempty (turns head ((digits, s) :: tail)) =
      splitFrom.static head.toList ++ .expression digits :: nonempty (turns s tail) := by
  rw [← nonempty_static, turns, nonempty, nonempty, nonempty, List.filter_cons, List.filter_cons]
  by_cases hs : head = "" <;> simp [hs]

/-- Among turns, no two of them that are static are adjacent. -/
theorem isChain_nonempty_turns (head : String) (tail : List (String × String)) :
    (nonempty (turns head tail)).IsChain
      fun t u => t.isExpression = true ∨ u.isExpression = true := by
  induction tail generalizing head with
  | nil =>
    rw [turns, nonempty_static]
    exact Decomposition.isChain_static head.toList
  | cons m tail ih =>
    rw [nonempty_turns_cons]
    exact Decomposition.isChain_static_append head.toList m.1 (ih m.2)

/-! ## Splitting -/

theorem splitFrom_of_cut?_eq_none {cs : List Char} (h : cut? markerOpen cs = none) :
    splitFrom cs = splitFrom.static cs := by
  unfold splitFrom
  split
  · rfl
  · next hsome => simp [h] at hsome

theorem splitFrom_of_cut? {cs before after digits rest : List Char}
    (h : cut? markerOpen cs = some (before, after)) (h' : number? after = some (digits, rest)) :
    splitFrom cs =
      splitFrom.static before ++ .expression (String.ofList digits) :: splitFrom rest := by
  rw [splitFrom]
  split
  · next hnone => simp [h] at hnone
  · next hsome =>
    rw [h, Option.some.injEq, Prod.mk.injEq] at hsome
    obtain ⟨rfl, rfl⟩ := hsome
    split
    · next hnone => simp [h'] at hnone
    · next hsome =>
      rw [h', Option.some.injEq, Prod.mk.injEq] at hsome
      obtain ⟨rfl, rfl⟩ := hsome
      rfl

/-- A number is read up to the end of its marker. -/
theorem number?_append {digits : List Char} (hne : digits ≠ [])
    (hdigits : ∀ c ∈ digits, c.isDigit = true) (rest : List Char) :
    number? (digits ++ (markerClose ++ rest)) = some (digits, rest) := by
  have hdash : '-' ∉ digits := fun hm => absurd (hdigits '-' hm) (by decide)
  unfold number? markerClose
  rw [cut?_of_not_mem hdash, Option.filter_some]
  simpa [hne] using hdigits

/-- **Turns are read back**, if no static part holds the start of a marker. -/
theorem splitFrom_turns {head : String} {tail : List (String × String)}
    (hopen : ∀ s ∈ head :: tail.map Prod.snd, ¬markerOpen <:+: s.toList)
    (hdigits : ∀ e ∈ tail.map Prod.fst, e ≠ "" ∧ ∀ c ∈ e.toList, c.isDigit = true) :
    splitFrom (writeTokens (turns head tail)).toList = nonempty (turns head tail) := by
  induction tail generalizing head with
  | nil =>
    have hhead : cut? markerOpen head.toList = none := cut?_eq_none (hopen head List.mem_cons_self)
    rw [toList_writeTokens_turns, List.flatMap_nil, List.append_nil,
      splitFrom_of_cut?_eq_none hhead, turns, nonempty_static]
  | cons m tail ih =>
    obtain ⟨⟨hne, hall⟩, hdigits⟩ := List.forall_mem_cons.1 hdigits
    obtain ⟨hhead, hopen⟩ := List.forall_mem_cons.1 hopen
    have hwritten : (writeTokens (turns head (m :: tail))).toList = head.toList ++ (markerOpen ++
        (m.1.toList ++ (markerClose ++ (writeTokens (turns m.2 tail)).toList))) := by
      simp [toList_writeTokens_turns, written]
    have hcut : cut? markerOpen (writeTokens (turns head (m :: tail))).toList = some (head.toList,
        m.1.toList ++ (markerClose ++ (writeTokens (turns m.2 tail)).toList)) := by
      rw [hwritten]
      exact cut?_of_not_infix (by decide) hhead _
    have hnumber := number?_append (by simpa using hne) hall (writeTokens (turns m.2 tail)).toList
    rw [splitFrom_of_cut? hcut hnumber, ih hopen hdigits, nonempty_turns_cons,
      String.ofList_toList]

/-- **A text is split into turns** that make up the text. -/
theorem exists_turns (cs : List Char) : ∃ head tail,
    (writeTokens (turns head tail)).toList = cs ∧ splitFrom cs = nonempty (turns head tail) := by
  have hstatic : ∀ cs : List Char, (writeTokens (turns (String.ofList cs) [])).toList = cs ∧
      splitFrom.static cs = nonempty (turns (String.ofList cs) []) := by
    intro cs
    rw [toList_writeTokens_turns, turns, nonempty_static, String.toList_ofList]
    exact ⟨List.append_nil cs, rfl⟩
  fun_induction splitFrom cs with
  | case1 cs hcut => exact ⟨_, _, hstatic cs⟩
  | case2 cs before after hcut hnumber => exact ⟨_, _, hstatic cs⟩
  | case3 cs before after hcut digits rest hnumber _ ih =>
    obtain ⟨head, tail, hrest, hsplit⟩ := ih
    have hdigits := eq_of_cut? (Option.filter_eq_some_iff.1 hnumber).1
    refine ⟨String.ofList before, (String.ofList digits, head) :: tail, ?_, ?_⟩
    · rw [eq_of_cut? hcut, hdigits, ← hrest, toList_writeTokens_turns, toList_writeTokens_turns]
      simp [written]
    · rw [nonempty_turns_cons, hsplit, String.toList_ofList]

/-- **Splitting at markers inverts writing them.** The tokens of any text make up the text when they
are written down, and none of them is empty static text, and no two adjacent ones are static. And
where static texts that hold no start of a marker stand in turn with markers of any numbers, with
leading zeros or without, the text is split into just these, but for the static texts that are
empty. -/
theorem split_inverts_writing :
    (∀ value : String, writeTokens (split value) = value ∧ (∀ t ∈ split value, t ≠ .static "") ∧
      (split value).IsChain fun t u => t.isExpression = true ∨ u.isExpression = true) ∧
    ∀ (head : String) (tail : List (String × String)),
      (∀ s ∈ head :: tail.map Prod.snd, ¬markerOpen <:+: s.toList) →
      (∀ digits ∈ tail.map Prod.fst, digits ≠ "" ∧ ∀ c ∈ digits.toList, c.isDigit = true) →
      split (writeTokens (turns head tail)) = (turns head tail).filter (· ≠ .static "") := by
  refine ⟨fun value => ?_, fun head tail => splitFrom_turns⟩
  obtain ⟨head, tail, hwritten, hsplit⟩ := exists_turns value.toList
  unfold split
  rw [hsplit, writeTokens_nonempty]
  refine ⟨String.toList_inj.1 hwritten, fun t ht => ?_, isChain_nonempty_turns head tail⟩
  simpa using (List.mem_filter.1 ht).2

/-- A static text that is the end of a marker, one that starts like a marker, and an empty one. -/
theorem split_inverts_writing_partial :
    let text := "--><!--stamp-marker:007--><!--stamp-<!--stamp-marker:1-->"
    let ts : List Token := [.static "-->", .expression "007", .static "<!--stamp-", .expression "1"]
    split text = ts ∧ writeTokens ts = text := by
  intro text ts
  obtain ⟨hwrite, hsplit⟩ := split_inverts_writing
  have htext : writeTokens (turns "-->" [("007", "<!--stamp-"), ("1", "")]) = text := by
    decide +kernel
  -- a static text with the start of a marker in it would be as long as that start
  have hshort : ∀ s ∈ ["-->", "<!--stamp-", ""], s.toList.length < markerOpen.length := by decide
  have hts : split text = ts := by
    rw [← htext, hsplit _ _ (fun s hs hopen => (hshort s hs).not_ge hopen.length_le) (by simp)]
    decide
  exact ⟨hts, hts ▸ (hwrite text).1⟩

end MarkupTemplate.Gap

import MarkupTemplate.Proofs.CallSite.Alike
import MarkupTemplate.Proofs.Template.Fill
import Mathlib.Data.List.Count
import Mathlib.Data.List.Nodup

/-!
# Gaps and their values

The gaps of a call site are in order when each of them turns up once, whatever the order is. Their
values come from a list, or from a record with the names of the gaps as keys; descriptors write the
same either way.

Results:
* `occupy_eq_ok_iff`: which gaps can be taken one after the other.
* `occupyAll_eq_ok_iff_perm`, `occupyAll_eq_ok_iff`: the gaps are in order when each turns up once.
* `at?_array`, `at?_record`: a gap has the same value in a list and in a record.
* `fill_rename`: a tree is filled alike where the renamed expressions have the same values.
-/

namespace MarkupTemplate

/-! ## Taking gaps -/

namespace Gap

theorem ofNumber_toString {k : Nat} (h : k < UInt64.size) : ofNumber (toString k) = .ok k := by
  unfold ofNumber
  rw [Style.toList_toString, Numeral.unsigned?_toDigits h]

/-- The number of a gap fits a word. -/
theorem lt_of_ofComment? {c : String} {k : Nat} (h : ofComment? c = some k) :
    k < UInt64.size := by
  simp only [ofComment?] at h
  split at h
  · exact Numeral.unsigned?_lt h
  · cases h

/-- **Gaps can be taken** if they are there, are all different and were not taken before. -/
theorem occupy_eq_ok_iff {count : Nat} {numbers : List String} {taken taken' : List Nat} :
    occupy count taken numbers = .ok taken' ↔ ∃ ks, numbers.mapM ofNumber = .ok ks ∧
      (∀ k ∈ ks, k < count) ∧ ks.Nodup ∧ (∀ k ∈ ks, k ∉ taken) ∧ taken' = taken ++ ks := by
  induction numbers generalizing taken with
  | nil => simp [occupy, pure, Except.pure, eq_comm]
  | cons digits rest ih =>
    rw [occupy]
    cases hdigits : ofNumber digits with
    | error e =>
      refine iff_of_false (by simp [bind, Except.bind]) ?_
      rintro ⟨ks, hks, -⟩
      obtain ⟨k, -, hk, -⟩ := mapM_cons_eq_ok_iff.1 hks
      rw [hdigits] at hk
      cases hk
    | ok k =>
      have hnumbers : ∀ ks, (digits :: rest).mapM ofNumber = .ok ks ↔
          ∃ js, rest.mapM ofNumber = .ok js ∧ ks = k :: js := by
        intro ks
        rw [mapM_cons_eq_ok_iff, hdigits]
        simp
      by_cases hk : k < count ∧ k ∉ taken
      · obtain ⟨hlt, hfree⟩ := hk
        simp only [bind, Except.bind, if_neg (Nat.not_le.2 hlt), if_neg hfree]
        rw [ih]
        constructor
        · rintro ⟨js, hjs, hlts, hn, hnew, rfl⟩
          have hk : k ∉ js := fun hm => hnew k hm (List.mem_append_right _ List.mem_cons_self)
          refine ⟨k :: js, (hnumbers _).2 ⟨js, hjs, rfl⟩, List.forall_mem_cons.2 ⟨hlt, hlts⟩,
            List.nodup_cons.2 ⟨hk, hn⟩, List.forall_mem_cons.2 ⟨hfree, fun j hj hm => ?_⟩,
            List.append_assoc taken [k] js⟩
          exact hnew j hj (List.mem_append_left _ hm)
        · rintro ⟨ks, hks, hlts, hn, hnew, rfl⟩
          obtain ⟨js, hjs, rfl⟩ := (hnumbers ks).1 hks
          obtain ⟨hk, hn⟩ := List.nodup_cons.1 hn
          refine ⟨js, hjs, (List.forall_mem_cons.1 hlts).2, hn, fun j hj hm => ?_,
            (List.append_assoc taken [k] js).symm⟩
          rcases List.mem_append.1 hm with hm | hm
          · exact (List.forall_mem_cons.1 hnew).2 j hj hm
          · exact hk (List.mem_singleton.1 hm ▸ hj)
      · refine iff_of_false ?_ ?_
        · by_cases hle : count ≤ k
          · simp [bind, Except.bind, hle, throw, throwThe, MonadExceptOf.throw]
          · have htaken : k ∈ taken := by
              by_contra hfree
              exact hk ⟨Nat.not_le.1 hle, hfree⟩
            simp [bind, Except.bind, hle, htaken, throw, throwThe, MonadExceptOf.throw]
        · rintro ⟨ks, hks, hlts, -, hnew, -⟩
          obtain ⟨js, -, rfl⟩ := (hnumbers ks).1 hks
          exact hk ⟨hlts k List.mem_cons_self, hnew k List.mem_cons_self⟩

/-- **The gaps are in order** when their numbers are those from the first to the last in some
order. -/
theorem occupyAll_eq_ok_iff_perm {count : Nat} {numbers : List String} :
    occupyAll count numbers = .ok () ↔
      ∃ ks, numbers.mapM ofNumber = .ok ks ∧ ks.Perm (List.range count) := by
  have hoccupy : occupyAll count numbers = .ok () ↔
      ∃ taken, occupy count [] numbers = .ok taken ∧ ∀ k < count, k ∈ taken := by
    unfold occupyAll
    cases occupy count [] numbers with
    | error e => simp [bind, Except.bind]
    | ok taken =>
      have hfind : (List.range count).find? (fun k => decide (k ∉ taken)) = none ↔
          ∀ k < count, k ∈ taken := by
        simp [List.find?_eq_none]
      simp only [bind, Except.bind, Except.ok.injEq, exists_eq_left', ← hfind]
      cases (List.range count).find? fun k => decide (k ∉ taken) with
      | none => simp [pure, Except.pure]
      | some k => simp [throw, throwThe, MonadExceptOf.throw]
  rw [hoccupy]
  constructor
  · rintro ⟨taken, htaken, hall⟩
    obtain ⟨_, hks, hlt, hn, -, rfl⟩ := occupy_eq_ok_iff.1 htaken
    refine ⟨taken, hks, (List.perm_ext_iff_of_nodup hn List.nodup_range).2 fun k => ?_⟩
    rw [List.mem_range]
    exact ⟨hlt k, hall k⟩
  · rintro ⟨ks, hks, hperm⟩
    have hmem : ∀ k, k ∈ ks ↔ k < count := fun k => hperm.mem_iff.trans List.mem_range
    exact ⟨ks, occupy_eq_ok_iff.2 ⟨ks, hks, fun k => (hmem k).1, hperm.nodup_iff.2 List.nodup_range,
      fun _ _ => List.not_mem_nil, rfl⟩, fun k => (hmem k).2⟩

/-- So each of them turns up once. -/
theorem occupyAll_eq_ok_iff {count : Nat} (hcount : count ≤ UInt64.size) {ks : List Nat}
    (hks : ∀ k ∈ ks, k < count) :
    occupyAll count (ks.map toString) = .ok () ↔ ∀ k < count, ks.count k = 1 := by
  have hnumbers : (ks.map toString).mapM ofNumber = .ok ks := by
    induction ks with
    | nil => rfl
    | cons k ks ih =>
      have hk : k < count := hks k List.mem_cons_self
      exact mapM_cons_eq_ok_iff.2 ⟨k, ks, ofNumber_toString (Nat.lt_of_lt_of_le hk hcount),
        ih fun j hj => hks j (List.mem_cons_of_mem k hj), rfl⟩
  simp only [occupyAll_eq_ok_iff_perm, hnumbers, Except.ok.injEq, exists_eq_left']
  constructor
  · intro hperm k hk
    rw [hperm.count_eq]
    exact List.count_eq_one_of_mem List.nodup_range (List.mem_range.2 hk)
  · intro h
    have hn : ks.Nodup := List.nodup_iff_count_eq_one.2 fun k hk => h k (hks k hk)
    refine (List.perm_ext_iff_of_nodup hn List.nodup_range).2 fun k => ?_
    rw [List.mem_range]
    exact ⟨hks k, fun hk => List.count_pos_iff.1 (by rw [h k hk]; exact Nat.one_pos)⟩

/-! ## Values of gaps -/

theorem key_injective : Function.Injective key := by
  intro j k h
  have hnames : 'g' :: Nat.toDigits 10 j = 'g' :: Nat.toDigits 10 k := by
    rw [← Style.toList_name, ← Style.toList_name]
    exact congrArg String.toList h
  have hnumbers := congrArg (Numeral.accumulate? 10 0) (List.cons.inj hnames).2
  rw [Numeral.accumulate?_toDigits, Numeral.accumulate?_toDigits] at hnumbers
  exact Option.some.inj hnumbers

/-- The record that gives the gaps their values, under their names. -/
def record (vs : List Value) : Value :=
  .ofPairs (vs.mapIdx fun k v => (key k, v))

end Gap

namespace Value

theorem at?_eq_member? {path : String} (hne : path ≠ "") (hdot : '.' ∉ path.toList) (v : Value) :
    v.at? path = v.member? path := by
  unfold at?
  rw [if_neg hne, Text.segments_of_not_mem hdot, List.map_singleton, String.ofList_toList,
    follow?_cons]
  cases v.member? path <;> rfl

/-- **In a list** a numeral has the value at its place, however it is written. -/
theorem at?_array_of_unsigned? {e : String} {k : Nat} (he : Numeral.unsigned? e.toList = some k)
    (vs : List Value) : (array vs).at? e = vs[k]? := by
  have hne : e ≠ "" := by
    rintro rfl
    cases he
  have hdot : '.' ∉ e.toList := by
    intro hm
    rw [Numeral.unsigned?_eq_none (by decide) (by decide) hm] at he
    cases he
  rw [at?_eq_member? hne hdot, member?, he, Option.bind_some]

/-- So has the number of a gap. -/
theorem at?_array {k : Nat} (hk : k < UInt64.size) (vs : List Value) :
    (array vs).at? (toString k) = vs[k]? :=
  at?_array_of_unsigned? (by rw [Style.toList_toString, Numeral.unsigned?_toDigits hk]) vs

theorem lookup?_record (vs : List Value) (j : Nat) :
    Entries.lookup? (Entries.ofList ((vs.mapIdx fun k v => (Gap.key k, v)).map fun p =>
      (string p.1, p.2))) (string (Gap.key j)) = vs[j]? := by
  induction vs using List.reverseRecOn with
  | nil => rfl
  | append_singleton vs v ih =>
    rw [List.mapIdx_concat, List.map_append, Entries.ofList, List.foldl_append, ← Entries.ofList]
    by_cases hj : j = vs.length
    · subst hj
      rw [List.getElem?_concat_length]
      exact Entries.lookup?_insert_self _ _ v
    · have hkey : string (Gap.key j) ≠ string (Gap.key vs.length) := fun h =>
        hj (Gap.key_injective (string.inj h))
      refine (Entries.lookup?_insert_ne _ v hkey).trans (ih.trans ?_)
      rcases Nat.lt_or_gt_of_ne hj with hlt | hgt
      · rw [List.getElem?_append_left hlt]
      · rw [List.getElem?_eq_none (Nat.le_of_lt hgt), List.getElem?_eq_none (by simp; omega)]

/-- **In a record** a gap has the value under its name. -/
theorem at?_record {vs : List Value} {k : Nat} (hk : k < vs.length) :
    (Gap.record vs).at? (Gap.key k) = vs[k]? := by
  have hname : (Gap.key k).toList = 'g' :: Nat.toDigits 10 k := Style.toList_name k
  have hne : Gap.key k ≠ "" := by
    intro h
    rw [h] at hname
    cases hname
  have hdot : '.' ∉ (Gap.key k).toList := by
    intro hm
    rw [hname, List.mem_cons] at hm
    rcases hm with hm | hm
    · cases hm
    · exact not_mem_toDigits (by decide) k hm
  rw [at?_eq_member? hne hdot, Gap.record, ofPairs, ofEntries, member?, lookup?_record,
    List.getElem?_eq_getElem hk, Option.some_or]

end Value

/-! ## Renamed expressions -/

section Rename

variable {ρ : String → String} {v w : Value}

theorem Descriptor.gapNumbers_rename (ρ : String → String) (s : Descriptor) :
    (s.rename ρ).gapNumbers = s.gapNumbers.map ρ := by
  obtain ⟨address, target⟩ := s
  cases target with
  | textContent e => rfl
  | attributeValue name tokens =>
    simp only [rename, Target.rename, gapNumbers]
    induction tokens with
    | nil => rfl
    | cons t tokens ih =>
      cases t with
      | static x => exact ih
      | expression e => exact congrArg (ρ e :: ·) ih

theorem flatMap_gapNumbers_rename (ρ : String → String) (ss : List Descriptor) :
    (ss.map (Descriptor.rename ρ)).flatMap Descriptor.gapNumbers =
      (ss.flatMap Descriptor.gapNumbers).map ρ := by
  rw [List.flatMap_map, List.map_flatMap]
  exact List.flatMap_congr fun s _ => s.gapNumbers_rename ρ

/-- A descriptor writes the same where its renamed expressions have the same values. -/
theorem Descriptor.writeTo_rename {s : Descriptor}
    (h : ∀ e ∈ s.gapNumbers, w.at? (ρ e) = v.at? e) (t : Tree Content) :
    (s.rename ρ).writeTo w t = s.writeTo v t := by
  obtain ⟨address, target⟩ := s
  have hvalue : (target.rename ρ).value w = target.value v := by
    cases target with
    | textContent e =>
      unfold Target.rename
      rw [Target.value, Target.value, Token.fill, Token.fill, h e List.mem_cons_self]
    | attributeValue name tokens =>
      unfold Target.rename
      rw [Target.value, Target.value, fillTokens, fillTokens, List.map_map]
      refine congrArg String.join (List.map_congr_left ?_)
      intro x hx
      cases x with
      | static x => rfl
      | expression e =>
        rw [Function.comp_apply, Token.rename, Token.fill, Token.fill,
          h e (List.mem_filterMap.2 ⟨_, hx, rfl⟩)]
  have hwrite : ∀ c, (target.rename ρ).write? w c = target.write? v c := by
    intro c
    cases target with
    | textContent e => exact congrArg (Content.setText? · c) hvalue
    | attributeValue name tokens => exact congrArg (Content.setAttribute? name · c) hvalue
  simp only [writeTo, rename, hwrite]

/-- **A tree is filled alike** where the renamed expressions have the same values. -/
theorem Tree.fill_rename {ss : List Descriptor}
    (h : ∀ e ∈ ss.flatMap Descriptor.gapNumbers, w.at? (ρ e) = v.at? e) (t : Tree Content) :
    t.fill w (ss.map (Descriptor.rename ρ)) = t.fill v ss := by
  induction ss generalizing t with
  | nil => rfl
  | cons s ss ih =>
    have hs : (s.rename ρ).writeTo w t = s.writeTo v t :=
      Descriptor.writeTo_rename (fun e he => h e (List.mem_append_left _ he)) t
    show Tree.fill w (ss.map (Descriptor.rename ρ)) ((s.rename ρ).writeTo w t) = _
    rw [hs]
    exact ih (fun e he => h e (List.mem_append_right _ he)) _

end Rename

end MarkupTemplate

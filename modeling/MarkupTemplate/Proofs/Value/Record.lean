import MarkupTemplate.Value.Basic
import Mathlib.Data.List.Induction
import Mathlib.Data.List.Nodup

/-!
# What a record keeps

Entries are written one after the other, and writing a key again drops what was written under it
before. So what is kept is each entry that no later one overwrites, in the order in which these were
written.

A record that is written under text keys has no other keys. A path segment that looks like a number
finds the text key that it is, and no integer key.

Results:
* `Entries.ofList_eq_lasting`: what is kept of entries are those that are not overwritten.
* `Entries.ofList_append`: writing more drops what is overwritten and adds to the end.
* `Entries.mem_ofList_of_last`, `Entries.sublist_keys_ofList`: the last write to a key is kept, and
  comes before what is written after it.
* `Value.member?_ofPairs`: a segment leads to what the record has for this text.
* `Value.records_keep_last_writes`: what is in a record, in which order, and how it is found.
-/

namespace MarkupTemplate

universe u v

namespace Entries

variable {κ : Type u} {ν : Type v} [DecidableEq κ]

/-! ## The last writes -/

/-- The entries whose keys are not written again. -/
def lasting : List (κ × ν) → List (κ × ν)
  | [] => []
  | e :: es => if e.1 ∈ keys es then lasting es else e :: lasting es

omit [DecidableEq κ] in
theorem mem_keys_cons {e : κ × ν} {es : List (κ × ν)} {k : κ} :
    k ∈ keys (e :: es) ↔ k = e.1 ∨ k ∈ keys es :=
  List.mem_cons

theorem mem_keys_lasting {es : List (κ × ν)} {k : κ} : k ∈ keys (lasting es) ↔ k ∈ keys es := by
  induction es with
  | nil => exact Iff.rfl
  | cons e es ih =>
    rw [lasting, mem_keys_cons]
    split
    · next he => rw [ih, or_iff_right_of_imp fun h => h ▸ he]
    · rw [mem_keys_cons, ih]

/-- Later entries overwrite earlier ones and come after them. -/
theorem lasting_append (es fs : List (κ × ν)) :
    lasting (es ++ fs) = (lasting es).filter (·.1 ∉ keys fs) ++ lasting fs := by
  induction es with
  | nil => rfl
  | cons e es ih =>
    have hkeys : e.1 ∈ keys (es ++ fs) ↔ e.1 ∈ keys es ∨ e.1 ∈ keys fs := by
      rw [keys, List.map_append, List.mem_append]
      rfl
    rw [List.cons_append, lasting, lasting]
    by_cases hes : e.1 ∈ keys es
    · rw [if_pos (hkeys.2 (.inl hes)), if_pos hes, ih]
    · rw [if_neg hes, List.filter_cons]
      by_cases hfs : e.1 ∈ keys fs
      · rw [if_pos (hkeys.2 (.inr hfs)), if_neg (by simpa using hfs), ih]
      · rw [if_neg fun h => (hkeys.1 h).elim hes hfs, if_pos (by simpa using hfs), ih,
          List.cons_append]

/-- **What is kept of entries** are those that are not overwritten. -/
theorem ofList_eq_lasting (written : List (κ × ν)) : ofList written = lasting written := by
  induction written using List.reverseRecOn with
  | nil => rfl
  | append_singleton es e ih =>
    have hkeys : ∀ k, k ∉ keys [e] ↔ k ≠ e.1 := fun k => not_congr List.mem_singleton
    rw [ofList, List.foldl_append, ← ofList, ih, lasting_append]
    simp only [hkeys]
    rfl

/-- Writing more drops what is overwritten and adds to the end. -/
theorem ofList_append (es fs : List (κ × ν)) :
    ofList (es ++ fs) = (ofList es).filter (·.1 ∉ keys fs) ++ ofList fs := by
  rw [ofList_eq_lasting, ofList_eq_lasting, ofList_eq_lasting, lasting_append]

theorem mem_keys_ofList {written : List (κ × ν)} {k : κ} :
    k ∈ keys (ofList written) ↔ k ∈ keys written := by
  rw [ofList_eq_lasting, mem_keys_lasting]

section

variable {e : κ × ν} (es : List (κ × ν)) {fs : List (κ × ν)} (hlast : e.1 ∉ keys fs)

include hlast

/-- Nothing that comes after the last write to a key touches its entry. -/
theorem ofList_append_cons :
    ofList (es ++ e :: fs) = (ofList es).filter (·.1 ∉ keys (e :: fs)) ++ e :: ofList fs := by
  have hkept : ofList (e :: fs) = e :: ofList fs := by
    rw [ofList_eq_lasting, lasting, if_neg hlast, ofList_eq_lasting]
  rw [ofList_append, hkept]

/-- **The last write to a key** is kept. -/
theorem mem_ofList_of_last : e ∈ ofList (es ++ e :: fs) := by
  rw [ofList_append_cons es hlast]
  exact List.mem_append_right _ List.mem_cons_self

/-- It comes before what is written after it. -/
theorem sublist_keys_ofList {k : κ} (hk : k ∈ keys fs) :
    [e.1, k].Sublist (keys (ofList (es ++ e :: fs))) := by
  have hlater : [k].Sublist (keys (ofList fs)) := List.singleton_sublist.2 (mem_keys_ofList.2 hk)
  rw [ofList_append_cons es hlast, keys, List.map_append, List.map_cons]
  exact (hlater.cons_cons e.1).trans (List.sublist_append_right _ _)

end

/-- Where no key is there twice, a key holds what is there under it. -/
theorem lookup?_of_mem {es : List (κ × ν)} (hes : (keys es).Nodup) {e : κ × ν} (he : e ∈ es) :
    lookup? es e.1 = some e.2 := by
  obtain ⟨y, hy⟩ := Option.isSome_iff_exists.1 (isSome_lookup?_iff.2 (List.mem_map_of_mem he))
  obtain ⟨f, hf, rfl⟩ := Option.map_eq_some_iff.1 hy
  have hkey : f.1 = e.1 := by simpa using List.find?_some hf
  rw [hy, List.inj_on_of_nodup_map hes (List.mem_of_find?_eq_some hf) he hkey]

theorem lookup?_ofList_eq_none_iff {written : List (κ × ν)} {k : κ} :
    lookup? (ofList written) k = none ↔ k ∉ keys written := by
  rw [← Option.not_isSome_iff_eq_none, isSome_lookup?_iff, mem_keys_ofList]

end Entries

namespace Value

/-! ## Records -/

/-- The entries that are written under text keys. -/
def textEntries (pairs : List (String × Value)) : List (Value × Value) :=
  pairs.map fun p => (.string p.1, p.2)

theorem keys_textEntries (pairs : List (String × Value)) :
    Entries.keys (textEntries pairs) = (pairs.map Prod.fst).map string := by
  rw [Entries.keys, textEntries, List.map_map, List.map_map]
  rfl

theorem string_mem_keys_iff {pairs : List (String × Value)} {k : String} :
    string k ∈ Entries.keys (textEntries pairs) ↔ k ∈ pairs.map Prod.fst := by
  rw [keys_textEntries, List.mem_map]
  exact ⟨fun ⟨_, hmem, h⟩ => string.inj h ▸ hmem, fun hmem => ⟨k, hmem, rfl⟩⟩

/-- **A segment leads to what the record has for this text**, also where it looks like a number. -/
theorem member?_ofPairs (pairs : List (String × Value)) (k : String) :
    (ofPairs pairs).member? k =
      Entries.lookup? (Entries.ofList (textEntries pairs)) (.string k) := by
  have hinteger : ((Numeral.signed? 10 k.toList).bind fun n =>
      Entries.lookup? (Entries.ofList (textEntries pairs)) (.integer n)) = none := by
    refine Option.bind_eq_none_iff.2 fun n _ => ?_
    rw [Entries.lookup?_ofList_eq_none_iff, keys_textEntries]
    intro hmem
    obtain ⟨_, -, h⟩ := List.mem_map.1 hmem
    cases h
  exact (congrArg _ hinteger).trans Option.or_none

/-- **A record keeps the last write to each key.** Its keys are the texts that are written to, each
of them once. Each has what was last written to it, comes before all that were written to after
that, and leads to what it has as a path segment. No other segment leads anywhere, not even one that
spells an integer. -/
theorem records_keep_last_writes (pairs : List (String × Value)) :
    ∃ es, ofPairs pairs = .hash es ∧
      (Entries.keys es).Nodup ∧
      (∀ key, key ∈ Entries.keys es ↔ ∃ k ∈ pairs.map Prod.fst, key = .string k) ∧
      (∀ before k x after, pairs = before ++ (k, x) :: after → k ∉ after.map Prod.fst →
        (.string k, x) ∈ es ∧ (ofPairs pairs).member? k = some x ∧
          ∀ l ∈ after.map Prod.fst, [.string k, .string l].Sublist (Entries.keys es)) ∧
      ∀ k, k ∉ pairs.map Prod.fst → (ofPairs pairs).member? k = none := by
  have hnodup := Entries.nodup_keys_ofList (textEntries pairs)
  refine ⟨_, rfl, hnodup, fun key => ?_, ?_, fun k hk => ?_⟩
  · rw [← textEntries, Entries.mem_keys_ofList, keys_textEntries, List.mem_map]
    exact exists_congr fun k => and_congr_right fun _ => eq_comm
  · rintro before k x after rfl hlast
    have hkey : string k ∉ Entries.keys (textEntries after) := mt string_mem_keys_iff.1 hlast
    have hpairs : textEntries (before ++ (k, x) :: after) =
        textEntries before ++ (string k, x) :: textEntries after := List.map_append
    rw [← textEntries, member?_ofPairs]
    rw [hpairs] at hnodup ⊢
    have hmem := Entries.mem_ofList_of_last (textEntries before) (e := (string k, x)) hkey
    refine ⟨hmem, Entries.lookup?_of_mem hnodup hmem, fun l hl => ?_⟩
    exact Entries.sublist_keys_ofList _ (e := (string k, x)) hkey (string_mem_keys_iff.2 hl)
  · rw [member?_ofPairs, Entries.lookup?_ofList_eq_none_iff, string_mem_keys_iff]
    exact hk

/-- A key is written again, and another numeral of the same number is no key. -/
theorem records_keep_last_writes_numeral :
    let pairs := [("1", integer 1), ("x", null), ("1", integer 2)]
    ofPairs pairs = hash [(string "x", null), (string "1", integer 2)] ∧
      (ofPairs pairs).member? "1" = some (integer 2) ∧
      Numeral.signed? 10 "01".toList = some 1 ∧ (ofPairs pairs).member? "01" = none := by
  intro pairs
  obtain ⟨es, hes, -, -, hlast, hother⟩ := records_keep_last_writes pairs
  have hagain := hlast [("1", integer 1), ("x", null)] "1" (integer 2) [] rfl (by decide)
  exact ⟨by decide +kernel, hagain.2.1, by decide +kernel, hother "01" (by decide)⟩

end Value

end MarkupTemplate

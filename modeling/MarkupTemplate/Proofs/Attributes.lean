import MarkupTemplate.Attributes
import Mathlib.Data.List.Induction

/-!
# Attributes set one by one

Attributes are determined by their names in order and by what each name has. Setting several of
them keeps the names that are there in their places and gives each the last value it was set to.

Results:
* `ext_get?`: the names and their values make up the attributes.
* `setAll_setAll`: setting the same names again overwrites the values.
* `entries_ofList`, `ofList_entries`: names that differ stay in the order they were set in.
* `exists_entries_ofList`: which of several entries of a name counts depends on the names alone.
* `setAll_mapValues`: values that are set where they stand keep their places.
-/

namespace MarkupTemplate.Attributes

/-! ## Attributes are names with values -/

theorem eq_of_entries {a b : Attributes} (h : a.entries = b.entries) : a = b := by
  cases a
  cases b
  cases h
  rfl

theorem entries_mapValues (f : String → String) (a : Attributes) :
    (a.mapValues f).entries = a.entries.map fun e => (e.1, f e.2) := rfl

theorem get?_of_mem {a : Attributes} {e : String × String} (h : e ∈ a.entries) :
    a.get? e.1 = some e.2 := by
  have hfind : ∀ es : List (String × String), (es.map Prod.fst).Nodup → e ∈ es →
      es.find? (·.1 = e.1) = some e := by
    intro es
    induction es with
    | nil => exact fun _ he => absurd he List.not_mem_nil
    | cons x es ih =>
      intro hn he
      rw [List.map_cons, List.nodup_cons] at hn
      rcases List.mem_cons.1 he with rfl | he
      · simp
      · have hx : ¬x.1 = e.1 := fun hx => hn.1 (hx ▸ List.mem_map_of_mem he)
        rw [List.find?_cons_of_neg (by simpa using hx), ih hn.2 he]
  unfold get?
  rw [hfind a.entries a.nodup h, Option.map_some]

theorem entries_eq_map (a : Attributes) :
    a.entries = a.names.map fun n => (n, (a.get? n).getD "") := by
  unfold names
  rw [List.map_map]
  refine (List.map_id' _).symm.trans (List.map_congr_left ?_)
  intro e he
  simp [get?_of_mem he]

/-- **Attributes are their names in order with what each has.** -/
theorem ext_get? {a b : Attributes} (hn : a.names = b.names) (hg : ∀ n, a.get? n = b.get? n) :
    a = b := by
  refine eq_of_entries ?_
  rw [entries_eq_map a, entries_eq_map b, hn]
  exact List.map_congr_left fun n _ => by rw [hg]

/-! ## Setting several -/

/-- The attributes after the given ones were set one by one. -/
def setAll (es : List (String × String)) (a : Attributes) : Attributes :=
  es.foldl (fun a e => a.set e.1 e.2) a

theorem setAll_cons (e : String × String) (es : List (String × String)) (a : Attributes) :
    a.setAll (e :: es) = (a.set e.1 e.2).setAll es := rfl

theorem ofList_eq_setAll (es : List (String × String)) : ofList es = empty.setAll es := rfl

theorem mem_names_setAll {es : List (String × String)} {a : Attributes} {n : String} :
    n ∈ (a.setAll es).names ↔ n ∈ es.map Prod.fst ∨ n ∈ a.names := by
  induction es generalizing a with
  | nil => simp [setAll]
  | cons e es ih =>
    rw [setAll_cons, ih, List.map_cons, List.mem_cons]
    by_cases he : e.1 ∈ a.names
    · rw [names_set_of_mem he]
      grind
    · rw [names_set_of_not_mem he, List.mem_append, List.mem_singleton]
      grind

theorem mem_names_ofList {es : List (String × String)} {n : String} :
    n ∈ (ofList es).names ↔ n ∈ es.map Prod.fst := by
  rw [ofList_eq_setAll, mem_names_setAll]
  exact or_iff_left List.not_mem_nil

theorem names_setAll_congr {es fs : List (String × String)} (h : es.map Prod.fst = fs.map Prod.fst)
    {a b : Attributes} (hab : a.names = b.names) : (a.setAll es).names = (b.setAll fs).names := by
  induction es generalizing fs a b with
  | nil =>
    obtain rfl : fs = [] := List.map_eq_nil_iff.1 h.symm
    exact hab
  | cons e es ih =>
    cases fs with
    | nil => cases h
    | cons f fs =>
      obtain ⟨hef, h⟩ := List.cons.inj h
      rw [setAll_cons, setAll_cons]
      refine ih h ?_
      by_cases he : e.1 ∈ a.names
      · rw [names_set_of_mem he, names_set_of_mem (hef ▸ hab ▸ he), hab]
      · rw [names_set_of_not_mem he, names_set_of_not_mem (hef ▸ hab ▸ he), hab, hef]

theorem names_setAll_of_subset {es : List (String × String)} {a : Attributes}
    (h : ∀ n ∈ es.map Prod.fst, n ∈ a.names) : (a.setAll es).names = a.names := by
  induction es generalizing a with
  | nil => rfl
  | cons e es ih =>
    have hset : (a.set e.1 e.2).names = a.names := names_set_of_mem (h e.1 (by simp)) e.2
    refine (ih fun n hn => ?_).trans hset
    rw [hset]
    exact h n (List.mem_cons_of_mem _ hn)

/-- An attribute has the last value that it was given. -/
theorem get?_setAll (es : List (String × String)) (a : Attributes) (n : String) :
    (a.setAll es).get? n = ((es.reverse.find? (·.1 = n)).map Prod.snd).or (a.get? n) := by
  induction es generalizing a with
  | nil => rfl
  | cons e es ih =>
    rw [setAll_cons, ih, List.reverse_cons, List.find?_append]
    by_cases he : e.1 = n
    · subst he
      cases es.reverse.find? (·.1 = e.1) <;> simp [get?_set_self]
    · rw [get?_set_ne a (fun h => he h.symm)]
      cases es.reverse.find? (·.1 = n) <;> simp [he]

/-- **Setting the same names again overwrites the values** and keeps the order. -/
theorem setAll_setAll {es fs : List (String × String)} (h : es.map Prod.fst = fs.map Prod.fst)
    (a : Attributes) : (a.setAll fs).setAll es = a.setAll es := by
  refine ext_get? ?_ fun n => ?_
  · rw [names_setAll_of_subset fun n hn => mem_names_setAll.2 (.inl (h ▸ hn)),
      names_setAll_congr h.symm rfl]
  · rw [get?_setAll, get?_setAll, get?_setAll]
    by_cases hn : n ∈ es.map Prod.fst
    · obtain ⟨e, he, rfl⟩ := List.mem_map.1 hn
      have : (es.reverse.find? (·.1 = e.1)).isSome :=
        List.find?_isSome.2 ⟨e, List.mem_reverse.2 he, by simp⟩
      obtain ⟨x, hx⟩ := Option.isSome_iff_exists.1 this
      rw [hx]
      rfl
    · have : fs.reverse.find? (·.1 = n) = none := List.find?_eq_none.2 fun f hf hfn => by
        obtain rfl : f.1 = n := by simpa using hfn
        exact hn (h ▸ List.mem_map_of_mem (List.mem_reverse.1 hf))
      rw [this]
      rfl

/-! ## Names that differ -/

theorem setEntry_append_of_not_mem {name : String} (value : String)
    {es : List (String × String)} (h : name ∉ es.map Prod.fst) (fs : List (String × String)) :
    setEntry name value (es ++ fs) = es ++ setEntry name value fs := by
  induction es with
  | nil => rfl
  | cons e es ih =>
    rw [List.map_cons, List.mem_cons, not_or] at h
    rw [List.cons_append, setEntry, if_neg fun he => h.1 he.symm, ih h.2, List.cons_append]

/-- A name that comes later is not among those before it. -/
theorem not_mem_of_nodup_append {es fs : List (String × String)} {f : String × String}
    (h : ((es ++ f :: fs).map Prod.fst).Nodup) : f.1 ∉ es.map Prod.fst := by
  intro hm
  rw [List.map_append, List.nodup_append] at h
  exact h.2.2 _ hm f.1 (by simp) rfl

/-- Attributes with different names are there in the order in which they were set. -/
theorem entries_ofList {es : List (String × String)} (h : (es.map Prod.fst).Nodup) :
    (ofList es).entries = es := by
  suffices ∀ a : Attributes, ((a.entries ++ es).map Prod.fst).Nodup →
      (a.setAll es).entries = a.entries ++ es from this empty h
  clear h
  induction es with
  | nil => exact fun a _ => (List.append_nil _).symm
  | cons e es ih =>
    intro a h
    have hset : (a.set e.1 e.2).entries = a.entries ++ [e] := by
      have := setEntry_append_of_not_mem e.2 (not_mem_of_nodup_append h) []
      rwa [List.append_nil] at this
    have := ih (a.set e.1 e.2) (by rw [hset]; simpa using h)
    rw [hset, List.append_assoc] at this
    exact this

theorem ofList_entries (a : Attributes) : ofList a.entries = a :=
  eq_of_entries (entries_ofList a.nodup)

/-- Which entry of a name counts depends on the names alone, and not on how values are written. -/
theorem exists_entries_ofList {β : Type} (es : List (String × β)) :
    ∃ es' : List (String × β), (∀ e ∈ es', e ∈ es) ∧ ∀ f : β → String,
      (ofList (es.map fun e => (e.1, f e.2))).entries = es'.map fun e => (e.1, f e.2) := by
  -- one entry is set among those so far
  have hset : ∀ (e : String × β) (es : List (String × β)), ∃ es' : List (String × β),
      (∀ x ∈ es', x = e ∨ x ∈ es) ∧ ∀ f : β → String,
        setEntry e.1 (f e.2) (es.map fun e => (e.1, f e.2)) = es'.map fun e => (e.1, f e.2) := by
    intro e es
    induction es with
    | nil => exact ⟨[e], fun x hx => .inl (List.mem_singleton.1 hx), fun f => rfl⟩
    | cons x es ih =>
      by_cases hx : x.1 = e.1
      · refine ⟨e :: es, fun y hy => (List.mem_cons.1 hy).imp_right (List.mem_cons_of_mem x), ?_⟩
        intro f
        rw [List.map_cons, setEntry, if_pos hx, List.map_cons]
      · obtain ⟨es', hmem, hmap⟩ := ih
        refine ⟨x :: es', fun y hy => ?_, fun f => ?_⟩
        · rcases List.mem_cons.1 hy with rfl | hy
          · exact .inr List.mem_cons_self
          · exact (hmem y hy).imp_right (List.mem_cons_of_mem x)
        · rw [List.map_cons, setEntry, if_neg hx, hmap f, List.map_cons]
  induction es using List.reverseRecOn with
  | nil => exact ⟨[], fun _ h => h, fun f => rfl⟩
  | append_singleton es e ih =>
    obtain ⟨es₁, hmem₁, hmap₁⟩ := ih
    obtain ⟨es₂, hmem₂, hmap₂⟩ := hset e es₁
    refine ⟨es₂, fun x hx => ?_, fun f => ?_⟩
    · rcases hmem₂ x hx with rfl | hx
      · simp
      · exact List.mem_append_left _ (hmem₁ x hx)
    · rw [← hmap₂ f, ← hmap₁ f, List.map_append, ofList, List.foldl_append]
      rfl

theorem entries_setAll (es : List (String × String)) (a : Attributes) :
    (a.setAll es).entries = es.foldl (fun acc e => setEntry e.1 e.2 acc) a.entries := by
  induction es generalizing a with
  | nil => rfl
  | cons e es ih => exact ih (a.set e.1 e.2)

/-- Setting values one after the other changes each in its place, whatever was there. -/
theorem foldl_setEntry (p : String → Bool) (x y : String → String)
    (es fs : List (String × String)) (h : ((es ++ fs).map Prod.fst).Nodup) :
    ((fs.filter (p ·.2)).map fun a => (a.1, x a.2)).foldl (fun acc e => setEntry e.1 e.2 acc)
        (es ++ fs.map fun a => (a.1, if p a.2 then y a.2 else a.2)) =
      es ++ fs.map fun a => (a.1, if p a.2 then x a.2 else a.2) := by
  induction fs generalizing es with
  | nil => rfl
  | cons f fs ih =>
    have hnext : ∀ s : String, (((es ++ [(f.1, s)]) ++ fs).map Prod.fst).Nodup := by
      intro s
      simpa using h
    by_cases hp : p f.2
    · have := ih (es ++ [(f.1, x f.2)]) (hnext _)
      simp only [List.append_assoc, List.cons_append, List.nil_append] at this
      rw [List.filter_cons, if_pos hp, List.map_cons, List.map_cons, List.foldl_cons,
        setEntry_append_of_not_mem _ (not_mem_of_nodup_append h)]
      simpa [setEntry, hp] using this
    · have := ih (es ++ [f]) (hnext _)
      simp only [List.append_assoc, List.cons_append, List.nil_append] at this
      rw [List.filter_cons, if_neg hp]
      simpa [hp] using this

/-- **Values that are set where they stand** keep their places, and so do the others. -/
theorem setAll_mapValues (p : String → Bool) (x y : String → String) (a : Attributes) :
    (a.mapValues fun v => if p v then y v else v).setAll
        ((a.entries.filter (p ·.2)).map fun e => (e.1, x e.2)) =
      a.mapValues fun v => if p v then x v else v := by
  refine eq_of_entries ?_
  rw [entries_setAll]
  exact foldl_setEntry p x y [] a.entries a.nodup

/-- What is set may be there already. -/
theorem setAll_filter (p : String → Bool) (x : String → String) (a : Attributes) :
    a.setAll ((a.entries.filter (p ·.2)).map fun e => (e.1, x e.2)) =
      a.mapValues fun v => if p v then x v else v := by
  have hsame : (a.mapValues fun v => if p v then v else v) = a :=
    eq_of_entries (by simp [entries_mapValues])
  have hset := setAll_mapValues p x (fun v => v) a
  rwa [hsame] at hset

end MarkupTemplate.Attributes

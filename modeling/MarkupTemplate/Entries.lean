/-!
# Entries in writing order

A list of keys with what they hold, in the order in which the keys were last written: writing a
key drops its old entry and puts the new one at the end.

Results:
* `isSome_lookup?_iff`: the keys are what holds something.
* `keys_insert`: writing a key moves it to the end and leaves the other keys in their order.
* `lookup?_insert_self`, `lookup?_insert_ne`: the key holds what was written, the others what they
  held.
* `nodup_keys_insert`, `nodup_keys_ofList`: no key is there twice.
-/

namespace MarkupTemplate.Entries

universe u v

variable {κ : Type u} {ν : Type v} [DecidableEq κ]

/-- The entries after writing `x` under `k`. -/
def insert (es : List (κ × ν)) (k : κ) (x : ν) : List (κ × ν) :=
  es.filter (·.1 ≠ k) ++ [(k, x)]

/-- The entries after writing the given ones, one by one. -/
def ofList (written : List (κ × ν)) : List (κ × ν) :=
  written.foldl (fun es e => insert es e.1 e.2) []

/-- What `k` holds. -/
def lookup? (es : List (κ × ν)) (k : κ) : Option ν :=
  (es.find? (·.1 = k)).map Prod.snd

/-- The entries without that of `k`. -/
def erase (es : List (κ × ν)) (k : κ) : List (κ × ν) :=
  es.filter (·.1 ≠ k)

/-- The keys in order. -/
def keys (es : List (κ × ν)) : List κ :=
  es.map Prod.fst

theorem mem_insert {es : List (κ × ν)} {k : κ} {x : ν} {e : κ × ν} :
    e ∈ insert es k x ↔ e ∈ es ∧ e.1 ≠ k ∨ e = (k, x) := by
  simp [insert]

theorem isSome_lookup?_iff {es : List (κ × ν)} {k : κ} :
    (lookup? es k).isSome = true ↔ k ∈ keys es := by
  simp [lookup?, keys]

omit [DecidableEq κ] in
/-- Dropping entries by their keys drops these keys. -/
theorem keys_filter (es : List (κ × ν)) (p : κ → Bool) :
    keys (es.filter fun e => p e.1) = (keys es).filter p := by
  rw [keys, keys, List.filter_map]
  rfl

theorem keys_insert (es : List (κ × ν)) (k : κ) (x : ν) :
    keys (insert es k x) = (keys es).filter (· ≠ k) ++ [k] := by
  simp [insert, keys, List.filter_map, Function.comp_def]

@[simp] theorem lookup?_insert_self (es : List (κ × ν)) (k : κ) (x : ν) :
    lookup? (insert es k x) k = some x := by
  have h : (es.filter (·.1 ≠ k)).find? (·.1 = k) = none := by
    rw [List.find?_eq_none]
    intro e he
    simpa using (List.mem_filter.1 he).2
  rw [lookup?, insert, List.find?_append, h]
  simp

/-- Dropping other keys leaves what `k` holds. -/
theorem lookup?_filter (es : List (κ × ν)) {p : κ → Bool} {k : κ} (hk : p k = true) :
    lookup? (es.filter fun e => p e.1) k = lookup? es k := by
  rw [lookup?, lookup?, List.find?_filter]
  congr 2
  funext e
  by_cases he : e.1 = k
  · simp [he, hk]
  · simp [he]

theorem lookup?_insert_ne (es : List (κ × ν)) {k l : κ} (x : ν) (h : l ≠ k) :
    lookup? (insert es k x) l = lookup? es l := by
  have hl := lookup?_filter es (p := fun x => decide (x ≠ k)) (decide_eq_true h)
  rw [lookup?] at hl
  rw [← hl, lookup?, insert, List.find?_append]
  simp [h.symm]

theorem nodup_keys_insert {es : List (κ × ν)} (h : (keys es).Nodup) (k : κ) (x : ν) :
    (keys (insert es k x)).Nodup := by
  rw [keys_insert, List.nodup_append]
  refine ⟨h.filter _, by simp, ?_⟩
  intro a ha b hb
  rw [List.mem_singleton.1 hb]
  simpa using (List.mem_filter.1 ha).2

theorem nodup_keys_ofList (written : List (κ × ν)) : (keys (ofList written)).Nodup := by
  suffices ∀ es : List (κ × ν), (keys es).Nodup →
      (keys (written.foldl (fun es e => insert es e.1 e.2) es)).Nodup from
    this [] (by simp [keys])
  induction written with
  | nil => exact fun _ h => h
  | cons e written ih => exact fun es h => ih _ (nodup_keys_insert h e.1 e.2)

end MarkupTemplate.Entries

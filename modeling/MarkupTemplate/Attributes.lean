/-!
# Attributes

The attributes of an element: names with their values, in the order in which the names first
appeared. No name appears twice.

Results:
* `get?_set_self`, `get?_set_ne`: an attribute has the value it was last given.
* `names_set_of_mem`: setting an attribute that is there keeps every name in its place.
-/

namespace MarkupTemplate

/-- Names with values, each name once. -/
structure Attributes where
  /-- The attributes in order. -/
  entries : List (String × String)
  /-- No name appears twice. -/
  nodup : (entries.map Prod.fst).Nodup
  deriving DecidableEq

namespace Attributes

/-- No attribute. -/
def empty : Attributes := ⟨[], by simp⟩

instance : Inhabited Attributes := ⟨empty⟩

/-- The names in order. -/
def names (a : Attributes) : List String :=
  a.entries.map Prod.fst

/-- The value of an attribute. -/
def get? (a : Attributes) (name : String) : Option String :=
  (a.entries.find? (·.1 = name)).map Prod.snd

/-- The entries with `value` for `name`, in its place or at the end. -/
def setEntry (name value : String) : List (String × String) → List (String × String)
  | [] => [(name, value)]
  | e :: es => if e.1 = name then (name, value) :: es else e :: setEntry name value es

theorem names_setEntry (name value : String) (es : List (String × String)) :
    (setEntry name value es).map Prod.fst =
      if name ∈ es.map Prod.fst then es.map Prod.fst else es.map Prod.fst ++ [name] := by
  induction es with
  | nil => simp [setEntry]
  | cons e es ih =>
    by_cases h : e.1 = name
    · simp [setEntry, h]
    · have h' : ¬name = e.1 := fun hn => h hn.symm
      simp only [setEntry, h, if_false, List.map_cons, ih, List.mem_cons, h', false_or]
      split <;> simp

/-- The attributes with `value` for `name`: an attribute that is there keeps its place, a new one
comes last. -/
def set (a : Attributes) (name value : String) : Attributes where
  entries := setEntry name value a.entries
  nodup := by
    rw [names_setEntry]
    split
    · exact a.nodup
    · next h =>
      rw [List.nodup_append]
      refine ⟨a.nodup, by simp, ?_⟩
      rintro x hx y hy rfl
      exact h (List.mem_singleton.1 hy ▸ hx)

/-- The attributes set one by one. -/
def ofList (es : List (String × String)) : Attributes :=
  es.foldl (fun a e => a.set e.1 e.2) empty

/-- Every value changed, the names kept. -/
def mapValues (f : String → String) (a : Attributes) : Attributes where
  entries := a.entries.map fun e => (e.1, f e.2)
  nodup := by
    have h : (a.entries.map fun e => (e.1, f e.2)).map Prod.fst = a.entries.map Prod.fst := by
      simp
    exact h ▸ a.nodup

@[simp] theorem names_mapValues (f : String → String) (a : Attributes) :
    (a.mapValues f).names = a.names := by
  simp [names, mapValues]

theorem names_set_of_mem {a : Attributes} {name : String} (h : name ∈ a.names) (value : String) :
    (a.set name value).names = a.names := by
  simp only [names, set] at h ⊢
  rw [names_setEntry, if_pos h]

theorem names_set_of_not_mem {a : Attributes} {name : String} (h : name ∉ a.names)
    (value : String) : (a.set name value).names = a.names ++ [name] := by
  simp only [names, set] at h ⊢
  rw [names_setEntry, if_neg h]

@[simp] theorem get?_set_self (a : Attributes) (name value : String) :
    (a.set name value).get? name = some value := by
  have h : ∀ es, (setEntry name value es).find? (·.1 = name) = some (name, value) := by
    intro es
    induction es with
    | nil => simp [setEntry]
    | cons e es ih => by_cases h : e.1 = name <;> simp [setEntry, h, ih]
  simp only [get?, set, h, Option.map_some]

theorem get?_set_ne (a : Attributes) {name other : String} (h : other ≠ name) (value : String) :
    (a.set name value).get? other = a.get? other := by
  have hn : ∀ es, (setEntry name value es).find? (·.1 = other) =
      es.find? (·.1 = other) := by
    intro es
    induction es with
    | nil => simp [setEntry, h.symm]
    | cons e es ih =>
      by_cases he : e.1 = name
      · simp [setEntry, he, h.symm]
      · by_cases ho : e.1 = other
        · simp [setEntry, ho, h]
        · simp [setEntry, he, ho, ih]
  simp only [get?, set, hn]

end Attributes

end MarkupTemplate

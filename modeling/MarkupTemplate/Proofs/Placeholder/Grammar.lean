import MarkupTemplate.Placeholder
import MarkupTemplate.Proofs.Text

/-!
# The grammar of placeholders

A `Placeholder` says how a placeholder falls into its parts: the blanks inside the braces and the
names of the path between them. So it can be written down as exactly one text, and nothing in it
refers to reading.

Results:
* `placeholder?_eq_some_iff`: a placeholder is read where one is written.
* `written_inj`: a text starts with one placeholder at most.
-/

namespace MarkupTemplate

open Text

/-- A placeholder with its parts. -/
structure Placeholder where
  /-- The blanks before the path. -/
  left : List Char
  /-- The names of the path. -/
  names : List (List Char)
  /-- The blanks after the path. -/
  right : List Char
  /-- They are blanks. -/
  blank_left : ∀ c ∈ left, isBlank c = true
  /-- The path has a name at least. -/
  names_ne_nil : names ≠ []
  /-- They are names. -/
  isName_names : ∀ s ∈ names, Placeholder.isName s = true
  /-- They are blanks. -/
  blank_right : ∀ c ∈ right, isBlank c = true

namespace Placeholder

/-- The names with single dots between them. -/
def path (p : Placeholder) : List Char :=
  ['.'].intercalate p.names

/-- The placeholder as it is written. -/
def written (p : Placeholder) : List Char :=
  '{' :: (p.left ++ (p.path ++ (p.right ++ ['}'])))

/-! ## Characters -/

theorem isNameChar_of_isNameStart {c : Char} (h : isNameStart c = true) : isNameChar c = true := by
  simp only [isNameStart, isNameChar, Char.isAlphanum, Bool.or_eq_true] at h ⊢
  rcases h with (h | h) | h
  · exact .inl (.inl (.inl h))
  · exact .inl (.inr h)
  · exact .inr h

/-- The characters of paths are visible ASCII characters. -/
theorem toNat_of_isPathChar {c : Char} (h : isPathChar c = true) :
    0x24 ≤ c.toNat ∧ c.toNat ≤ 0x7a := by
  simp only [isPathChar, isNameChar, Bool.or_eq_true, decide_eq_true_eq] at h
  rcases h with ((h | rfl) | rfl) | rfl
  · have := toNat_of_isAlphanum h
    omega
  all_goals decide

theorem isBlank_of_isPathChar {c : Char} (h : isPathChar c = true) : isBlank c = false := by
  have hrange := toNat_of_isPathChar h
  exact isBlank_of_visible (by omega) (by omega)

theorem isPathChar_of_isBlank {c : Char} (h : isBlank c = true) : isPathChar c = false :=
  Bool.eq_false_iff.2 fun hc => by rw [isBlank_of_isPathChar hc] at h; cases h

theorem isNameChar_of_mem {s : List Char} (hs : isName s = true) {c : Char} (hc : c ∈ s) :
    isNameChar c = true := by
  cases s with
  | nil => cases hc
  | cons d s =>
    obtain ⟨hstart, hrest⟩ := Bool.and_eq_true_iff.1 hs
    rcases List.mem_cons.1 hc with rfl | hc
    · exact isNameChar_of_isNameStart hstart
    · exact List.all_eq_true.1 hrest c hc

theorem dot_not_mem {s : List Char} (hs : isName s = true) : '.' ∉ s := fun hc =>
  absurd (isNameChar_of_mem hs hc) (by decide)

/-! ## Paths -/

section

variable (p : Placeholder)

theorem segments_path : segments p.path = p.names :=
  segments_intercalate p.names_ne_nil fun s hs => dot_not_mem (p.isName_names s hs)

theorem isPath_path : isPath p.path = true := by
  rw [isPath, segments_path]
  exact List.all_eq_true.2 p.isName_names

theorem isPathChar_of_mem_path {c : Char} (hc : c ∈ p.path) : isPathChar c = true := by
  have hall : ∀ names : List (List Char), (∀ s ∈ names, isName s = true) →
      ∀ c ∈ ['.'].intercalate names, isPathChar c = true := by
    intro names
    induction names with
    | nil => exact fun _ c hc => absurd hc List.not_mem_nil
    | cons s names ih =>
      intro hs c hc
      have hname : ∀ c ∈ s, isPathChar c = true := fun c hc =>
        Bool.or_eq_true_iff.2 (.inl (isNameChar_of_mem (hs s List.mem_cons_self) hc))
      cases names with
      | nil => exact hname c (by simpa using hc)
      | cons t names =>
        rw [List.intercalate_cons_cons, List.mem_append, List.mem_append,
          List.mem_singleton] at hc
        rcases hc with (hc | rfl) | hc
        · exact hname c hc
        · decide
        · exact ih (fun x hx => hs x (List.mem_cons_of_mem s hx)) c hc
  exact hall p.names p.isName_names c hc

theorem path_ne_nil : p.path ≠ [] := by
  intro h
  have hpath := p.isPath_path
  rw [h] at hpath
  cases hpath

/-- Blanks end where the path begins. -/
theorem stops_path (rest : List Char) : Stops isBlank (p.path ++ rest) := by
  obtain ⟨c, cs, h⟩ := List.exists_cons_of_ne_nil p.path_ne_nil
  rw [h]
  exact stops_cons (isBlank_of_isPathChar (p.isPathChar_of_mem_path (h ▸ List.mem_cons_self))) _

/-- The path ends where blanks or the closing brace begin. -/
theorem stops_right (rest : List Char) : Stops isPathChar (p.right ++ '}' :: rest) :=
  stops_append (fun c hc => isPathChar_of_isBlank (p.blank_right c hc))
    (stops_cons (by decide) rest)

/-! ## Reading -/

theorem written_append (rest : List Char) :
    p.written ++ rest = '{' :: (p.left ++ (p.path ++ (p.right ++ '}' :: rest))) := by
  simp [written]

theorem written_ne_nil : p.written ≠ [] := List.cons_ne_nil _ _

/-- **A placeholder is read** as it is written. -/
theorem placeholder?_written (rest : List Char) :
    placeholder? (p.written ++ rest) = some (p.path, rest) := by
  have hclose : Stops isBlank ('}' :: rest) := stops_cons (by decide) rest
  have hpath : ∀ c ∈ p.path, isPathChar c = true := fun c => p.isPathChar_of_mem_path
  rw [written_append, placeholder?]
  simp only [dropWhile_append_of_all p.blank_left (p.stops_path _),
    dropWhile_append_of_all hpath (p.stops_right rest),
    takeWhile_append_of_all hpath (p.stops_right rest),
    dropWhile_append_of_all p.blank_right hclose, p.isPath_path, if_true]

end

/-- What is read is a placeholder. -/
theorem exists_of_placeholder? {cs path rest : List Char}
    (h : placeholder? cs = some (path, rest)) :
    ∃ p : Placeholder, p.path = path ∧ cs = p.written ++ rest := by
  unfold placeholder? at h
  split at h
  case h_2 => cases h
  next cs =>
    dsimp only at h
    split at h
    case h_2 => cases h
    next rest' hclose =>
      split at h
      case isFalse => cases h
      next hpath =>
        obtain ⟨rfl, rfl⟩ := Prod.mk.inj (Option.some.inj h)
        let inner := cs.dropWhile isBlank
        let after := inner.dropWhile isPathChar
        refine ⟨⟨cs.takeWhile isBlank, segments (inner.takeWhile isPathChar),
          after.takeWhile isBlank, fun c hc => List.mem_takeWhile_imp hc, segments_ne_nil _,
          List.all_eq_true.1 hpath, fun c hc => List.mem_takeWhile_imp hc⟩,
          intercalate_segments _, ?_⟩
        rw [written_append, path, intercalate_segments, ← hclose, List.takeWhile_append_dropWhile,
          List.takeWhile_append_dropWhile, List.takeWhile_append_dropWhile]

/-- **A placeholder is read where one is written**, and nowhere else. -/
theorem placeholder?_eq_some_iff {cs path rest : List Char} :
    placeholder? cs = some (path, rest) ↔
      ∃ p : Placeholder, p.path = path ∧ cs = p.written ++ rest := by
  constructor
  · exact exists_of_placeholder?
  · rintro ⟨p, rfl, rfl⟩
    exact p.placeholder?_written rest

/-- **A text starts with one placeholder at most.** -/
theorem written_inj {p p' : Placeholder} {rest rest' : List Char}
    (h : p.written ++ rest = p'.written ++ rest') : p = p' ∧ rest = rest' := by
  have hread := p.placeholder?_written rest
  rw [h, p'.placeholder?_written] at hread
  obtain ⟨hpath, rfl⟩ := Prod.mk.inj (Option.some.inj hread)
  have hnames : p.names = p'.names := by rw [← segments_path, ← hpath, segments_path]
  have hinner := (List.cons.inj (List.append_cancel_right h)).2
  have hleft : p.left = p'.left := by
    rw [← takeWhile_append_of_all p.blank_left (p.stops_path _), hinner,
      takeWhile_append_of_all p'.blank_left (p'.stops_path _)]
  rw [hleft, hpath, List.append_cancel_left_eq, List.append_cancel_left_eq,
    List.append_cancel_right_eq] at hinner
  cases p
  cases p'
  cases hleft
  cases hnames
  cases hinner
  exact ⟨rfl, rfl⟩

end Placeholder

end MarkupTemplate

/-!
# Entities

Characters that markup uses for itself are written as entities. Texts and attribute values each
escape the characters that would end them; reading decodes every entity it knows and leaves any
other ampersand alone.

Results:
* `decode_escapeText`, `decode_escapeValue`: what is escaped is read back.
* `not_mem_escapeText`, `not_mem_escapeValue`: an escaped text has no character that ends it.
-/

namespace MarkupTemplate.Markup

/-- The text with its entities decoded. -/
def decode : List Char → List Char
  | [] => []
  | '&' :: 'a' :: 'm' :: 'p' :: ';' :: cs => '&' :: decode cs
  | '&' :: 'l' :: 't' :: ';' :: cs => '<' :: decode cs
  | '&' :: 'g' :: 't' :: ';' :: cs => '>' :: decode cs
  | '&' :: 'q' :: 'u' :: 'o' :: 't' :: ';' :: cs => '"' :: decode cs
  | '&' :: 'a' :: 'p' :: 'o' :: 's' :: ';' :: cs => '\'' :: decode cs
  | '&' :: '#' :: '3' :: '9' :: ';' :: cs => '\'' :: decode cs
  | c :: cs => c :: decode cs

/-- A character in a text. -/
def escapeTextChar (c : Char) : List Char :=
  if c = '&' then ['&', 'a', 'm', 'p', ';']
  else if c = '<' then ['&', 'l', 't', ';']
  else if c = '>' then ['&', 'g', 't', ';']
  else [c]

/-- A character in an attribute value between double quotes. -/
def escapeValueChar (c : Char) : List Char :=
  if c = '&' then ['&', 'a', 'm', 'p', ';']
  else if c = '"' then ['&', 'q', 'u', 'o', 't', ';']
  else [c]

/-- A text as it is written. -/
def escapeText (cs : List Char) : List Char :=
  cs.flatMap escapeTextChar

/-- An attribute value as it is written. -/
def escapeValue (cs : List Char) : List Char :=
  cs.flatMap escapeValueChar

theorem decode_cons {c : Char} (h : c ≠ '&') (cs : List Char) :
    decode (c :: cs) = c :: decode cs := by
  rw [decode] <;> exact fun _ hc => absurd hc h

theorem decode_escapeText (cs rest : List Char) :
    decode (escapeText cs ++ rest) = cs ++ decode rest := by
  induction cs with
  | nil => rfl
  | cons c cs ih =>
    simp only [escapeText, List.flatMap_cons, List.append_assoc] at ih ⊢
    by_cases h₁ : c = '&'
    · simp [escapeTextChar, h₁, decode, ih]
    · by_cases h₂ : c = '<'
      · simp [escapeTextChar, h₂, decode, ih]
      · by_cases h₃ : c = '>'
        · simp [escapeTextChar, h₃, decode, ih]
        · simp [escapeTextChar, h₁, h₂, h₃, decode_cons, ih]

theorem decode_escapeValue (cs rest : List Char) :
    decode (escapeValue cs ++ rest) = cs ++ decode rest := by
  induction cs with
  | nil => rfl
  | cons c cs ih =>
    simp only [escapeValue, List.flatMap_cons, List.append_assoc] at ih ⊢
    by_cases h₁ : c = '&'
    · simp [escapeValueChar, h₁, decode, ih]
    · by_cases h₂ : c = '"'
      · simp [escapeValueChar, h₂, decode, ih]
      · simp [escapeValueChar, h₁, h₂, decode_cons, ih]

theorem not_mem_escapeText (cs : List Char) : '<' ∉ escapeText cs := by
  simp only [escapeText, List.mem_flatMap, not_exists, not_and]
  intro c _ hc
  unfold escapeTextChar at hc
  split at hc
  · simp at hc
  · split at hc
    · simp at hc
    · next h =>
      split at hc
      · simp at hc
      · exact h (List.mem_singleton.1 hc).symm

theorem not_mem_escapeValue (cs : List Char) : '"' ∉ escapeValue cs := by
  simp only [escapeValue, List.mem_flatMap, not_exists, not_and]
  intro c _ hc
  unfold escapeValueChar at hc
  split at hc
  · simp at hc
  · split at hc
    · simp at hc
    · next h => exact h (List.mem_singleton.1 hc).symm

end MarkupTemplate.Markup

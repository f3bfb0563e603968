/-!
# Pieces of text

A text is cut at every occurrence of a separator. There is one piece more than there are separators,
so pieces may be empty, and joining them with the separator yields the text again.
-/

namespace CallDispatch.Text

/-- Cut a text at every character of a kind. -/
def splitWhere (separates : Char → Bool) : List Char → List (List Char)
  | [] => [[]]
  | c :: rest =>
    if separates c then [] :: splitWhere separates rest
    else match splitWhere separates rest with
      | piece :: pieces => (c :: piece) :: pieces
      | [] => [[c]]

/-- Cut a text at every occurrence of a character. -/
def splitAt (separator : Char) (s : List Char) : List (List Char) :=
  splitWhere (· == separator) s

theorem splitWhere_ne_nil (separates : Char → Bool) (s : List Char) :
    splitWhere separates s ≠ [] := by
  induction s with
  | nil => simp [splitWhere]
  | cons c rest ih =>
    rw [splitWhere]
    split
    · simp
    · split <;> simp

/-- A text without separators is its own only piece. -/
theorem splitWhere_of_none {separates : Char → Bool} {s : List Char}
    (h : s.all (!separates ·) = true) : splitWhere separates s = [s] := by
  induction s with
  | nil => rfl
  | cons c rest ih =>
    simp only [List.all_cons, Bool.and_eq_true, Bool.not_eq_true'] at h
    simp [splitWhere, h.1, ih (by simpa using h.2)]

/-- Pieces are cut one after the other. -/
theorem splitWhere_append_cons {separates : Char → Bool} {s : List Char} {c : Char}
    (h : s.all (!separates ·) = true) (hc : separates c = true) (rest : List Char) :
    splitWhere separates (s ++ c :: rest) = s :: splitWhere separates rest := by
  induction s with
  | nil => simp [splitWhere, hc]
  | cons a tail ih =>
    simp only [List.all_cons, Bool.and_eq_true, Bool.not_eq_true'] at h
    simp [splitWhere, h.1, ih (by simpa using h.2)]

end CallDispatch.Text

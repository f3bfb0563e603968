/-!
# Blank characters

A character is blank when Unicode gives it the property `White_Space`. Texts that arrive over a wire
or on a command line are trimmed of blanks at both ends before they are read.
-/

namespace CallDispatch.Text

/-- The characters with the Unicode property `White_Space`. -/
def isBlank (c : Char) : Bool :=
  let n := c.toNat
  (0x09 ≤ n && n ≤ 0x0D) || n == 0x20 || n == 0x85 || n == 0xA0 || n == 0x1680 ||
    (0x2000 ≤ n && n ≤ 0x200A) || n == 0x2028 || n == 0x2029 || n == 0x202F || n == 0x205F ||
    n == 0x3000

/-- A text without its trailing blanks. -/
def trimEnd : List Char → List Char
  | [] => []
  | c :: rest =>
    match trimEnd rest with
    | [] => if isBlank c then [] else [c]
    | kept => c :: kept

/-- A text without the blanks at either end. -/
def trim (s : List Char) : List Char :=
  trimEnd (s.dropWhile isBlank)

theorem trimEnd_append_blank (s : List Char) {c : Char} (h : isBlank c = true) :
    trimEnd (s ++ [c]) = trimEnd s := by
  induction s with
  | nil => simp [trimEnd, h]
  | cons a rest ih => simp [trimEnd, ih]

/-- Nothing is cut from a text that ends in a character that is not blank. -/
theorem trimEnd_of_last (s : List Char) {c : Char} (h : isBlank c = false) :
    trimEnd (s ++ [c]) = s ++ [c] := by
  induction s with
  | nil => simp [trimEnd, h]
  | cons a rest ih =>
    rw [List.cons_append, trimEnd, ih]
    cases rest <;> rfl

/-- Nothing is cut from a text without blanks. -/
theorem trim_of_none {s : List Char} (none : ∀ c ∈ s, isBlank c = false) : trim s = s := by
  cases s with
  | nil => rfl
  | cons c rest =>
    have first := none c List.mem_cons_self
    have last := none _ (List.getLast_mem (List.cons_ne_nil c rest))
    have whole := List.dropLast_concat_getLast (List.cons_ne_nil c rest)
    rw [trim, List.dropWhile_cons_of_neg (by simp [first]), ← whole]
    exact trimEnd_of_last _ last

end CallDispatch.Text

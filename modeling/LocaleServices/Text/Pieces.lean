/-!
  Texts cut at separators.

  `pieces isSep s` are the stretches of `s` between the separators, empty ones included, so
  there is always at least one. `truncations sep s` is `s` and what is left of it each time
  it is cut at its last separator; joining the first pieces of `s` again gives the same list
  (`truncations` of `A_B_C` are `A_B_C`, `A_B` and `A`).
-/

namespace LocaleServices.Text

/-! ## Pieces -/

/-- Puts a character in front of the first piece. -/
def prependTo (c : Char) : List (List Char) → List (List Char)
  | [] => [[c]]
  | p :: ps => (c :: p) :: ps

def pieceChars (isSep : Char → Bool) : List Char → List (List Char)
  | [] => [[]]
  | c :: r => if isSep c then [] :: pieceChars isSep r else prependTo c (pieceChars isSep r)

/-- The stretches of a text between its separators. -/
def pieces (isSep : Char → Bool) (s : String) : List String :=
  (pieceChars isSep s.toList).map String.ofList

theorem pieceChars_ne_nil (isSep : Char → Bool) (s : List Char) : pieceChars isSep s ≠ [] := by
  cases s with
  | nil => simp [pieceChars]
  | cons c r =>
    simp only [pieceChars]
    split
    · simp
    · cases pieceChars isSep r <;> simp [prependTo]

/-! ## Truncations -/

/-- What follows each separator, the longest first. -/
def remainders (sep : Char) : List Char → List (List Char)
  | [] => []
  | c :: r => if c = sep then r :: remainders sep r else remainders sep r

def truncatedChars (sep : Char) (s : List Char) : List (List Char) :=
  s :: (remainders sep s.reverse).map List.reverse

/-- A text and what is left of it each time it is cut at its last separator; nothing for
    the empty text. -/
def truncations (sep : Char) (s : String) : List String :=
  if s = "" then [] else (truncatedChars sep s.toList).map String.ofList

theorem length_remainders (sep : Char) (s : List Char) :
    (remainders sep s).length = s.count sep := by
  induction s with
  | nil => rfl
  | cons c r ih =>
    by_cases h : c = sep
    · simp [remainders, h, ih]
    · simp [remainders, h, ih]

@[simp] theorem truncations_empty (sep : Char) : truncations sep "" = [] := rfl

theorem truncations_of_ne {s : String} (sep : Char) (h : s ≠ "") :
    truncations sep s = (truncatedChars sep s.toList).map String.ofList := by
  simp [truncations, h]

/-- One truncation for the text itself and one for each separator. -/
theorem length_truncations {s : String} (sep : Char) (h : s ≠ "") :
    (truncations sep s).length = s.toList.count sep + 1 := by
  simp [truncations_of_ne sep h, truncatedChars, length_remainders]

end LocaleServices.Text

/-!
  White space and trimming.

  `blankCodes` lists the code points with the Unicode property White_Space, and `trim`
  drops such characters from both ends of a text. The middle is kept as it is.
-/

namespace LocaleServices.Text

/-- First and last code points of the runs of white space. -/
def blankCodes : List (Nat × Nat) :=
  [(0x9, 0xD), (0x20, 0x20), (0x85, 0x85), (0xA0, 0xA0), (0x1680, 0x1680),
   (0x2000, 0x200A), (0x2028, 0x2029), (0x202F, 0x202F), (0x205F, 0x205F), (0x3000, 0x3000)]

/-- Whether a code point lies in one of the runs. -/
def inRuns (runs : List (Nat × Nat)) (n : Nat) : Bool :=
  runs.any fun run => run.1 ≤ n && n ≤ run.2

def isBlank (c : Char) : Bool :=
  inRuns blankCodes c.toNat

/-- Drops the blanks in front. -/
def dropBlanks : List Char → List Char
  | [] => []
  | c :: r => if isBlank c then dropBlanks r else c :: r

/-- Drops the blanks at the end. -/
def dropFinalBlanks (s : List Char) : List Char :=
  (dropBlanks s.reverse).reverse

def trimChars (s : List Char) : List Char :=
  dropFinalBlanks (dropBlanks s)

/-- The text without the white space at its two ends. -/
def trim (s : String) : String :=
  String.ofList (trimChars s.toList)

@[simp] theorem toList_trim (s : String) : (trim s).toList = trimChars s.toList :=
  String.toList_ofList

theorem dropBlanks_of_head {c : Char} {r : List Char} (h : isBlank c = false) :
    dropBlanks (c :: r) = c :: r := by
  simp [dropBlanks, h]

/-- What is left of a text has no blank in front. -/
theorem dropBlanks_head {s r : List Char} {c : Char} (h : dropBlanks s = c :: r) :
    isBlank c = false := by
  induction s with
  | nil => simp [dropBlanks] at h
  | cons d t ih =>
    by_cases hd : isBlank d = true
    · exact ih (by simpa [dropBlanks, hd] using h)
    · have : d = c := by
        have := h
        simp [dropBlanks, hd] at this
        exact this.1
      subst this
      simpa using hd

end LocaleServices.Text

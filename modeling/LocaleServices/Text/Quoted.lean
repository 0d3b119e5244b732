import LocaleServices.Text.Graphic

/-!
  Quoted texts.

  `quoted s` stands between double quotes. A quote and a backslash get a backslash in front,
  the four usual controls their short names, and a character that is not `isGraphic` its code
  point in braces; everything else, a single quote included, stands for itself.
-/

namespace LocaleServices.Text

/-- The small hexadecimal digits of a number, without leading zeros. -/
def hexDigits (n : Nat) : List Char :=
  Nat.toDigits 16 n

/-- A character's code point, as in `\u{feff}`. -/
def byCode (c : Char) : List Char :=
  ['\\', 'u', '\x7b'] ++ hexDigits c.toNat ++ ['\x7d']

/-- What stands for a character inside the quotes. -/
def quotedChar (c : Char) : List Char :=
  if c = '"' then ['\\', '"']
  else if c = '\\' then ['\\', '\\']
  else if c = '\x00' then ['\\', '0']
  else if c = '\t' then ['\\', 't']
  else if c = '\r' then ['\\', 'r']
  else if c = '\n' then ['\\', 'n']
  else if isGraphic c then [c]
  else byCode c

def quotedChars (s : List Char) : List Char :=
  '"' :: s.flatMap quotedChar ++ ['"']

/-- The text between double quotes. -/
def quoted (s : String) : String :=
  String.ofList (quotedChars s.toList)

end LocaleServices.Text

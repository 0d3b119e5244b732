import LocaleServices.Demo.Document

/-!
  The command line: language, region and variant of the requested locale, each optional.

  Prints the report of the demonstration, or the first line about its failure. The preference
  variable is taken as bytes from the process's own environment block, since a decoded value no
  longer shows malformed text. Nothing else is read, no file of settings in particular, and
  messages are not printed.
-/

namespace LocaleServices

/-- The bytes up to the next zero byte, and the rest after it. -/
def splitEntries : List UInt8 → List (List UInt8)
  | [] => [[]]
  | b :: r =>
    match splitEntries r with
    | [] => [[b]]
    | e :: es => if b = 0 then [] :: e :: es else (b :: e) :: es

/-- The value of a variable in an environment block of entries such as `NAME=value`. -/
def variableIn (block : ByteArray) (name : String) : Option ByteArray :=
  let lead := (name ++ "=").toUTF8.toList
  (splitEntries block.toList).findSome? fun entry =>
    if lead.isPrefixOf entry then some ⟨(entry.drop lead.length).toArray⟩ else none

/-- The value of the preference variable as the process was given it. -/
def readVariable : IO (Option ByteArray) := do
  try
    return variableIn (← IO.FS.readBinFile "/proc/self/environ") Preference.variableName
  catch _ =>
    return (← IO.getEnv Preference.variableName).map String.toUTF8

end LocaleServices

open LocaleServices in
def main (args : List String) : IO UInt32 := do
  match Demo.run args (← readVariable) with
  | .ok report =>
    IO.println report.render
    return 0
  | .error e =>
    IO.eprintln (Demo.failureLine e)
    return 1

import LocaleServices.Demo.Report
import LocaleServices.Text.Decimal

/-!
  The report as a document of named fields in alphabetical order, two spaces a level.

  Texts are quoted with the escapes of JSON.
-/

namespace LocaleServices.Demo

/-! ## Values -/

inductive Scalar
  | nothing
  | text (s : String)
  | whole (n : Nat)
  | rate (x : Float)

inductive Value
  | scalar (s : Scalar)
  | list (items : List Scalar)
  | fields (items : List (String × Scalar))

/-! ## Text -/

/-- What stands for a character inside a JSON text. -/
def escape (c : Char) : String :=
  match c with
  | '"' => "\\\""
  | '\\' => "\\\\"
  | '\x08' => "\\b"
  | '\x0c' => "\\f"
  | '\n' => "\\n"
  | '\r' => "\\r"
  | '\t' => "\\t"
  | c =>
    if c.toNat < 0x20 then
      "\\u00" ++ (if c.toNat < 0x10 then "0" else "") ++ String.ofList (Text.hexDigits c.toNat)
    else c.toString

def jsonText (s : String) : String :=
  "\"" ++ String.join (s.toList.map escape) ++ "\""

namespace Scalar

def render : Scalar → String
  | nothing => "null"
  | text s => jsonText s
  | whole n => toString n
  | rate x => Text.decimal x

end Scalar

/-- Items between brackets, one a line, indented one level more than the brackets. -/
def bracketed (left right indent : String) (items : List String) : String :=
  match items with
  | [] => left ++ right
  | _ =>
    left ++ "\n" ++ ",\n".intercalate (items.map fun item => indent ++ "  " ++ item) ++ "\n" ++
      indent ++ right

def braced (indent : String) (items : List (String × String)) : String :=
  bracketed "\x7b" "\x7d" indent (items.map fun item => jsonText item.1 ++ ": " ++ item.2)

namespace Value

def render (indent : String) : Value → String
  | scalar s => s.render
  | list items => bracketed "[" "]" indent (items.map Scalar.render)
  | fields items => braced indent (items.map fun item => (item.1, item.2.render))

end Value

/-! ## The report -/

/-- Fields in alphabetical order of their names. -/
def alphabetical {α : Type} (items : List (String × α)) : List (String × α) :=
  items.mergeSort fun a b => a.1 ≤ b.1

/-- The name under which the hit rate is reported. -/
def hitRateTitle : String := "kinds_cache_hit_rate"

def countersValue (m : Counters) : Value :=
  .fields (alphabetical ((hitRateTitle, .rate m.hitRate) ::
    Counter.all.map fun c => (c.title, .whole (m.get c))))

namespace Report

def localeTexts (ls : List Locale) : Value :=
  .list (ls.map fun l => .text l.identifier)

def toFields (r : Report) : List (String × Value) :=
  [("adapter_preference", .list (r.preference.map fun k => .text k.title)),
   ("all_available_locales", localeTexts r.allAvailable),
   ("available_locales", localeTexts r.available),
   ("category", .scalar (.text r.category.name)),
   ("metrics", countersValue r.counters),
   ("names", .fields (alphabetical (r.names.map fun item =>
     (item.1, match item.2 with
       | some s => .text s
       | none => .nothing)))),
   ("requested", .scalar (.text r.requested.identifier))]

def render (r : Report) : String :=
  braced "" (r.toFields.map fun item => (item.1, item.2.render "  "))

end Report

end LocaleServices.Demo

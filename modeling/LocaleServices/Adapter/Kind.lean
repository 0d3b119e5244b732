import LocaleServices.Text.Blank
import LocaleServices.Text.Case
import LocaleServices.Text.Quoted

/-!
  Where an adapter's locale data come from.

  `ofText` reads a kind by one of its names, whatever their ASCII case and the white space
  around them; every kind is read back from its own name (`ofText_name`).
-/

namespace LocaleServices

inductive Kind
  | builtin
  | plugin
  | extendedData
  | host
deriving DecidableEq

/-- A text that names no kind. -/
structure UnknownKind where
  text : String
deriving DecidableEq

namespace UnknownKind

def message (e : UnknownKind) : String :=
  "unknown locale provider adapter: " ++ Text.quoted e.text

end UnknownKind

namespace Kind

/-- Every kind, in the order in which sources are asked for them. -/
def all : List Kind := [builtin, plugin, extendedData, host]

/-- The name that messages show. -/
def name : Kind → String
  | builtin => "BUILTIN"
  | plugin => "PLUGIN"
  | extendedData => "CLDR"
  | host => "HOST"

/-- The name that reports show. -/
def title : Kind → String
  | builtin => "Builtin"
  | plugin => "Plugin"
  | extendedData => "ExtendedData"
  | host => "Host"

/-- The names under which a kind is read, its own first. -/
def names : Kind → List String
  | builtin => ["BUILTIN", "JRE", "COMPAT"]
  | plugin => ["PLUGIN", "SPI"]
  | extendedData => ["CLDR", "EXTENDED"]
  | host => ["HOST"]

/-- The kind with this name in capital letters. -/
def ofName? (s : String) : Option Kind :=
  all.find? fun k => s ∈ k.names

def ofText (s : String) : Except UnknownKind Kind :=
  match ofName? (Text.upper (Text.trim s)) with
  | some k => .ok k
  | none => .error ⟨Text.trim s⟩

instance : ToString Kind := ⟨name⟩

theorem mem_all (k : Kind) : k ∈ all := by
  cases k <;> decide

theorem nodup_all : all.Nodup := by decide

theorem ofText_name (k : Kind) : ofText k.name = .ok k := by
  cases k <;> rfl

end Kind

end LocaleServices

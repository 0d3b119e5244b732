import LocaleServices.Adapter.Kind
import LocaleServices.Text.Pieces

/-!
  The order in which adapter kinds are consulted.

  A preference text names kinds between commas. `ofText` keeps the first mention of each
  known kind and puts the built-in one last when it is missing (`complete`); a text that
  names no known kind gives the usual order. `unknownIn` lists the pieces that were passed
  over. `ofVariable` reads the order from the value of an environment variable.
-/

namespace LocaleServices.Preference

/-- The order when nothing is configured. -/
def usual : List Kind := Kind.all

/-- First mentions only, the built-in kind last if it is not there. -/
def complete (kinds : List Kind) : List Kind :=
  let distinct := kinds.eraseDups
  if Kind.builtin ∈ distinct then distinct else distinct ++ [.builtin]

/-- The pieces of a preference text that are not blank. -/
def piecesOf (text : String) : List String :=
  ((Text.pieces (· = ',') text).map Text.trim).filter (· ≠ "")

/-- The kinds that a preference text names, in order, repetitions kept. -/
def knownIn (text : String) : List Kind :=
  (piecesOf text).filterMap fun piece => (Kind.ofText piece).toOption

/-- The pieces that name no kind. -/
def unknownIn (text : String) : List UnknownKind :=
  (piecesOf text).filterMap fun piece =>
    match Kind.ofText piece with
    | .ok _ => none
    | .error e => some e

/-- The order that a preference text asks for. -/
def ofText (text : String) : List Kind :=
  match knownIn text with
  | [] => usual
  | kinds => complete kinds

/-! ## Environment -/

/-- The environment variable that holds a preference text. -/
def variableName : String := "LOCALE_PROVIDERS"

/-- A variable whose bytes are no text. -/
inductive VariableError
  | notUnicode
deriving DecidableEq

def VariableError.message : VariableError → String
  | notUnicode => variableName ++ " is not valid unicode"

/-- The text of the variable, if it is set. -/
def variableText (value : Option ByteArray) : Except VariableError (Option String) :=
  match value with
  | none => .ok none
  | some bytes =>
    match String.fromUTF8? bytes with
    | some text => .ok (some text)
    | none => .error .notUnicode

/-- The order that the variable's value asks for; the usual one when it is not set. -/
def ofVariable (value : Option ByteArray) : Except VariableError (List Kind) :=
  (variableText value).map fun text => (text.map ofText).getD usual

/-- The pieces of the variable's value that name no kind. -/
def unknownInVariable (value : Option ByteArray) : List UnknownKind :=
  match variableText value with
  | .ok (some text) => unknownIn text
  | _ => []

/-! ## Laws -/

theorem mem_complete {kinds : List Kind} {k : Kind} :
    k ∈ complete kinds ↔ k ∈ kinds ∨ k = .builtin := by
  unfold complete
  simp only
  split
  · rename_i h
    rw [List.mem_eraseDups] at h ⊢
    exact ⟨Or.inl, fun h' => h'.elim id fun e => e ▸ h⟩
  · rw [List.mem_append, List.mem_eraseDups, List.mem_singleton]

theorem builtin_mem_complete (kinds : List Kind) : .builtin ∈ complete kinds :=
  mem_complete.mpr (Or.inr rfl)

theorem nodup_eraseDups (kinds : List Kind) : kinds.eraseDups.Nodup := by
  match kinds with
  | [] => exact List.nodup_nil
  | k :: ks =>
    rw [List.eraseDups_cons, List.nodup_cons, List.mem_eraseDups]
    exact ⟨by simp, nodup_eraseDups _⟩
termination_by kinds.length
decreasing_by exact Nat.lt_succ_of_le (List.length_filter_le _ _)

theorem nodup_complete (kinds : List Kind) : (complete kinds).Nodup := by
  unfold complete
  simp only
  split
  · exact nodup_eraseDups kinds
  · rename_i h
    refine List.nodup_append.mpr ⟨nodup_eraseDups kinds, by simp, ?_⟩
    intro a ha b hb he
    rw [List.mem_singleton.mp hb] at he
    exact h (he ▸ ha)

end LocaleServices.Preference

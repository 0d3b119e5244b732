import LocaleServices.Locale.Basic
import LocaleServices.Text.Pieces

/-!
  The locales to try for a request, the most specific first and the root last.

  `ordinaryChain` takes the given fields, then cuts the variant piece by piece, drops the
  region, starts over without the script, and ends with the language and the root. Bokmål
  interleaves each entry with its `no` twin, Nynorsk puts the `no` entries in front of the
  root, and Chinese fills in a script or a region first. Extensions of the request play no
  part.
-/

namespace LocaleServices.Locale

/-! ## The ordinary chain -/

/-- With a fixed language and script: the truncated variants, then the region alone. -/
def regionalCandidates (language script region variant : String) : List Locale :=
  (Text.truncations '_' variant).map (ofFields language script region) ++
    if region = "" then [] else [ofFields language script region ""]

/-- The entries that keep the script. -/
def scriptedCandidates (language script region variant : String) : List Locale :=
  regionalCandidates language script region variant ++
    if script = "" then [] else [ofFields language script "" ""]

/-- The entries of a second start without the script. -/
def restartCandidates (language script region variant : String) : List Locale :=
  if script = "" then [] else regionalCandidates language "" region variant

def ordinaryChain (language script region variant : String) : List Locale :=
  scriptedCandidates language script region variant ++
    restartCandidates language script region variant ++
    (if language = "" then [] else [ofLanguage language]) ++ [root]

/-! ## Norwegian and Chinese -/

/-- An entry and the same entry in the language `no`; the root has no twin. -/
def withTwin (d : Locale) : List Locale :=
  if d.language = "" then [d] else [d, ofFields "no" d.script d.region d.variant]

def bokmalChain (script region variant : String) : List Locale :=
  (ordinaryChain "nb" script region variant).flatMap withTwin

def nynorskChain (script region variant : String) : List Locale :=
  (ordinaryChain "nn" script region variant).dropLast ++
    [unscripted "no" "NO" "NY", unscripted "no" "NO" "", ofLanguage "no", root]

/-- The script in which Chinese is written in a region. -/
def chineseScript (region : String) : String :=
  if region = "TW" ∨ region = "HK" ∨ region = "MO" then "Hant"
  else if region = "CN" ∨ region = "SG" then "Hans"
  else ""

/-- The region that stands for a script of Chinese. -/
def chineseRegion (script : String) : String :=
  if script = "Hans" then "CN"
  else if script = "Hant" then "TW"
  else ""

def chineseChain (script region variant : String) : List Locale :=
  if script = "" ∧ region ≠ "" then
    ordinaryChain "zh" (chineseScript region) region variant
  else if script ≠ "" ∧ region = "" then
    ordinaryChain "zh" script (chineseRegion script) variant
  else ordinaryChain "zh" script region variant

/-- The locales to try for a request, in order. -/
def candidates (l : Locale) : List Locale :=
  if l.legacy? = some .nynorsk then nynorskChain l.script l.region ""
  else if l.language = "no" ∨ l.language = "nb" then bokmalChain l.script l.region l.variant
  else if l.language = "nn" then nynorskChain l.script l.region l.variant
  else if l.language = "zh" then chineseChain l.script l.region l.variant
  else ordinaryChain l.language l.script l.region l.variant

/-- Only the base fields take part. -/
theorem candidates_congr {a b : Locale} (h : a.bare = b.bare) : a.candidates = b.candidates := by
  obtain ⟨hl, hs, hr, hv⟩ := bare_eq_iff.mp h
  unfold candidates legacy?
  rw [hl, hs, hr, hv]

end LocaleServices.Locale

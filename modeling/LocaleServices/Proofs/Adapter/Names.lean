import Mathlib.Data.List.Basic
import LocaleServices.Adapter.NameTable
import LocaleServices.Proofs.Locale.Key

/-!
  Names that are found, and what entering a name does to them.

  A table is searched along the candidates of a locale, and compares base fields. The base
  fields of a locale are among those of its own candidates unless it `IsSkipped`: the old
  spelling of Nynorsk with a script, and a variant that Chinese passes over
  (`exists_candidate_iff`). Main statements: a name entered for a locale is found again from
  there, if only behind an earlier one, and a name entered for a skipped locale changes nothing
  that is found from it (`name?_enter_self`); and from any locale an entry is seen exactly for
  its own key, where it stands first among the candidates with a name (`name?_enter`).
-/

namespace LocaleServices

namespace Locale

variable {l : Locale}

/-! ## Locales off their own chain -/

/-- The old spelling of Nynorsk with a script, or a variant of simplified or traditional
    Chinese without a region. -/
def IsSkipped (l : Locale) : Prop :=
  l.legacy? = some .nynorsk ∧ l.script ≠ "" ∨ l.PassesVariant

/-- A locale has a candidate with its own base fields unless it is skipped. -/
theorem IsUsual.exists_candidate_iff (h : l.IsUsual) :
    (∃ d ∈ l.candidates, d.bare = l.bare) ↔ ¬ l.IsSkipped := by
  constructor
  · rintro ⟨d, hd, he⟩ hskipped
    obtain ⟨hlanguage, hscript, hregion, hvariant⟩ := bare_eq_iff.mp he
    rcases hskipped with ⟨hl, hs⟩ | hp
    · exact notMem_candidates_of_nynorsk hl hlanguage (hscript ▸ hs) hd
    · exact notMem_candidates_of_passesVariant hp hvariant (hregion.trans hp.2.2.1) hd
  · intro hskipped
    obtain ⟨hn, hp⟩ := not_or.mp hskipped
    have hscript : l.legacy? = some .nynorsk → l.script = "" := fun hl =>
      Classical.not_not.mp fun hs => hn ⟨hl, hs⟩
    have hmem : l.rebuilt ∈ l.candidates := ofFields_mem_candidates (Or.inl rfl) hscript hp
    exact ⟨l.rebuilt, hmem, h.bare_rebuilt⟩

end Locale

namespace NameTable

variable {t : NameTable} {l m : Locale} {key q name : String}

/-! ## The search -/

/-- The name for the first of some locales that has one. -/
def foundAlong (t : NameTable) (ds : List Locale) (key : String) : Option String :=
  ds.findSome? fun d => t.entered? d key

/-- What is found depends on the entries for these locales only. -/
theorem foundAlong_congr {u : NameTable} {ds : List Locale}
    (h : ∀ d ∈ ds, t.entered? d key = u.entered? d key) :
    t.foundAlong ds key = u.foundAlong ds key := by
  unfold foundAlong
  rw [← List.head?_filterMap, ← List.head?_filterMap, List.filterMap_congr h]

theorem name?_congr {u : NameTable} (h : ∀ d ∈ m.candidates, t.entered? d key = u.entered? d key) :
    t.name? m key = u.name? m key :=
  foundAlong_congr h

theorem isSome_name?_iff :
    (t.name? m key).isSome = true ↔ ∃ d ∈ m.candidates, (t.entered? d key).isSome = true :=
  List.findSome?_isSome_iff

/-- The search at one of the candidates: what is found before it comes first. -/
theorem name?_of_split {before after : List Locale} {d : Locale}
    (hm : m.candidates = before ++ d :: after) :
    t.name? m key =
      (t.foundAlong before key).or ((t.entered? d key).or (t.foundAlong after key)) := by
  unfold name? foundAlong
  rw [hm, List.findSome?_append, List.findSome?_cons]
  cases t.entered? d key <;> rfl

/-- Extensions of the requested locale play no part. -/
theorem name?_of_bare_eq (t : NameTable) (h : l.bare = m.bare) (key : String) :
    t.name? l key = t.name? m key := by
  unfold name?
  rw [Locale.candidates_congr h]

/-! ## Names after an entry -/

/-- An entry that no candidate meets leaves what is found as it was. -/
theorem name?_enter_of_notMem (h : ∀ d ∈ m.candidates, d.bare ≠ l.bare) :
    (t.enter l key name).name? m q = t.name? m q := by
  refine name?_congr fun d hd => ?_
  rw [entered?_enter, if_neg fun he => h d hd he.1.symm]

/-- An entry that a candidate meets is found, unless an earlier one is. -/
theorem isSome_name?_enter_of_mem {d : Locale} (hd : d ∈ m.candidates) (he : d.bare = l.bare) :
    ((t.enter l key name).name? m key).isSome = true := by
  refine isSome_name?_iff.mpr ⟨d, hd, ?_⟩
  rw [entered?_enter, if_pos ⟨he.symm, rfl⟩]
  rfl

/-- An entry for another key leaves what is found as it was. -/
theorem name?_enter_of_key_ne (h : q ≠ key) :
    (t.enter l key name).name? m q = t.name? m q := by
  apply name?_congr
  intro d _
  rw [entered?_enter, if_neg fun he => h he.2.symm]

/-- From the first candidate that an entry meets, the entry is what is found. -/
theorem name?_enter_of_first (t : NameTable) (key name : String) {before after : List Locale}
    {d : Locale} (hm : m.candidates = before ++ d :: after) (hd : d.bare = l.bare)
    (hbefore : ∀ e ∈ before, e.bare ≠ l.bare) :
    (t.enter l key name).name? m key = (t.foundAlong before key).or (some name) := by
  have hentry : (t.enter l key name).entered? d key = some name := by
    rw [entered?_enter, if_pos ⟨hd.symm, rfl⟩]
  have hearlier : (t.enter l key name).foundAlong before key = t.foundAlong before key := by
    apply foundAlong_congr
    intro e he
    rw [entered?_enter, if_neg fun h => hbefore e he h.1.symm]
  rw [name?_of_split hm, hentry, hearlier]
  rfl

/-- What is found before a candidate is found, whatever stands there. -/
theorem name?_of_isSome_foundAlong {before after : List Locale} {d : Locale}
    (hm : m.candidates = before ++ d :: after) (h : (t.foundAlong before key).isSome = true) :
    t.name? m key = t.foundAlong before key := by
  rw [name?_of_split hm]
  exact Option.or_of_isSome h

/-- The candidates of a locale up to the first with given base fields. -/
theorem exists_first_candidate (h : ∃ d ∈ m.candidates, d.bare = l.bare) :
    ∃ before d after, m.candidates = before ++ d :: after ∧ d.bare = l.bare ∧
      ∀ e ∈ before, e.bare ≠ l.bare := by
  have hfound : (m.candidates.find? fun d => d.bare = l.bare).isSome = true := by
    simpa using h
  obtain ⟨d, hd⟩ := Option.isSome_iff_exists.mp hfound
  obtain ⟨hbare, before, after, hm, hbefore⟩ := List.find?_eq_some_iff_append.mp hd
  exact ⟨before, d, after, hm, of_decide_eq_true hbare, fun e he => by simpa using hbefore e he⟩

/-- A name entered for a locale is found again from it, unless the locale is skipped: then
    entering the name does not change what is found. -/
theorem name?_enter_self (t : NameTable) {l : Locale} (h : l.Built) (key name : String) :
    (¬ l.IsSkipped → ((t.enter l key name).name? l key).isSome = true) ∧
      (l.IsSkipped → (t.enter l key name).name? l key = t.name? l key) := by
  have hcandidate := h.isUsual.exists_candidate_iff
  constructor
  · intro hmet
    obtain ⟨d, hd, he⟩ := hcandidate.mpr hmet
    exact isSome_name?_enter_of_mem hd he
  · intro hskipped
    refine name?_enter_of_notMem fun d hd he => ?_
    exact hcandidate.mp ⟨d, hd, he⟩ hskipped

/-- A name for Nynorsk is found again; one for the old spelling in Latin script, or for
    simplified Chinese with a variant and no region, is not. -/
theorem name?_enter_self_nynorsk :
    let nynorsk := Locale.ofFields "nn" "Latn" "NO" "hognorsk"
    let old := Locale.ofFields "no" "Latn" "NO" "NY"
    let chinese := Locale.ofFields "zh" "Hans" "" "pinyin"
    nynorsk.Built ∧ ¬ nynorsk.IsSkipped ∧
      ((empty.enter nynorsk "en" "engelsk").name? nynorsk "en").isSome = true ∧
      old.Built ∧ old.IsSkipped ∧
      (empty.enter old "en" "engelsk").name? old "en" = empty.name? old "en" ∧
      chinese.Built ∧ chinese.IsSkipped ∧
      (empty.enter chinese "en" "yingyu").name? chinese "en" = empty.name? chinese "en" := by
  intro nynorsk old chinese
  have hnynorsk : nynorsk.Built := .ofFields "nn" "Latn" "NO" "hognorsk"
  have hold : old.Built := .ofFields "no" "Latn" "NO" "NY"
  have hchinese : chinese.Built := .ofFields "zh" "Hans" "" "pinyin"
  have hmet : ¬ nynorsk.IsSkipped := by
    rintro (⟨hl, -⟩ | hp)
    · exact absurd hl (by decide)
    · exact absurd hp.1 (by decide)
  have hscripted : old.IsSkipped := Or.inl ⟨by decide, by decide⟩
  have hpassed : chinese.IsSkipped := Or.inr ⟨by decide, Or.inl (by decide), by decide, by decide⟩
  exact ⟨hnynorsk, hmet, (name?_enter_self empty hnynorsk "en" "engelsk").1 hmet,
    hold, hscripted, (name?_enter_self empty hold "en" "engelsk").2 hscripted,
    hchinese, hpassed, (name?_enter_self empty hchinese "en" "yingyu").2 hpassed⟩

/-- A name entered for simplified Chinese with a variant and no region is missing: the chain
    fills in a region and has no entry with these fields. -/
theorem name?_enter_chinese :
    let chinese := Locale.ofFields "zh" "Hans" "" "pinyin"
    ¬ ((empty.enter chinese "en" "yingyu").name? chinese "en").isSome = true := by
  decide

/-- What entering a name changes. Nothing is changed for another key, or for a locale none of
    whose candidates has the base fields of the entry. Otherwise the first candidate with them
    decides: if a candidate before it has a name, that one is found as it was, and if none has,
    the entered name is found. Extensions play no part, be they those of the requested locale
    or those of the entered one. -/
theorem name?_enter (t : NameTable) (l m : Locale) (key q name : String) :
    (q ≠ key ∨ (∀ d ∈ m.candidates, d.bare ≠ l.bare) →
      (t.enter l key name).name? m q = t.name? m q) ∧
    (q = key → (∃ d ∈ m.candidates, d.bare = l.bare) →
      ∃ before d after, m.candidates = before ++ d :: after ∧ d.bare = l.bare ∧
        (∀ e ∈ before, e.bare ≠ l.bare) ∧
        ((∃ e ∈ before, (t.entered? e key).isSome = true) →
          (t.enter l key name).name? m q = t.name? m q) ∧
        ((∀ e ∈ before, t.entered? e key = none) →
          (t.enter l key name).name? m q = some name)) ∧
    (∀ m' : Locale, m'.bare = m.bare → t.name? m' q = t.name? m q) ∧
    ∀ l' : Locale, l'.bare = l.bare →
      ∀ m q, (t.enter l' key name).name? m q = (t.enter l key name).name? m q := by
  refine ⟨?_, ?_, fun m' hm' => name?_of_bare_eq t hm' q, ?_⟩
  · rintro (hq | hm)
    · exact name?_enter_of_key_ne hq
    · exact name?_enter_of_notMem hm
  · rintro rfl hmet
    obtain ⟨before, d, after, hm, hd, hbefore⟩ := exists_first_candidate hmet
    have hentered := name?_enter_of_first t q name hm hd hbefore
    refine ⟨before, d, after, hm, hd, hbefore, fun hearlier => ?_, fun hnone => ?_⟩
    · have hsome : (t.foundAlong before q).isSome = true := List.findSome?_isSome_iff.mpr hearlier
      rw [hentered, Option.or_of_isSome hsome, name?_of_isSome_foundAlong hm hsome]
    · have hfree : t.foundAlong before q = none := List.findSome?_eq_none_iff.mpr hnone
      rw [hentered, hfree]
      rfl
  · intro l' hl' m q
    apply name?_congr
    intro d _
    rw [entered?_enter, entered?_enter, hl']

/-- A French name is behind the Canadian one for English, and seen from there for German. -/
theorem name?_enter_french :
    let french := Locale.ofLanguage "fr"
    let german := Locale.ofLanguage "de"
    let canadian := Locale.unscripted "fr" "CA" ""
    let extended := canadian.withExtension 'u' "nu-latn"
    let t := empty.enter canadian "en" "anglais (Canada)"
    (∀ d ∈ german.candidates, d.bare ≠ french.bare) ∧
      (t.enter french "en" "anglais").name? german "en" = t.name? german "en" ∧
      (∃ d ∈ canadian.candidates, d.bare = french.bare) ∧
      (t.enter french "en" "anglais").name? canadian "en" = t.name? canadian "en" ∧
      (t.enter french "de" "allemand").name? canadian "de" = some "allemand" ∧
      extended.bare = canadian.bare ∧ t.name? extended "en" = t.name? canadian "en" ∧
      (t.enter extended "en" "anglais").name? french "en" =
        (t.enter canadian "en" "anglais").name? french "en" := by
  intro french german canadian extended t
  have hfar : ∀ d ∈ german.candidates, d.bare ≠ french.bare := by decide
  have hmet : ∃ d ∈ canadian.candidates, d.bare = french.bare := by decide
  have hbare : extended.bare = canadian.bare := canadian.bare_withExtension 'u' "nu-latn"
  -- The Canadian locale itself stands before the first candidate that is French.
  have hbefore : ∀ {before after : List Locale} {d : Locale},
      canadian.candidates = before ++ d :: after → d.bare = french.bare →
        (∀ e ∈ before, e.bare ≠ french.bare) → before = [canadian] := by
    intro before after d hm hd hne
    have hchain : canadian.candidates = [canadian, french, .root] := by decide
    rw [hchain] at hm
    match before with
    | [] =>
      rw [List.nil_append, List.cons.injEq] at hm
      exact absurd (hm.1 ▸ hd) (by decide)
    | [e] => rw [(List.cons.inj hm).1]
    | e :: f :: _ =>
      have hf : french = f := (List.cons.inj (List.cons.inj hm).2).1
      exact absurd (hf ▸ rfl) (hne f (by simp))
  obtain ⟨hother, -, -, -⟩ := name?_enter t french german "en" "en" "anglais"
  obtain ⟨-, hsame, hrequest, -⟩ := name?_enter t french canadian "en" "en" "anglais"
  obtain ⟨-, hnew, -, -⟩ := name?_enter t french canadian "de" "de" "allemand"
  obtain ⟨-, -, -, hentry⟩ := name?_enter t canadian french "en" "en" "anglais"
  obtain ⟨_, _, _, hm, hd, hne, hshadowed, -⟩ := hsame rfl hmet
  obtain ⟨_, _, _, hm', hd', hne', -, hseen⟩ := hnew rfl hmet
  obtain rfl := hbefore hm hd hne
  obtain rfl := hbefore hm' hd' hne'
  exact ⟨hfar, hother (Or.inr hfar), hmet, hshadowed ⟨canadian, by simp, by decide⟩,
    hseen (by decide), hbare, hrequest extended hbare, hentry extended hbare french "en"⟩

end NameTable

end LocaleServices

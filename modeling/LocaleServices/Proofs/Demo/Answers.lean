import LocaleServices.Demo.Report
import LocaleServices.Proofs.Adapter.Names
import LocaleServices.Proofs.Locale.Norwegian
import LocaleServices.Proofs.Service.Completeness
import LocaleServices.Proofs.Service.Untroubled

/-!
  What the demonstration reports.

  The built-in table has a name for each key, at the root if nowhere else, and the plugin has
  names for Canadian French only. Where the plugin has one, the first candidate that counts as
  available is Canadian French itself (`exists_split_of_plugin`), which nobody but the plugin
  serves; so its name is found whatever the order of preference, and that of the built-in
  adapter is found otherwise (`findSome?_eligible`). Main statement: `run_answers`.
-/

namespace LocaleServices.Demo

variable {preference : List Kind} {u : Roster Unit (Option NameTable)} {l d : Locale}
  {key : String}

/-! ## The two adapters -/

def builtinAdapter : Adapter Unit (Option NameTable) := builtinNames.toAdapter "builtin names"

def pluginAdapter : Adapter Unit (Option NameTable) := pluginNames.toAdapter "plugin names"

theorem find?_catalog (preference : List Kind) (k : Kind) :
    (catalog preference).find? k .localeName =
      if k = .plugin then some pluginAdapter
      else if k = .builtin then some builtinAdapter else none := by
  rw [catalog, Catalog.find?_register, Catalog.find?_registerAll]
  cases k <;> rfl

/-- The adapters that are registered for names of locales. -/
theorem mem_entries_iff (hu : ((catalog preference).toSource 0).Offers .localeName u)
    {e : Kind × Adapter Unit (Option NameTable)} :
    e ∈ u.entries ↔
      e = (.builtin, builtinAdapter) ∨ .plugin ∈ preference ∧ e = (.plugin, pluginAdapter) := by
  obtain ⟨k, a⟩ := e
  have hpreference : (catalog preference).preference = preference := rfl
  rw [Catalog.mem_entries_of_offers hu, find?_catalog, Preference.mem_complete, hpreference]
  cases k <;> simp [eq_comm]

theorem builtin_mem_entries (hu : ((catalog preference).toSource 0).Offers .localeName u) :
    (.builtin, builtinAdapter) ∈ u.entries :=
  (mem_entries_iff hu).mpr (Or.inl rfl)

theorem plugin_mem_entries (hu : ((catalog preference).toSource 0).Offers .localeName u)
    (hp : .plugin ∈ preference) : (.plugin, pluginAdapter) ∈ u.entries :=
  (mem_entries_iff hu).mpr (Or.inr ⟨hp, rfl⟩)

/-! ## Names -/

/-- The name that an adapter has for a key. -/
def nameFrom (l : Locale) (key : String) (a : Adapter Unit (Option NameTable)) : Option String :=
  a.provider.bind fun t => t.lookup l (some key)

theorem nameFrom_builtin (l : Locale) (key : String) :
    nameFrom l key builtinAdapter = builtinNames.name? l key := rfl

theorem nameFrom_plugin (l : Locale) (key : String) :
    nameFrom l key pluginAdapter = pluginNames.name? l key := rfl

/-- The name from the plugin, if it is preferred at all and has one, and otherwise the
    built-in one. -/
def nameUnder (preference : List Kind) (l : Locale) (key : String) : Option String :=
  if .plugin ∈ preference ∧ (pluginNames.name? l key).isSome then pluginNames.name? l key
  else builtinNames.name? l key

/-- The built-in table has a name for each key at the root. -/
theorem isSome_builtin_name? (l : Locale) (hk : key ∈ keys) :
    (builtinNames.name? l key).isSome = true := by
  have hroot : ∀ key ∈ keys, (builtinNames.entered? .root key).isSome = true := by decide
  exact NameTable.isSome_name?_iff.mpr ⟨.root, l.root_mem_candidates, hroot key hk⟩

theorem isSome_nameUnder (preference : List Kind) (l : Locale) (hk : key ∈ keys) :
    (nameUnder preference l key).isSome = true := by
  unfold nameUnder
  split
  · rename_i h
    exact h.2
  · exact isSome_builtin_name? l hk

/-! ## Where the plugin has a name -/

/-- The plugin has names for Canadian French only. -/
theorem bare_of_entered (h : (pluginNames.entered? d key).isSome = true) :
    d.bare = canadianFrench.bare := by
  refine Classical.not_not.mp fun hne => ?_
  have hnot : ∀ q, ¬ (canadianFrench.bare = d.bare ∧ q = key) := fun q he => hne he.1.symm
  rw [pluginNames, NameTable.entered?_enter, if_neg (hnot _), NameTable.entered?_enter,
    if_neg (hnot _)] at h
  cases h

theorem eq_canadianFrench_of_bare (hd : d.IsMade) (h : d.bare = canadianFrench.bare) :
    d = canadianFrench := by
  obtain ⟨hlanguage, hscript, hregion, hvariant⟩ := Locale.bare_eq_iff.mp h
  rw [← hd.rebuilt_eq, Locale.rebuilt, hlanguage, hscript, hregion, hvariant]
  decide

/-- The locales on whose behalf adapters may be asked. -/
theorem mem_of_admits (hu : ((catalog preference).toSource 0).Offers .localeName u)
    (h : u.admits () d = true) : d ∈ [.root, french, german, canadianFrench] := by
  have hbuiltin : ∀ m ∈ builtinNames.locales,
      m.availabilityKey ∈ [.root, french, german, canadianFrench] := by decide
  have hplugin : ∀ m ∈ pluginNames.locales,
      m.availabilityKey ∈ [.root, french, german, canadianFrench] := by decide
  rw [Roster.admits, Bool.or_eq_true, decide_eq_true_eq, Roster.lists_iff] at h
  rcases h with rfl | ⟨e, he, m, hm, rfl⟩
  · exact List.mem_cons_self
  · rcases (mem_entries_iff hu).mp he with rfl | ⟨-, rfl⟩
    · exact hbuiltin m hm
    · exact hplugin m hm

theorem admits_canadianFrench (hu : ((catalog preference).toSource 0).Offers .localeName u)
    (hp : .plugin ∈ preference) : u.admits () canadianFrench = true := by
  have hlisted : canadianFrench ∈ pluginNames.locales := by decide
  rw [Roster.admits, Bool.or_eq_true, Roster.lists_iff]
  exact Or.inr ⟨_, plugin_mem_entries hu hp, canadianFrench, hlisted, by decide⟩

/-- Where the plugin has a name, no other locale of the two tables is a candidate before
    Canadian French. -/
theorem exists_split_of_plugin (hs : l.script = "")
    (h : (pluginNames.name? l key).isSome = true) :
    ∃ before after, l.candidates = before ++ canadianFrench :: after ∧
      ∀ e ∈ before, e ∉ [.root, french, german, canadianFrench] := by
  obtain ⟨m, hm, hentered⟩ := NameTable.isSome_name?_iff.mp h
  obtain ⟨before, d, after, hsplit, hd, hbefore⟩ :=
    NameTable.exists_first_candidate ⟨m, hm, bare_of_entered hentered⟩
  have hmem : d ∈ l.candidates := by
    rw [hsplit]
    exact List.mem_append_right before List.mem_cons_self
  obtain rfl := eq_canadianFrench_of_bare (Locale.isMade_of_mem_candidates hmem) hd
  have hlanguage := Locale.language_notMem_of_mem_candidates hmem (by decide)
  have hspecial : ["zh", "no", "nn"] ⊆ ["no", "nb", "nn", "zh"] := by decide
  have horder := Locale.candidates_pairwise_specificity hs fun h => hlanguage (hspecial h)
  rw [hsplit] at horder
  refine ⟨before, after, hsplit, fun e he hlisted => ?_⟩
  -- The others have fewer fields than Canadian French and cannot stand before it.
  have hfields : canadianFrench.specificity ≤ e.specificity :=
    (List.pairwise_append.mp horder).2.2 e he canadianFrench List.mem_cons_self
  simp only [List.mem_cons, List.not_mem_nil, or_false] at hlisted
  rcases hlisted with rfl | rfl | rfl | rfl
  · exact absurd hfields (by decide)
  · exact absurd hfields (by decide)
  · exact absurd hfields (by decide)
  · exact hbefore canadianFrench he rfl

/-! ## Names that are found -/

theorem findSome?_of_forall_eq {α β : Type} {f : α → Option β} {answer : Option β} {es : List α}
    (hne : es ≠ []) (h : ∀ e ∈ es, f e = answer) : es.findSome? f = answer := by
  cases answer with
  | none => exact List.findSome?_eq_none_iff.mpr h
  | some value =>
    cases es with
    | nil => exact absurd rfl hne
    | cons e es => rw [List.findSome?_cons, h e List.mem_cons_self]

/-- Only the plugin serves Canadian French. -/
theorem findSome?_serving_canadianFrench
    (hu : ((catalog preference).toSource 0).Offers .localeName u) (hp : .plugin ∈ preference) :
    ((u.serving () canadianFrench).findSome? fun e => nameFrom l key e.2) =
      pluginNames.name? l key := by
  have hbuiltin : builtinAdapter.serves () canadianFrench = false := by decide
  have hplugin : pluginAdapter.serves () canadianFrench = true := by decide
  have honly : ∀ e ∈ u.serving () canadianFrench, nameFrom l key e.2 = pluginNames.name? l key := by
    intro e he
    obtain ⟨he, hserves⟩ := List.mem_filter.mp he
    rcases (mem_entries_iff hu).mp he with rfl | ⟨-, rfl⟩
    · rw [hbuiltin] at hserves
      cases hserves
    · exact nameFrom_plugin l key
  have hmem : (.plugin, pluginAdapter) ∈ u.serving () canadianFrench :=
    List.mem_filter.mpr ⟨plugin_mem_entries hu hp, hplugin⟩
  exact findSome?_of_forall_eq (List.ne_nil_of_mem hmem) honly

/-- Where the plugin is registered and has a name, it is the one that is found. -/
theorem findSome?_eligible_of_plugin
    (hu : ((catalog preference).toSource 0).Offers .localeName u) (hp : .plugin ∈ preference)
    (hs : l.script = "") (h : (pluginNames.name? l key).isSome = true) :
    ((u.eligible () l).findSome? fun e => nameFrom l key e.2) = pluginNames.name? l key := by
  have halone : ¬ u.isBuiltinAlone = true := by
    intro hb
    obtain ⟨e, he⟩ := Roster.exists_entries_eq hb
    have hfirst := builtin_mem_entries hu
    have hsecond := plugin_mem_entries hu hp
    rw [he, List.mem_singleton] at hfirst hsecond
    cases hfirst.trans hsecond.symm
  obtain ⟨before, after, hsplit, hbefore⟩ := exists_split_of_plugin hs h
  have hpassed : before.filter (u.admits ()) = [] := by
    rw [List.filter_eq_nil_iff]
    intro e he hadmits
    exact hbefore e he (mem_of_admits hu hadmits)
  rw [Roster.eligible, if_neg halone, hsplit, List.filter_append, hpassed, List.nil_append,
    List.filter_cons_of_pos (admits_canadianFrench hu hp), List.flatMap_cons,
    List.findSome?_append, findSome?_serving_canadianFrench hu hp, Option.or_of_isSome h]

/-- The name that is found does not depend on the order of preference. -/
theorem findSome?_eligible (hu : ((catalog preference).toSource 0).Offers .localeName u)
    (hs : l.script = "") (hk : key ∈ keys) :
    ((u.eligible () l).findSome? fun e => nameFrom l key e.2) = nameUnder preference l key := by
  unfold nameUnder
  split
  · rename_i h
    exact findSome?_eligible_of_plugin hu h.1 hs h.2
  · rename_i h
    obtain ⟨name, hname⟩ := Option.isSome_iff_exists.mp (isSome_builtin_name? l hk)
    have hbuiltin : nameFrom l key builtinAdapter = some name :=
      (nameFrom_builtin l key).trans hname
    have hroot : builtinAdapter.ServesRoot := fun _ => builtinNames.supports_root
    rw [hname]
    refine Roster.findSome?_eligible_of_agree (nameFrom l key)
      ⟨_, builtin_mem_entries hu, hroot, hbuiltin⟩ ?_
    intro e he
    rcases (mem_entries_iff hu).mp he with rfl | ⟨hp, rfl⟩
    · exact Or.inr hbuiltin
    · refine Or.inl ?_
      rw [nameFrom_plugin, ← Option.not_isSome_iff_eq_none]
      exact fun hsome => h ⟨hp, hsome⟩

/-! ## Lookups -/

section Lookups

variable {p : Pool ((catalog preference).toSource 0)}

theorem localizedName_eq (hp : p.Reachable) (hs : l.script = "") (hk : key ∈ keys) :
    (p.localizedName .localeName l key NameTable.getter).1 =
      .ok (.ofOption (nameUnder preference l key)) := by
  have hsteady := Catalog.isSteady_toSource (isSteady_catalog preference) 0
  have hget : ∀ (a : Adapter Unit (Option NameTable)) l key (w : Unit),
      (NameTable.getter a l key w).1 = a.provider.bind fun t => t.lookup l key :=
    fun _ _ _ _ => rfl
  have hresolved := hp.resolve_eq hsteady () .localeName hget l (some key) .name
  exact hresolved.trans (congrArg (Except.ok ∘ Resolution.ofOption)
    (findSome?_eligible (hp.offers .localeName) hs hk))

/-- Looking up keys finds a name for each, and nothing goes wrong. -/
theorem lookupAll_eq (hp : p.IsUntroubled) (hs : l.script = "") {ks : List String}
    (hks : ∀ key ∈ ks, key ∈ keys) :
    (lookupAll .localeName l ks p).1 = ks.map (fun key => (key, nameUnder preference l key)) ∧
      (lookupAll .localeName l ks p).2.IsUntroubled := by
  induction ks generalizing p with
  | nil => exact ⟨rfl, hp⟩
  | cons key ks ih =>
    obtain ⟨hk, hrest⟩ := List.forall_mem_cons.mp hks
    have hanswer := localizedName_eq hp.reachable hs hk
    let request : Request Unit (Option NameTable) String :=
      .localizedName .localeName l key NameTable.getter
    have hfound : (p.perform request).1.isNotFound = false := by
      obtain ⟨name, hname⟩ := Option.isSome_iff_exists.mp (isSome_nameUnder preference l hk)
      have hreply : (p.perform request).1 = .resolution (.ok (.found name)) := by
        rw [hname] at hanswer
        exact congrArg Reply.resolution hanswer
      rw [hreply]
      rfl
    have hdone : (p.localizedName .localeName l key NameTable.getter).2.IsUntroubled :=
      hp.perform (q := request) rfl hfound
    obtain ⟨hnames, hmore⟩ := ih hdone hrest
    refine ⟨?_, hmore⟩
    rw [lookupAll, List.map_cons]
    dsimp only
    rw [hnames, hanswer]
    simp [Except.toOption]

end Lookups

/-! ## Reports -/

/-- A report on a locale without a script has the names under the preference, and says that
    nothing went wrong. -/
theorem report_eq (preference : List Kind) (hs : l.script = "") :
    (report preference l).names = keys.map (fun key => (key, nameUnder preference l key)) ∧
      (report preference l).counters.notFound = 0 ∧
      (report preference l).counters.contractViolations = 0 := by
  obtain ⟨hnames, hlookups⟩ := lookupAll_eq
    (Pool.isUntroubled_fresh ((catalog preference).toSource 0) ()) hs (fun _ hk => hk)
  have hdone := (hlookups.availableLocales .localeName).allAvailableLocales
  unfold report
  exact ⟨hnames, hdone.notFound, hdone.violations⟩

/-! ## Runs -/

theorem run_of_unset (args : List String) :
    run args none = .ok (report Preference.usual (requested args)) := rfl

theorem run_of_text {bytes : ByteArray} {text : String} (h : String.fromUTF8? bytes = some text)
    (args : List String) :
    run args (some bytes) = .ok (report (Preference.ofText text) (requested args)) := by
  simp [run, Preference.ofVariable, Preference.variableText, h, Except.map]

theorem run_of_malformed {bytes : ByteArray} (h : String.fromUTF8? bytes = none)
    (args : List String) : run args (some bytes) = .error .notUnicode := by
  simp [run, Preference.ofVariable, Preference.variableText, h, Except.map]

theorem exists_error_iff (args : List String) (value : Option ByteArray) :
    (∃ e, run args value = .error e) ↔
      ∃ bytes, value = some bytes ∧ String.fromUTF8? bytes = none := by
  constructor
  · rintro ⟨e, he⟩
    cases value with
    | none =>
      rw [run_of_unset] at he
      cases he
    | some bytes =>
      refine ⟨bytes, rfl, ?_⟩
      cases htext : String.fromUTF8? bytes with
      | none => rfl
      | some text =>
        rw [run_of_text htext] at he
        cases he
  · rintro ⟨bytes, rfl, h⟩
    exact ⟨.notUnicode, run_of_malformed h args⟩

/-- The demonstration fails exactly if the preference variable is set to something that is no
    text. Otherwise it reports a name for each key: that of the plugin if it is preferred at all
    and has one, and that of the built-in table in every other case, in whatever order they are
    preferred; and it reports no failure and no broken contract. -/
theorem run_answers (args : List String) (value : Option ByteArray) :
    ((∃ e, run args value = .error e) ↔
      ∃ bytes, value = some bytes ∧ String.fromUTF8? bytes = none) ∧
    ∀ preference,
      (value = none ∧ preference = Preference.usual ∨
        ∃ bytes text, value = some bytes ∧ String.fromUTF8? bytes = some text ∧
          preference = Preference.ofText text) →
      let l := Locale.unscripted (args[0]?.getD "") (args[1]?.getD "") (args[2]?.getD "")
      ∃ r, run args value = .ok r ∧ r.preference = preference ∧ r.requested = l ∧
        r.names.map Prod.fst = ["en", "fr", "de"] ∧
        (∀ key name, (key, name) ∈ r.names → name.isSome = true ∧
          name =
            (if .plugin ∈ preference ∧ (pluginNames.name? l key).isSome then
              pluginNames.name? l key
             else builtinNames.name? l key)) ∧
        r.counters.notFound = 0 ∧ r.counters.contractViolations = 0 := by
  refine ⟨exists_error_iff args value, ?_⟩
  intro preference hvalue l
  have hrun : run args value = .ok (report preference l) := by
    rcases hvalue with ⟨rfl, rfl⟩ | ⟨bytes, text, rfl, htext, rfl⟩
    · exact run_of_unset args
    · exact run_of_text htext args
  have hscript : l.script = "" := Text.titled_eq_empty_iff.mpr rfl
  obtain ⟨hnames, hnotFound, hviolations⟩ := report_eq preference hscript
  refine ⟨report preference l, hrun, rfl, rfl, ?_, ?_, hnotFound, hviolations⟩
  · rw [hnames]
    rfl
  · intro key name hmem
    rw [hnames, List.mem_map] at hmem
    obtain ⟨q, hq, he⟩ := hmem
    obtain ⟨rfl, rfl⟩ := Prod.mk.inj he
    exact ⟨isSome_nameUnder preference l hq, rfl⟩

theorem fromUTF8?_toUTF8 (text : String) : String.fromUTF8? text.toUTF8 = some text :=
  dif_pos text.isValidUTF8

/-- In Canada the plugin names English, though it is preferred least, and not German. -/
theorem run_answers_canadian :
    String.fromUTF8? "JRE,SPI".toUTF8 = some "JRE,SPI" ∧
      ∃ r, run ["FR", "ca"] (some "JRE,SPI".toUTF8) = .ok r ∧
        r.preference = [.builtin, .plugin] ∧
        r.names.map Prod.fst = ["en", "fr", "de"] ∧
        (∀ name, ("en", name) ∈ r.names → name = some "anglais (Canada)") ∧
        (∀ name, ("de", name) ∈ r.names → name = some "allemand") ∧
        r.counters.notFound = 0 ∧ r.counters.contractViolations = 0 := by
  have htext := fromUTF8?_toUTF8 "JRE,SPI"
  obtain ⟨r, hrun, hpreference, -, hkeys, hnames, hcounters⟩ :=
    (run_answers ["FR", "ca"] (some "JRE,SPI".toUTF8)).2 (Preference.ofText "JRE,SPI")
      (Or.inr ⟨_, _, rfl, htext, rfl⟩)
  refine ⟨htext, r, hrun, hpreference.trans (by decide), hkeys, ?_, ?_, hcounters⟩
  · intro name h
    exact (hnames "en" name h).2.trans (by decide)
  · intro name h
    exact (hnames "de" name h).2.trans (by decide)

end LocaleServices.Demo

import LocaleServices.Demo.Names
import LocaleServices.Proofs.Service.Memory
import LocaleServices.Proofs.Text.Cuts
import LocaleServices.Proofs.Text.Trimming

/-!
  What a preference text asks for.

  A text is cut at its commas, and each piece is blank, mentions a kind or is unknown
  (`Preference.Reads`). The order that a text asks for is that of the first mentions, with the
  built-in kind behind them if it is not there (`ofText_eq`), and so depends on nothing but
  these (`ofText_congr`). That settles what a further piece or another spelling of one does,
  and that the order can be written down and read again (`knownIn_names`). Main statement:
  `ofText_of_reads`.
-/

namespace LocaleServices

/-! ## Names of kinds -/

namespace Kind

variable {k k' : Kind} {s : String} {t : List Char}

/-- A text that is a name of a kind, in whatever case. -/
def IsNamed (k : Kind) (t : List Char) : Prop :=
  ∃ name ∈ k.names, Text.SameButCase t name.toList

theorem names_disjoint {name : String} (h : name ∈ k.names) (h' : name ∈ k'.names) : k = k' := by
  have hall : ∀ k ∈ all, ∀ k' ∈ all, ∀ name ∈ k.names, name ∈ k'.names → k = k' := by decide
  exact hall k (mem_all k) k' (mem_all k') name h h'

/-- The names are written in capital letters. -/
theorem map_toUpper_name {name : String} (h : name ∈ k.names) :
    name.toList.map Char.toUpper = name.toList := by
  have hall : ∀ k ∈ all, ∀ name ∈ k.names, name.toList.map Char.toUpper = name.toList := by decide
  exact hall k (mem_all k) name h

theorem name_mem_names (k : Kind) : k.name ∈ k.names := by
  have hall : ∀ k ∈ all, k.name ∈ k.names := by decide
  exact hall k (mem_all k)

/-- No name of a kind has a comma, or is empty. -/
theorem name_ne {name : String} (h : name ∈ k.names) : ',' ∉ name.toList ∧ name.toList ≠ [] := by
  have hall : ∀ k ∈ all, ∀ name ∈ k.names, ',' ∉ name.toList ∧ name.toList ≠ [] := by decide
  exact hall k (mem_all k) name h

theorem isNamed_iff_mem_names : k.IsNamed s.toList ↔ Text.upper s ∈ k.names := by
  have hname : ∀ name ∈ k.names, Text.SameButCase s.toList name.toList ↔ Text.upper s = name := by
    intro name hname
    rw [Text.sameButCase_iff_map_toUpper, map_toUpper_name hname, ← Text.toList_upper,
      String.toList_inj]
  constructor
  · rintro ⟨name, hmem, hsame⟩
    rwa [(hname name hmem).mp hsame]
  · intro hmem
    exact ⟨Text.upper s, hmem, (hname _ hmem).mpr rfl⟩

theorem ofName?_eq_some_iff : ofName? s = some k ↔ s ∈ k.names := by
  constructor
  · intro h
    simpa using List.find?_some h
  · intro h
    have hsome : (ofName? s).isSome = true := by
      rw [ofName?, List.find?_isSome]
      exact ⟨k, mem_all k, by simpa using h⟩
    obtain ⟨k', hk'⟩ := Option.isSome_iff_exists.mp hsome
    have hmem : s ∈ k'.names := by simpa using List.find?_some hk'
    rw [hk', names_disjoint hmem h]

theorem toOption_ofText_eq_some_iff :
    (ofText s).toOption = some k ↔ k.IsNamed (Text.trimChars s.toList) := by
  rw [← Text.toList_trim, isNamed_iff_mem_names, ← ofName?_eq_some_iff]
  unfold ofText
  cases ofName? (Text.upper (Text.trim s)) <;> simp [Except.toOption]

theorem ofText_of_toOption_eq_none (h : (ofText s).toOption = none) :
    ofText s = .error ⟨Text.trim s⟩ := by
  unfold ofText at h ⊢
  split
  · rename_i hk
    rw [hk] at h
    cases h
  · rfl

theorem ofText_trim (s : String) : ofText (Text.trim s) = ofText s := by
  rw [ofText, ofText, Text.trim_trim]

end Kind

namespace Preference

variable {k : Kind} {p p' : List Char} {ps before after : List (List Char)} {ks kinds : List Kind}
  {us : List UnknownKind} {raw raw' : String}

/-! ## Pieces -/

/-- A piece that is a name of a kind, with blanks around it. -/
def Mentions (p : List Char) (k : Kind) : Prop := ∃ t, Text.IsTrimmed p t ∧ k.IsNamed t

/-- The kind that a piece mentions. -/
def mentioned? (p : List Char) : Option Kind := (Kind.ofText (String.ofList p)).toOption

/-- What is unknown in a piece. -/
def unknown? (p : List Char) : Option UnknownKind :=
  if Text.trimChars p = [] ∨ (mentioned? p).isSome then none
  else some ⟨String.ofList (Text.trimChars p)⟩

theorem mentions_iff : Mentions p k ↔ k.IsNamed (Text.trimChars p) := by
  unfold Mentions
  simp only [Text.isTrimmed_iff, exists_eq_left']

theorem mentioned?_eq_some_iff : mentioned? p = some k ↔ Mentions p k := by
  rw [mentioned?, Kind.toOption_ofText_eq_some_iff, String.toList_ofList, mentions_iff]

theorem mentioned?_eq_none_iff : mentioned? p = none ↔ ∀ k, ¬ Mentions p k := by
  rw [Option.eq_none_iff_forall_ne_some]
  simp only [ne_eq, mentioned?_eq_some_iff]

/-- Neither case nor the blanks around it play a part in what a piece mentions. -/
theorem mentioned?_congr {t t' : List Char} (ht : Text.IsTrimmed p t)
    (ht' : Text.IsTrimmed p' t') (h : Text.SameButCase t' t) : mentioned? p' = mentioned? p := by
  refine Option.ext fun k => ?_
  rw [mentioned?_eq_some_iff, mentioned?_eq_some_iff, mentions_iff, mentions_iff,
    ht.trimChars_eq, ht'.trimChars_eq]
  unfold Kind.IsNamed Text.SameButCase
  rw [h]

theorem mentioned?_of_blank (h : Text.trimChars p = []) : mentioned? p = none := by
  rw [mentioned?_eq_none_iff]
  intro k hk
  obtain ⟨name, hname, hsame⟩ := mentions_iff.mp hk
  rw [h] at hsame
  exact (Kind.name_ne hname).2 (List.map_eq_nil_iff.mp hsame.symm)

theorem unknown?_of_blank (h : Text.trimChars p = []) : unknown? p = none := by
  rw [unknown?, if_pos (Or.inl h)]

theorem unknown?_of_mentioned (h : mentioned? p = some k) : unknown? p = none := by
  rw [unknown?, h, if_pos (Or.inr Option.isSome_some)]

theorem unknown?_eq_some (h : Text.trimChars p ≠ []) (hn : mentioned? p = none) :
    unknown? p = some ⟨String.ofList (Text.trimChars p)⟩ := by
  rw [unknown?, hn, if_neg (by simp [h])]

/-! ## First mentions -/

/-- The first mentions among some of the kinds are those of all, less the rest. -/
theorem eraseDups_filter (f : Kind → Bool) (kinds : List Kind) :
    (kinds.filter f).eraseDups = kinds.eraseDups.filter f := by
  match kinds with
  | [] => rfl
  | k :: kinds =>
    have ih := eraseDups_filter f (kinds.filter fun k' => !k' == k)
    rw [List.filter_comm] at ih
    rw [List.eraseDups_cons]
    by_cases hk : f k = true
    · rw [List.filter_cons_of_pos hk, List.filter_cons_of_pos hk, List.eraseDups_cons, ih]
    · have hne : (kinds.filter f).filter (fun k' => !k' == k) = kinds.filter f := by
        rw [List.filter_eq_self]
        intro k' hk'
        have hne : k' ≠ k := fun he => hk (he ▸ (List.mem_filter.mp hk').2)
        simpa using hne
      rw [List.filter_cons_of_neg hk, List.filter_cons_of_neg hk, ← ih, hne]
termination_by kinds.length
decreasing_by exact Nat.lt_succ_of_le (List.length_filter_le _ _)

theorem eraseDups_cons_eq (k : Kind) (kinds : List Kind) :
    (k :: kinds).eraseDups = k :: kinds.eraseDups.filter (· ≠ k) := by
  rw [List.eraseDups_cons, eraseDups_filter]
  have hsame : (fun k' => !k' == k) = fun k' => decide (k' ≠ k) := by
    funext k'
    simp [beq_eq_decide]
  rw [hsame]

theorem eraseDups_eq_nil_iff : kinds.eraseDups = [] ↔ kinds = [] := by
  cases kinds with
  | nil => exact Iff.rfl
  | cons k kinds => simp [List.eraseDups_cons]

theorem eraseDups_of_nodup (h : kinds.Nodup) : kinds.eraseDups = kinds := by
  induction kinds with
  | nil => rfl
  | cons k kinds ih =>
    obtain ⟨hk, hrest⟩ := List.nodup_cons.mp h
    rw [eraseDups_cons_eq, ih hrest, List.filter_eq_self.mpr]
    intro k' hk'
    exact decide_eq_true fun he => hk (he ▸ hk')

/-- A later mention of a kind changes nothing. -/
theorem eraseDups_append_cons (h : k ∈ ks) (kinds : List Kind) :
    (ks ++ k :: kinds).eraseDups = (ks ++ kinds).eraseDups := by
  rw [List.eraseDups_append, List.eraseDups_append]
  simp [List.removeAll, h]

/-! ## Reading a text -/

/-- What the pieces of a text say: the kinds in the order of their first mentions, and the
    pieces that are unknown. -/
inductive ReadsPieces : List (List Char) → List Kind → List UnknownKind → Prop
  | nil : ReadsPieces [] [] []
  | blank {p : List Char} {ps : List (List Char)} {ks : List Kind} {us : List UnknownKind}
      (hp : ∀ c ∈ p, Text.isBlank c = true) (hr : ReadsPieces ps ks us) :
      ReadsPieces (p :: ps) ks us
  | known {p : List Char} {ps : List (List Char)} {k : Kind} {ks : List Kind}
      {us : List UnknownKind} (hp : Mentions p k) (hr : ReadsPieces ps ks us) :
      ReadsPieces (p :: ps) (k :: ks.filter (· ≠ k)) us
  | unknown {p t : List Char} {ps : List (List Char)} {ks : List Kind} {us : List UnknownKind}
      (hp : Text.IsTrimmed p t) (ht : t ≠ []) (hn : ∀ k, ¬ Mentions p k)
      (hr : ReadsPieces ps ks us) : ReadsPieces (p :: ps) ks (⟨String.ofList t⟩ :: us)

/-- What a text says between its commas. -/
def Reads (raw : String) (ks : List Kind) (us : List UnknownKind) : Prop :=
  ∃ ps, Text.IsCut (· = ',') raw.toList ps ∧ ReadsPieces ps ks us

theorem readsPieces_iff :
    ReadsPieces ps ks us ↔
      ks = (ps.filterMap mentioned?).eraseDups ∧ us = ps.filterMap unknown? := by
  constructor
  · intro h
    induction h with
    | nil => exact ⟨rfl, rfl⟩
    | blank hp _ ih =>
      rw [← Text.trimChars_eq_nil_iff] at hp
      rwa [List.filterMap_cons_none (mentioned?_of_blank hp),
        List.filterMap_cons_none (unknown?_of_blank hp)]
    | known hp _ ih =>
      have hk := mentioned?_eq_some_iff.mpr hp
      rw [List.filterMap_cons_some hk, List.filterMap_cons_none (unknown?_of_mentioned hk),
        eraseDups_cons_eq, ← ih.1]
      exact ⟨rfl, ih.2⟩
    | unknown hp ht hn _ ih =>
      obtain rfl := hp.trimChars_eq
      have hk := mentioned?_eq_none_iff.mpr hn
      rw [List.filterMap_cons_none hk, List.filterMap_cons_some (unknown?_eq_some ht hk), ← ih.2]
      exact ⟨ih.1, rfl⟩
  · rintro ⟨rfl, rfl⟩
    induction ps with
    | nil => exact .nil
    | cons p ps ih =>
      by_cases hp : Text.trimChars p = []
      · rw [List.filterMap_cons_none (mentioned?_of_blank hp),
          List.filterMap_cons_none (unknown?_of_blank hp)]
        exact .blank (Text.trimChars_eq_nil_iff.mp hp) ih
      · cases hk : mentioned? p with
        | some k =>
          rw [List.filterMap_cons_some hk, List.filterMap_cons_none (unknown?_of_mentioned hk),
            eraseDups_cons_eq]
          exact .known (mentioned?_eq_some_iff.mp hk) ih
        | none =>
          rw [List.filterMap_cons_none hk, List.filterMap_cons_some (unknown?_eq_some hp hk)]
          exact .unknown (Text.isTrimmed_trimChars p) hp (mentioned?_eq_none_iff.mp hk) ih

/-- A text has one reading. -/
theorem reads_iff (h : Text.IsCut (· = ',') raw.toList ps) :
    Reads raw ks us ↔ ks = (ps.filterMap mentioned?).eraseDups ∧ us = ps.filterMap unknown? := by
  rw [← readsPieces_iff]
  constructor
  · rintro ⟨ps', hcut, hreads⟩
    rw [Text.isCut_iff] at h hcut
    rwa [h, ← hcut]
  · intro hreads
    exact ⟨ps, h, hreads⟩

/-! ## The order asked for -/

theorem filterMap_piecesOf {α : Type} (h : Text.IsCut (· = ',') raw.toList ps)
    (f : String → Option α) :
    (piecesOf raw).filterMap f = ps.filterMap fun p =>
      if Text.trimChars p = [] then none else f (String.ofList (Text.trimChars p)) := by
  rw [Text.isCut_iff] at h
  rw [piecesOf, Text.pieces, ← h, List.filterMap_filter, List.filterMap_map, List.filterMap_map]
  refine List.filterMap_congr fun p _ => ?_
  simp only [Function.comp_apply, Text.trim_ofList]
  by_cases hp : Text.trimChars p = []
  · simp [hp]
  · simp [hp]

theorem knownIn_eq (h : Text.IsCut (· = ',') raw.toList ps) :
    knownIn raw = ps.filterMap mentioned? := by
  rw [knownIn, filterMap_piecesOf h]
  refine List.filterMap_congr fun p _ => ?_
  split
  · rename_i hp
    exact (mentioned?_of_blank hp).symm
  · rw [← Text.trim_ofList, Kind.ofText_trim, mentioned?]

theorem knownIn_append (h : Text.IsCut (· = ',') raw.toList (before ++ after)) :
    knownIn raw = before.filterMap mentioned? ++ after.filterMap mentioned? := by
  rw [knownIn_eq h, List.filterMap_append]

theorem unknownIn_eq (h : Text.IsCut (· = ',') raw.toList ps) :
    unknownIn raw = ps.filterMap unknown? := by
  rw [unknownIn, filterMap_piecesOf h]
  refine List.filterMap_congr fun p _ => ?_
  split
  · rename_i hp
    exact (unknown?_of_blank hp).symm
  · rename_i hp
    rw [← Text.trim_ofList, Kind.ofText_trim]
    cases hk : Kind.ofText (String.ofList p) with
    | ok k =>
      have hsome : mentioned? p = some k := by rw [mentioned?, hk, Except.toOption]
      exact (unknown?_of_mentioned hsome).symm
    | error e =>
      have hnone : mentioned? p = none := by rw [mentioned?, hk, Except.toOption]
      have he := Kind.ofText_of_toOption_eq_none hnone
      rw [unknown?_eq_some hp hnone, ← Text.trim_ofList]
      exact congrArg some (Except.error.inj (hk.symm.trans he))

/-- The order that a text asks for depends on the first mentions only. -/
theorem ofText_eq (raw : String) :
    ofText raw =
      if (knownIn raw).eraseDups = [] then usual
      else if Kind.builtin ∈ (knownIn raw).eraseDups then (knownIn raw).eraseDups
      else (knownIn raw).eraseDups ++ [.builtin] := by
  unfold ofText
  split
  · rename_i hknown
    rw [hknown]
    rfl
  · rename_i hknown
    rw [if_neg (mt eraseDups_eq_nil_iff.mp hknown)]
    rfl

/-- Texts with the same first mentions ask for the same order. -/
theorem ofText_congr (h : (knownIn raw').eraseDups = (knownIn raw).eraseDups) :
    ofText raw' = ofText raw := by
  rw [ofText_eq, ofText_eq, h]

theorem ofText_of_knownIn (h : knownIn raw = kinds) (hd : kinds.Nodup)
    (hb : Kind.builtin ∈ kinds) : ofText raw = kinds := by
  rw [ofText_eq, h, eraseDups_of_nodup hd, if_neg (List.ne_nil_of_mem hb), if_pos hb]

theorem nodup_ofText (raw : String) : (ofText raw).Nodup := by
  unfold ofText
  split
  · exact Kind.nodup_all
  · exact nodup_complete _

theorem builtin_mem_ofText (raw : String) : Kind.builtin ∈ ofText raw := by
  unfold ofText
  split
  · exact Kind.mem_all _
  · exact builtin_mem_complete _

/-- An order that has all it needs is kept. -/
theorem complete_of_nodup (hd : kinds.Nodup) (hb : Kind.builtin ∈ kinds) :
    complete kinds = kinds := by
  rw [complete, eraseDups_of_nodup hd, if_pos hb]

/-- The names of some kinds, between commas, name these kinds. -/
theorem knownIn_names (h : kinds ≠ []) :
    knownIn (",".intercalate (kinds.map Kind.name)) = kinds := by
  have hcut : Text.IsCut (· = ',') (",".intercalate (kinds.map Kind.name)).toList
      (kinds.map fun k => k.name.toList) := by
    rw [String.toList_intercalate, List.map_map]
    apply Text.isCut_intercalate
    · exact mt List.map_eq_nil_iff.mp h
    · intro p hp
      obtain ⟨k, -, rfl⟩ := List.mem_map.mp hp
      exact (Kind.name_ne k.name_mem_names).1
  rw [knownIn_eq hcut, List.filterMap_map]
  have hmentioned : (mentioned? ∘ fun k : Kind => k.name.toList) = some := by
    funext k
    rw [Function.comp_apply, mentioned?, String.ofList_toList, Kind.ofText_name, Except.toOption]
  rw [hmentioned, List.filterMap_some]

/-! ## Other texts that ask for the same -/

section Edits

variable (h : Text.IsCut (· = ',') raw.toList (before ++ after))
  (h' : Text.IsCut (· = ',') raw'.toList (before ++ p :: after))

include h h'

theorem ofText_insert_of_none (hp : mentioned? p = none) : ofText raw' = ofText raw := by
  apply ofText_congr
  rw [knownIn_append h', knownIn_append h, List.filterMap_cons_none hp]

theorem ofText_insert_of_repeated (hb : ∃ q ∈ before, Mentions q k) (hp : Mentions p k) :
    ofText raw' = ofText raw := by
  have hk : k ∈ before.filterMap mentioned? := by
    obtain ⟨q, hq, hqk⟩ := hb
    exact List.mem_filterMap.mpr ⟨q, hq, mentioned?_eq_some_iff.mpr hqk⟩
  apply ofText_congr
  rw [knownIn_append h', knownIn_append h,
    List.filterMap_cons_some (mentioned?_eq_some_iff.mpr hp), eraseDups_append_cons hk]

end Edits

theorem ofText_respell (h : Text.IsCut (· = ',') raw.toList (before ++ p :: after))
    (h' : Text.IsCut (· = ',') raw'.toList (before ++ p' :: after))
    (hp : mentioned? p' = mentioned? p) : ofText raw' = ofText raw := by
  apply ofText_congr
  rw [knownIn_append h', knownIn_append h, List.filterMap_cons, List.filterMap_cons, hp]

/-! ## Registries -/

/-- A registry ranks kinds in the order that the source's text asks for. -/
theorem preference_registry {σ δ : Type} {src : Source σ δ} {p : Pool src} (hp : p.Reachable)
    (hsrc : ∀ w, (src.preference w).1 = ofText raw) (c : Category) :
    (p.registry c).1.preference = ofText raw := by
  obtain ⟨w, hw⟩ := (hp.offers c).preference
  rw [hsrc w, complete_of_nodup (nodup_ofText raw) (builtin_mem_ofText raw)] at hw
  exact hw

/-- A preference text has one reading, and asks for what it reads first: the usual order if it
    mentions no kind, and otherwise the kinds in the order of their first mentions, the
    built-in one last if it is not among them. The answer can be written down and read again;
    blank, unknown and repeated pieces and the spelling of a piece make no difference to it;
    and registries use it as it is. -/
theorem ofText_of_reads (raw : String) :
    (∃ kinds unknown, (∀ ks us, Reads raw ks us ↔ ks = kinds ∧ us = unknown) ∧
      ofText raw =
        (if kinds = [] then usual
         else if Kind.builtin ∈ kinds then kinds
         else kinds ++ [.builtin]) ∧
      unknownIn raw = unknown) ∧
    (ofText raw).Nodup ∧ Kind.builtin ∈ ofText raw ∧
    ofText (",".intercalate ((ofText raw).map Kind.name)) = ofText raw ∧
    (∀ (raw' : String) (before after : List (List Char)) (p : List Char),
      Text.IsCut (· = ',') raw.toList (before ++ after) →
      Text.IsCut (· = ',') raw'.toList (before ++ p :: after) →
      ((∀ c ∈ p, Text.isBlank c = true) ∨ (∀ k, ¬ Mentions p k) ∨
        ∃ k, (∃ q ∈ before, Mentions q k) ∧ Mentions p k) →
      ofText raw' = ofText raw) ∧
    (∀ (raw' : String) (before after : List (List Char)) (p p' t t' : List Char),
      Text.IsCut (· = ',') raw.toList (before ++ p :: after) →
      Text.IsCut (· = ',') raw'.toList (before ++ p' :: after) →
      Text.IsTrimmed p t → Text.IsTrimmed p' t' → Text.SameButCase t' t →
      ofText raw' = ofText raw) ∧
    complete (ofText raw) = ofText raw ∧
    ∀ (σ δ : Type) (src : Source σ δ) (p : Pool src),
      (∀ w, (src.preference w).1 = ofText raw) → p.Reachable →
      ∀ c, (p.registry c).1.preference = ofText raw := by
  have hd := nodup_ofText raw
  have hb := builtin_mem_ofText raw
  have hcut : Text.IsCut (· = ',') raw.toList (Text.pieceChars (· = ',') raw.toList) :=
    Text.isCut_pieceChars raw.toList
  refine ⟨⟨_, _, fun ks us => reads_iff hcut, ?_, unknownIn_eq hcut⟩, hd, hb, ?_, ?_, ?_,
    complete_of_nodup hd hb, ?_⟩
  · rw [← knownIn_eq hcut]
    exact ofText_eq raw
  · exact ofText_of_knownIn (knownIn_names (List.ne_nil_of_mem hb)) hd hb
  · intro raw' before after p h h' hp
    rcases hp with hp | hp | ⟨k, hk, hp⟩
    · exact ofText_insert_of_none h h'
        (mentioned?_of_blank (Text.trimChars_eq_nil_iff.mpr hp))
    · exact ofText_insert_of_none h h' (mentioned?_eq_none_iff.mpr hp)
    · exact ofText_insert_of_repeated h h' hk hp
  · intro raw' before after p p' t t' h h' ht ht' hsame
    exact ofText_respell h h' (mentioned?_congr ht ht' hsame)
  · intro σ δ src p hsrc hp c
    exact preference_registry hp hsrc c

/-- Host and CLDR, with host once more and CLDR in another case. -/
theorem ofText_of_reads_host :
    ofText " Host,icu,cldr" = [.host, .extendedData, .builtin] ∧
      ofText " Host,icu,\thost,cldr" = ofText " Host,icu,cldr" ∧
      ofText " Host,icu,Cldr " = ofText " Host,icu,cldr" ∧
      (((Pool.fresh ((Demo.catalog (ofText " Host,icu,cldr")).toSource 0) ()).registry
        .localeName).1.preference = ofText " Host,icu,cldr") := by
  obtain ⟨-, -, -, -, hinsert, hrespell, -, hregistry⟩ := ofText_of_reads " Host,icu,cldr"
  have hcut : Text.IsCut (· = ',') " Host,icu,cldr".toList
      [" Host".toList, "icu".toList, "cldr".toList] := Text.isCut_iff.mpr (by decide)
  have hcut' : Text.IsCut (· = ',') " Host,icu,\thost,cldr".toList
      [" Host".toList, "icu".toList, "\thost".toList, "cldr".toList] :=
    Text.isCut_iff.mpr (by decide)
  have hcut'' : Text.IsCut (· = ',') " Host,icu,Cldr ".toList
      [" Host".toList, "icu".toList, "Cldr ".toList] := Text.isCut_iff.mpr (by decide)
  have hhost : Mentions " Host".toList .host :=
    ⟨"Host".toList, Text.isTrimmed_iff.mpr (by decide), "HOST", by decide, by decide⟩
  have hhost' : Mentions "\thost".toList .host :=
    ⟨"host".toList, Text.isTrimmed_iff.mpr (by decide), "HOST", by decide, by decide⟩
  refine ⟨by decide, ?_, ?_, ?_⟩
  · exact hinsert _ [" Host".toList, "icu".toList] ["cldr".toList] _ hcut hcut'
      (Or.inr (Or.inr ⟨.host, ⟨_, List.mem_cons_self, hhost⟩, hhost'⟩))
  · exact hrespell _ [" Host".toList, "icu".toList] [] _ _ "cldr".toList "Cldr".toList hcut hcut''
      (Text.isTrimmed_iff.mpr (by decide)) (Text.isTrimmed_iff.mpr (by decide)) (by decide)
  · exact hregistry _ _ _ _ (fun _ => rfl) (.fresh ()) .localeName

end Preference

end LocaleServices

import GoCluster.Filters.Domains
/-!
# What the lists of a filter always are

`All.edits` is the induction over edits: what holds of new lists and is kept
when a token is stored holds of every list of every filter that edits lead to,
and of the lists that NEARBY keeps. `representation_invariant` is such a fact,
together with what one `PASS` or `REJECT` does.
-/
open Golib List

namespace GoCluster.Filters

/-! ## Lists under edits -/

/-- `Q` holds of the lists in use and of those put aside. -/
structure Filter.All (Q : (d : Domain) → AllowBlock d.Token → Prop) (f : Filter) : Prop where
  lists : ∀ d, Q d (f.lists d)
  snapshot : ∀ snapshot, f.nearbySnapshot = some snapshot → ∀ d h, Q d (snapshot d h)

section Edits
variable [Unicode] {defaults : Defaults} {Q : (d : Domain) → AllowBlock d.Token → Prop} {ok : Edit → Prop}

/-- `Q` holds of the lists that are made anew, and storing the token of an edit in `ok` keeps it. -/
structure Kept (defaults : Defaults) (ok : Edit → Prop) (Q : (d : Domain) → AllowBlock d.Token → Prop) : Prop where
  opened : ∀ d, Q d {}
  blocked : ∀ d, Q d AllowBlock.blocked
  modes : Q .mode (AllowBlock.allowOnly defaults.modes)
  source : ∀ (l : AllowBlock Str) t, normalizeSource t ≠ [] → Q .source l → Q .source (l.set (normalizeSource t) true)
  set : ∀ d (l : AllowBlock d.Token) raw t enabled, ok (.set d raw enabled) → stored d raw = some t → Q d l →
    Q d (l.set t enabled)

variable {f : Filter}

namespace Filter.All

section
omit [Unicode]

theorem setCanonical (h : f.All Q) {d : Domain} {c : Option d.Token} {enabled : Bool}
    (hs : ∀ t, c = some t → Q d ((f.lists d).set t enabled)) : (f.setCanonical d c enabled).All Q := by
  cases c with
  | none => exact h
  | some t =>
    refine ⟨fun d' => ?_, h.snapshot⟩
    by_cases hd : d' = d
    · subst hd
      rw [lists_setCanonical_self]
      exact hs t rfl
    · rw [lists_setCanonical_of_ne f hd]
      exact h.lists d'

theorem resetDomain (h : f.All Q) {d : Domain} (ho : Q d {}) : (f.resetDomain d).All Q := by
  refine ⟨fun d' => ?_, h.snapshot⟩
  by_cases hd : d' = d
  · subst hd
    rw [lists_resetDomain_self]
    exact ho
  · rw [lists_resetDomain_of_ne f hd]
    exact h.lists d'

theorem blockDomain (h : f.All Q) {d : Domain} (hb : Q d AllowBlock.blocked) : (f.blockDomain d).All Q := by
  refine ⟨fun d' => ?_, h.snapshot⟩
  by_cases hd : d' = d
  · subst hd
    rw [lists_blockDomain_self]
    exact hb
  · rw [lists_blockDomain_of_ne f hd]
    exact h.lists d'

theorem enableNearby (h : f.All Q) (userFine userCoarse : CellID) : (f.enableNearby userFine userCoarse).All Q := by
  unfold Filter.enableNearby
  split_ifs
  · exact h
  · refine ⟨h.lists, fun snapshot hs d hd => ?_⟩
    -- The snapshot is the one from before, or it is taken now.
    cases hb : f.nearbySnapshot with
    | none =>
      rw [hb] at hs
      cases hs
      exact h.lists d
    | some before =>
      rw [hb] at hs
      cases hs
      exact h.snapshot before hb d hd

theorem disableNearby (h : f.All Q) : f.disableNearby.All Q := by
  refine ⟨fun d => ?_, nofun⟩
  unfold Filter.disableNearby
  cases hb : f.nearbySnapshot with
  | none => exact h.lists d
  | some before =>
    rw [lists_restoreLocationSnapshot]
    split_ifs with hd
    · exact h.snapshot before hb d hd
    · exact h.lists d

theorem reset (h : f.All Q) (ho : ∀ d, Q d {}) : f.reset.All Q := by
  refine ⟨fun d => ?_, nofun⟩
  rw [lists_reset]
  cases hb : f.nearbySnapshot with
  | none => exact ho d
  | some before =>
    split_ifs with hd
    · exact h.snapshot before hb d hd
    · exact ho d

end

theorem newFilter (kept : Kept defaults ok Q) : (newFilter defaults).All Q := by
  have hso : ∀ (sources : List Str) (f : Filter), f.All Q →
      (sources.foldl (fun f source => f.setSource true source) f).All Q := by
    intro sources
    induction sources with
    | nil => exact fun f h => h
    | cons source sources ih =>
      intro f h
      apply ih
      refine h.setCanonical fun t ht => ?_
      unfold nonEmpty at ht
      split_ifs at ht with hne
      cases ht
      exact kept.source _ _ hne (h.lists .source)
  have hn : Filter.All Q
      { lists := Function.update (fun _ => {}) .mode (AllowBlock.allowOnly defaults.modes)
        switches := fun switch => if switch = .beacon then none else some true } := by
    refine ⟨fun d => ?_, nofun⟩
    by_cases hd : d = .mode
    · subst hd
      exact kept.modes
    · dsimp only
      rw [Function.update_of_ne hd]
      exact kept.opened d
  have ha := hso defaults.sources _ hn
  exact ⟨ha.lists, ha.snapshot⟩

theorem edit (kept : Kept defaults ok Q) (h : f.All Q) {e : Edit} (he : ok e) : (f.edit defaults e).All Q := by
  cases e with
  | set d raw enabled =>
    show (f.set enabled d raw).All Q
    rw [set_eq]
    exact h.setCanonical fun t ht => kept.set d _ raw t enabled he ht (h.lists d)
  | resetDomain d => exact h.resetDomain (kept.opened d)
  | blockDomain d => exact h.blockDomain (kept.blocked d)
  | addCallsignPattern side pattern =>
    show (f.addCallsignPattern side pattern).All Q
    unfold Filter.addCallsignPattern
    dsimp only
    split_ifs <;> exact ⟨h.lists, h.snapshot⟩
  | addBlockCallsignPattern side pattern =>
    show (f.addBlockCallsignPattern side pattern).All Q
    unfold Filter.addBlockCallsignPattern
    dsimp only
    split_ifs <;> exact ⟨h.lists, h.snapshot⟩
  | clearCallsignPatterns | clearCallsignBlockPatterns | setSwitch | updateNearbyUserCells =>
    exact ⟨h.lists, h.snapshot⟩
  | enableNearby userFine userCoarse => exact h.enableNearby userFine userCoarse
  | disableNearby => exact h.disableNearby
  | reset => exact h.reset kept.opened
  | resetToDefaults => exact newFilter kept

theorem edits (kept : Kept defaults ok Q) (h : f.All Q) {es : List Edit} (hes : ∀ e ∈ es, ok e) :
    (f.edits defaults es).All Q := by
  induction es generalizing f with
  | nil => exact h
  | cons e es ih =>
    apply ih (h.edit kept (hes e (mem_cons_self ..)))
    exact fun e' he' => hes e' (mem_cons_of_mem e he')

end Filter.All
end Edits

/-! ## Supported tokens -/

variable {band t : Str} {l : List Str}

section Supported
variable [Unicode]

/-- The tokens a user can give, as the source spells them. -/
def Supported : (d : Domain) → d.Token → Prop
  | .band, t => t ∈ supportedBandNames
  | .mode, t => t ∈ supportedModes
  | .source, t => t ∈ supportedSources
  | .confidence, t => t ∈ supportedConfidenceSymbols
  | .path, t => t ∈ supportedPathClasses
  | .dxCont, t | .deCont, t => t ∈ supportedContinents
  | .dxZone, t | .deZone, t => isSupportedZone t = true
  | .dxDXCC, t | .deDXCC, t => 0 < t
  | .dxGrid2, t | .deGrid2, t => t ≠ [] ∧ normalizeGrid2Token t = t

theorem normalizeBand_ascii {s : Str} (h : isASCII (trimSpace s)) :
    normalizeBand s = @normalizeBand .asciiOnly s := by
  simp only [normalizeBand, toLower, h, if_true]

omit [Unicode] in
theorem bands_spec : ∀ band ∈ supportedBandNames,
    band ≠ [] ∧ trimSpace band = band ∧ isASCII band ∧ @normalizeBand .asciiOnly band = band := by decide +kernel

theorem normalizeBand_supported (h : band ∈ supportedBandNames) : normalizeBand band = band := by
  obtain ⟨-, ht, ha, hb⟩ := bands_spec band h
  rw [normalizeBand_ascii (by rw [ht, ha]), hb]

theorem isValidBand_supported (h : band ∈ supportedBandNames) : isValidBand band := by
  obtain ⟨entry, he, hn⟩ := mem_map.1 h
  simp only [isValidBand, normalizeBand_supported h, Bool.and_eq_true, decide_eq_true_eq, any_eq_true]
  refine ⟨(bands_spec band h).1, entry, he, ?_⟩
  rw [hn, normalizeBand_supported h]
  exact beq_self_eq_true band

theorem storedBand_supported (h : band ∈ supportedBandNames) : Filter.storedBand band = some band := by
  simp only [Filter.storedBand, normalizeBand_supported h, isValidBand_supported h, (bands_spec band h).1,
    Bool.not_true,
    Bool.false_eq_true, or_self, if_false]

/-- The lists of texts that are normalized by trimming and upper case. -/
def plainLists : List (List Str) :=
  [supportedModes, supportedSources, supportedConfidenceSymbols, supportedPathClasses, supportedContinents]

section
omit [Unicode]

theorem plain_of_mem : ∀ l ∈ plainLists, ∀ t ∈ l, isPlain t ∧ t ≠ [] := by decide +kernel

theorem ne_nil_of_mem (hl : l ∈ plainLists) (h : t ∈ l) : t ≠ [] := (plain_of_mem l hl t h).2

theorem trimSpace_of_mem (hl : l ∈ plainLists) (h : t ∈ l) : trimSpace t = t :=
  trimSpace_plain (plain_of_mem l hl t h).1

end

theorem upper_trim_of_mem (hl : l ∈ plainLists) (h : t ∈ l) : toUpper (trimSpace t) = t := by
  rw [trimSpace_of_mem hl h, toUpper_plain (plain_of_mem l hl t h).1]

section
omit [Unicode]

theorem modes_plain : supportedModes ∈ plainLists := by simp [plainLists]

theorem sources_plain : supportedSources ∈ plainLists := by simp [plainLists]

theorem confidences_plain : supportedConfidenceSymbols ∈ plainLists := by simp [plainLists]

theorem paths_plain : supportedPathClasses ∈ plainLists := by simp [plainLists]

theorem continents_plain : supportedContinents ∈ plainLists := by simp [plainLists]

end

theorem canonicalModeToken_supported {mode : Str} (h : mode ∈ supportedModes) : canonicalModeToken mode = mode := by
  have ha : ∀ mode ∈ supportedModes, (canonicalPSKModeUpper mode).getD mode = mode := by decide +kernel
  have hp := (plain_of_mem _ modes_plain mode h).1
  simp only [canonicalModeToken, canonicalPSKMode, normalizeUpperASCIITrim, trimSpace_plain hp, toUpper_plain hp,
    isASCII_plain hp, map_upperByte_plain hp, if_true, ha mode h]

theorem normalizeSource_supported {source : Str} (h : source ∈ supportedSources) : normalizeSource source = source := by
  simp only [normalizeSource, upper_trim_of_mem sources_plain h]
  exact if_pos (contains_iff_mem.2 h)

theorem normalizeConfidenceSymbol_supported {symbol : Str} (h : symbol ∈ supportedConfidenceSymbols) :
    normalizeConfidenceSymbol symbol = symbol := by
  obtain ⟨hs, hne⟩ := plain_of_mem _ confidences_plain symbol h
  simp only [normalizeConfidenceSymbol, trimSpace_plain hs, toUpper_plain hs, hne]
  exact if_pos (contains_iff_mem.2 h)

theorem normalizePathClass_supported {cls : Str} (h : cls ∈ supportedPathClasses) : normalizePathClass cls = cls := by
  simp only [normalizePathClass, upper_trim_of_mem paths_plain h, ne_nil_of_mem paths_plain h]
  exact if_pos (contains_iff_mem.2 h)

theorem storedContinent_supported {cont : Str} (h : cont ∈ supportedContinents) :
    Filter.storedContinent cont = some cont := by
  simp only [Filter.storedContinent, isSupportedContinent, upper_trim_of_mem continents_plain h]
  exact if_pos (contains_iff_mem.2 h)

theorem trimSpace_grid2 {grid : Str} (hne : grid ≠ []) (h : normalizeGrid2Token grid = grid) :
    trimSpace grid = grid := by
  -- A grid is the start of its own trimmed text in upper case, so trimming cannot have made it shorter.
  have hsu : (trimSpace grid).Sublist grid :=
    (trimRight_isPrefix _).sublist.trans (trimLeft_suffix grid).sublist
  unfold normalizeGrid2Token at h
  dsimp only at h
  split_ifs at h with hle
  · exact absurd h.symm hne
  rw [h] at hle
  have hle : grid.length = 2 := by simpa using hle
  apply hsu.eq_of_length_le
  rw [hle]
  by_contra hsh
  have hu : 2 ≤ (toUpper (trimSpace grid)).length := by
    rw [← hle]
    nth_rewrite 1 [← h]
    exact length_take_le' ..
  match ht : trimSpace grid with
  | [] => simp [ht, toUpper, isASCII] at hu
  | [b] =>
    rw [ht] at hu h
    by_cases hb : b < 0x80
    · simp [toUpper, isASCII, hb] at hu
    · have hby : toUpper [b] = encodeRune (upperRune runeError) := by simp [toUpper, isASCII, runes, hb]
      rw [hby] at hu h
      have hl : ∀ x ∈ grid, 0x80 ≤ x := by
        intro x hx
        rw [← h] at hx
        exact le_of_mem_encodeRune hu (mem_of_mem_take hx)
      obtain ⟨p, q, rfl⟩ := length_eq_two.1 hle
      have hsp : ∀ x : UInt8, 0x80 ≤ x → isSpaceByte x = false := by
        simp only [isSpaceByte]
        grind
      have hp := hsp p (hl p (by simp))
      have hq := hsp q (hl q (by simp))
      by_cases hs : isSpace2 p q
      · simp [trimSpace, trimLeft, trimRight, trimRev, hp, hs] at ht
      · simp [trimSpace, trimLeft, trimRight, trimRev, hp, hq, hs] at ht
  | _ :: _ :: rest =>
    rw [ht] at hsh
    simp at hsh

omit [Unicode] in
theorem nonEmpty_eq_some (h : t ≠ []) : Filter.nonEmpty t = some t := if_neg h

theorem supported_spec {d : Domain} {t : d.Token} (h : Supported d t) :
    stored d t = some t ∧ lookedUp d t = t ∧ known d t := by
  have hk : ∀ {t : Str}, t ≠ [] → (!t.isEmpty) := by simp
  cases d with
  | band =>
    obtain ⟨hne, ht, -⟩ := bands_spec t h
    refine ⟨?_, ht, hk hne⟩
    rw [stored, storedBand_supported h]
  | mode =>
    refine ⟨?_, trimSpace_of_mem modes_plain h, hk (ne_nil_of_mem modes_plain h)⟩
    rw [stored, canonicalModeToken_supported h]
  | source =>
    have hne := ne_nil_of_mem sources_plain h
    refine ⟨?_, trimSpace_of_mem sources_plain h, hk hne⟩
    rw [stored, normalizeSource_supported h, nonEmpty_eq_some hne]
  | confidence =>
    have hne := ne_nil_of_mem confidences_plain h
    refine ⟨?_, trimSpace_of_mem confidences_plain h, hk hne⟩
    rw [stored, normalizeConfidenceSymbol_supported h, nonEmpty_eq_some hne]
  | path =>
    have hne := ne_nil_of_mem paths_plain h
    refine ⟨?_, trimSpace_of_mem paths_plain h, hk hne⟩
    rw [stored, normalizePathClass_supported h, nonEmpty_eq_some hne]
  | dxCont | deCont =>
    refine ⟨?_, trimSpace_of_mem continents_plain h, hk (ne_nil_of_mem continents_plain h)⟩
    rw [stored, storedContinent_supported h]
  | dxZone | deZone => exact ⟨if_pos h, rfl, h⟩
  | dxDXCC | deDXCC => exact ⟨if_neg (Int.not_le.2 h), rfl, rfl⟩
  | dxGrid2 | deGrid2 =>
    refine ⟨?_, trimSpace_grid2 h.1 h.2, hk h.1⟩
    rw [stored, h.2, nonEmpty_eq_some h.1]

end Supported

/-! ## The representation invariant -/

section Theorems
variable [Unicode]

theorem kept_wellFormed (defaults : Defaults) :
    Kept defaults (fun _ => True) fun _ (l : AllowBlock _) => l.WellFormed where
  opened _ := AllowBlock.wellFormed_open
  blocked _ := AllowBlock.wellFormed_blocked
  modes := AllowBlock.wellFormed_allowOnly defaults.modes_ne
  source _ _ _ h := h.set _ _
  set _ _ _ _ _ _ _ h := h.set _ _

/-- A filter that commands make of a new one. -/
def Reachable (defaults : Defaults) (f : Filter) : Prop := ∃ es, f = (newFilter defaults).edits defaults es

variable {defaults : Defaults} {f : Filter}

theorem Reachable.wellFormed (hf : Reachable defaults f) : f.All fun _ l => l.WellFormed := by
  obtain ⟨es, rfl⟩ := hf
  have kept := kept_wellFormed defaults
  exact (Filter.All.newFilter kept).edits kept fun _ _ => trivial

/-- The lists of a domain are disjoint and an empty allow list has a flag beside it, and a supported token passes right
after `PASS` and does not right after `REJECT`. -/
theorem representation_invariant (hf : Reachable defaults f) : (∀ d, (∀ t ∈ (f.lists d).allow, t ∉ (f.lists d).block) ∧
        ((f.lists d).allow = ∅ → (f.lists d).allowAll = true ∨ (f.lists d).blockAll = true)) ∧
      ∀ d t, Supported d t → (f.set true d t).accepts d t = true ∧ (f.set false d t).accepts d t = false := by
  refine ⟨fun d => ⟨(hf.wellFormed.lists d).disjoint, (hf.wellFormed.lists d).flagged⟩, fun d t ht => ?_⟩
  obtain ⟨hs, hl, hk⟩ := supported_spec ht
  have hse : ∀ enabled, (f.set enabled d t).accepts d t = ((f.lists d).set t enabled).passes (known d) t := by
    intro enabled
    rw [accepts_eq, hl, set_eq, Filter.lists_setCanonical_self, hs]
  refine ⟨?_, ?_⟩
  · rw [hse]
    exact AllowBlock.passes_set_true _ t hk
  · rw [hse]
    exact AllowBlock.passes_set_false _ t

end Theorems

section Example

local instance invariantUnicode : Unicode := .asciiOnly

def noBands : Filter := (newFilter builtinDefaults).edits builtinDefaults [.blockDomain .band]

theorem representation_invariant_20m : Reachable builtinDefaults noBands ∧ Supported .band "20m" ∧
      (noBands.set true .band "20m").accepts .band "20m" = true ∧
      (noBands.set false .band "20m").accepts .band "20m" = false :=
  have hf : Reachable builtinDefaults noBands := ⟨[.blockDomain .band], rfl⟩
  have ht : Supported .band "20m" := (by decide +kernel : ascii "20m" ∈ supportedBandNames)
  ⟨hf, ht, (representation_invariant hf).2 .band "20m" ht⟩

end Example

end GoCluster.Filters

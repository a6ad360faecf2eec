import GoCluster.Filters.Domains
/-!
# Blocking after everything is blocked

A setter that blocks one token clears the block-all flag, and with an empty
allow list it sets the flag for all. So the first item that is rejected after
`REJECT <domain> ALL` lets every other token of the domain through.
`blocking_kept_iff` says when no spot gets through by that.
-/
open Golib

namespace GoCluster.Filters

/-! ## Filters that differ in one domain -/

/-- The filters are alike in all that a match reads but domain `d`. -/
structure SameBut (d : Domain) (f g : Filter) : Prop where
  lists : ∀ d', d' ≠ d → g.lists d' = f.lists d'
  calls : g.calls = f.calls
  switches : g.switches = f.switches
  nearbyEnabled : g.nearbyEnabled = f.nearbyEnabled
  nearbyUserFine : g.nearbyUserFine = f.nearbyUserFine
  nearbyUserCoarse : g.nearbyUserCoarse = f.nearbyUserCoarse

variable {s : Spot}

namespace SameBut
variable {d : Domain} {f g h : Filter}

theorem refl (d : Domain) (f : Filter) : SameBut d f f := ⟨fun _ _ => rfl, rfl, rfl, rfl, rfl, rfl⟩

theorem symm (hfg : SameBut d f g) : SameBut d g f where
  lists d' hd' := (hfg.lists d' hd').symm
  calls := hfg.calls.symm
  switches := hfg.switches.symm
  nearbyEnabled := hfg.nearbyEnabled.symm
  nearbyUserFine := hfg.nearbyUserFine.symm
  nearbyUserCoarse := hfg.nearbyUserCoarse.symm

theorem trans (hfg : SameBut d f g) (hgh : SameBut d g h) : SameBut d f h where
  lists d' hd' := (hgh.lists d' hd').trans (hfg.lists d' hd')
  calls := hgh.calls.trans hfg.calls
  switches := hgh.switches.trans hfg.switches
  nearbyEnabled := hgh.nearbyEnabled.trans hfg.nearbyEnabled
  nearbyUserFine := hgh.nearbyUserFine.trans hfg.nearbyUserFine
  nearbyUserCoarse := hgh.nearbyUserCoarse.trans hfg.nearbyUserCoarse

theorem setCanonical (f : Filter) (d : Domain) (c : Option d.Token) (enabled : Bool) :
    SameBut d f (f.setCanonical d c enabled) := by
  cases c with
  | none => exact refl d f
  | some t => exact ⟨fun d' hd' => f.lists_setCanonical_of_ne hd' (some t) enabled, rfl, rfl, rfl, rfl, rfl⟩

theorem resetDomain (f : Filter) (d : Domain) : SameBut d f (f.resetDomain d) :=
  ⟨fun _ hd' => f.lists_resetDomain_of_ne hd', rfl, rfl, rfl, rfl, rfl⟩

theorem blockDomain (f : Filter) (d : Domain) : SameBut d f (f.blockDomain d) :=
  ⟨fun _ hd' => f.lists_blockDomain_of_ne hd', rfl, rfl, rfl, rfl, rfl⟩

variable [Unicode]

theorem tests (hfg : SameBut d f g) (s : Spot) (d' : Domain) : g.tests s d' = f.tests s d' := by
  simp only [Filter.tests, hfg.nearbyEnabled]

variable [Cells]

theorem matchesRest (hfg : SameBut d f g) (h : f.MatchesRest s) : g.MatchesRest s where
  beacon hs := by simpa only [Filter.beaconsEnabled, Filter.enabled, hfg.switches] using h.beacon hs
  nearby hnearby := by
    rw [hfg.nearbyEnabled] at hnearby
    simpa only [Filter.matchesNearby, hfg.nearbyUserFine, hfg.nearbyUserCoarse] using h.nearby hnearby
  dxCall := by rw [hfg.calls]; exact h.dxCall
  deCall := by rw [hfg.calls]; exact h.deCall

theorem matchesWithPath (hfg : SameBut d f g) {c : Str} (h : f.matchesWithPath s c)
    (hd : g.tests s d → g.accepts d (token s c d)) : g.matchesWithPath s c := by
  obtain ⟨hr, ha⟩ := (matchesWithPath_iff f s c).1 h
  rw [matchesWithPath_iff]
  refine ⟨hfg.matchesRest hr, fun d' ht => ?_⟩
  by_cases hd' : d' = d
  · subst hd'
    exact hd ht
  · have := ha d' (by rw [← hfg.tests]; exact ht)
    rwa [accepts_eq, hfg.lists d' hd', ← accepts_eq]

end SameBut

/-! ## REJECT commands -/

section Reject
variable [Unicode]

/-- One `REJECT <domain> <item>[,<item>...]`. -/
def Filter.rejectItems (f : Filter) (d : Domain) (items : List d.Token) : Filter :=
  items.foldl (fun f item => f.set false d item) f

/-- The tokens that `REJECT` commands with these item lists put on the block list. -/
def rejectedTokens (d : Domain) (cmds : List (List d.Token)) : List d.Token := cmds.flatten.filterMap (stored d)

theorem sameBut_rejectItems (d : Domain) (items : List d.Token) (f : Filter) : SameBut d f (f.rejectItems d items) := by
  induction items generalizing f with
  | nil => exact .refl d f
  | cons item items ih =>
    have hf : SameBut d f (f.set false d item) := by
      rw [set_eq]
      exact .setCanonical f d _ false
    exact hf.trans (ih _)

theorem lists_rejectItems (d : Domain) (items : List d.Token) (f : Filter) :
    (f.rejectItems d items).lists d = (f.lists d).blockEach (items.filterMap (stored d)) := by
  induction items generalizing f with
  | nil => rfl
  | cons item items ih =>
    have hr := ih (f.set false d item)
    rw [set_eq, Filter.lists_setCanonical_self] at hr
    rw [show f.rejectItems d (item :: items) = (f.setCanonical d (stored d item) false).rejectItems d items by
      rw [← set_eq]; rfl, hr]
    cases hs : stored d item with
    | none => rw [List.filterMap_cons_none hs]
    | some t =>
      rw [List.filterMap_cons_some hs]
      rfl

def Filter.rejectEach (f : Filter) (d : Domain) (cmds : List (List d.Token)) : Filter :=
  cmds.foldl (fun f items => f.rejectItems d items) f

theorem rejectEach_eq (f : Filter) (d : Domain) (cmds : List (List d.Token)) :
    f.rejectEach d cmds = f.rejectItems d cmds.flatten := by
  simp only [Filter.rejectEach, Filter.rejectItems, List.foldl_flatten]

variable [Cells]

def Filter.Rejects (f : Filter) (d : Domain) (s : Spot) (c : Str) : Prop :=
  f.tests s d = true ∧ f.accepts d (token s c d) = false

theorem not_matches_of_rejects {f : Filter} {d : Domain} {c : Str} (h : f.Rejects d s c) :
    f.matchesWithPath s c = false := by
  by_contra hm
  have ha := ((matchesWithPath_iff f s c).1 (by simpa using hm)).2 d h.1
  rw [h.2] at ha
  cases ha

/-- What was blocked as a whole stays blocked exactly if no later command has an item, or if the items are all that
the spots carry which the rest of the filter lets through. -/
theorem blocking_kept_iff (f : Filter) (d : Domain) (cmds : List (List d.Token)) :
    (∀ (s : Spot) (c : Str), (f.blockDomain d).Rejects d s c →
        ((f.blockDomain d).rejectEach d cmds).matchesWithPath s c = false) ↔ rejectedTokens d cmds = [] ∨
        ∀ (s : Spot) (c : Str), f.tests s d = true → (f.resetDomain d).matchesWithPath s c = true →
          lookedUp d (token s c d) ∈ rejectedTokens d cmds := by
  have hb := SameBut.blockDomain f d
  have hre := SameBut.resetDomain f d
  have ha : SameBut d f ((f.blockDomain d).rejectEach d cmds) := by
    rw [rejectEach_eq]
    exact hb.trans (sameBut_rejectItems d _ _)
  have hl : ((f.blockDomain d).rejectEach d cmds).lists d = AllowBlock.blocked.blockEach (rejectedTokens d cmds) := by
    rw [rejectEach_eq, lists_rejectItems, Filter.lists_blockDomain_self, rejectedTokens]
  rcases eq_or_ne (rejectedTokens d cmds) [] with hn | hs
  · -- Nothing was stored, so the domain is as it was.
    simp only [hn, true_or, iff_true]
    intro s c hr
    refine not_matches_of_rejects (d := d) ⟨?_, ?_⟩
    · rw [ha.tests]
      exact hr.1
    · rw [accepts_eq, hl, hn]
      exact AllowBlock.passes_blocked _
  · have hac : ∀ s c, ((f.blockDomain d).rejectEach d cmds).accepts d (token s c d) =
        !decide (lookedUp d (token s c d) ∈ rejectedTokens d cmds) := by
      intro s c
      rw [accepts_eq, hl]
      exact AllowBlock.passes_blockEach_blocked hs _
    simp only [hs, false_or]
    constructor
    · intro hk s c ht hm
      by_contra hf
      have hr : (f.blockDomain d).Rejects d s c := by
        refine ⟨by exact ht, ?_⟩
        rw [accepts_eq, Filter.lists_blockDomain_self]
        exact AllowBlock.passes_blocked _
      have hth := (hre.symm.trans ha).matchesWithPath hm fun _ => by rw [hac]; simpa using hf
      rw [hk s c hr] at hth
      cases hth
    · intro hc s c hr
      by_contra hm
      have hm : ((f.blockDomain d).rejectEach d cmds).matchesWithPath s c := by simpa using hm
      have ht : f.tests s d := by
        exact hr.1
      have ho := (ha.symm.trans hre).matchesWithPath hm fun _ => by
        rw [accepts_eq, Filter.lists_resetDomain_self]
        exact AllowBlock.passes_open _
      have hto := ((matchesWithPath_iff _ s c).1 hm).2 d (by rw [ha.tests]; exact ht)
      rw [hac] at hto
      simp [hc s c ht ho] at hto

end Reject

/-! ## One band more lets all others through -/

section Example

local instance blockingUnicode : Unicode := .asciiOnly

local instance blockingCells : Cells := ⟨fun _ => 0, fun _ => 0⟩

theorem reject_band_opens :
    ((newFilter builtinDefaults).blockDomain .band).matchesWithPath { mode := "CW", band := "40m" } "HIGH" = false ∧
      (((newFilter builtinDefaults).blockDomain .band).rejectEach .band [[ascii "20m"]]).matchesWithPath
        { mode := "CW", band := "40m" } "HIGH" := by
  decide +kernel

end Example

end GoCluster.Filters

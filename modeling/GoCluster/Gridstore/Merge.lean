import GoCluster.Gridstore.Model
/-!
# Merging by parts

A merge treats the grid with its flags as one part and the CTY data as another;
the other fields are merged each on its own. Every lemma here gives one part of
a merged record from the same part of the two records.
-/
open Golib

namespace GoCluster.Gridstore

structure GridPart where
  grid : Str
  valid : Bool
  derived : Bool
deriving DecidableEq

structure CTYPart where
  valid : Bool
  adif : UInt32
  cqZone : UInt16
  ituZone : UInt16
  continent : Str
  country : Str
deriving DecidableEq

namespace RecordValue

def gridPart (val : RecordValue) : GridPart := ⟨val.grid, val.gridValid, val.gridDerived⟩

def ctyPart (val : RecordValue) : CTYPart :=
  ⟨val.ctyValid, val.ctyADIF, val.ctyCQZone, val.ctyITUZone, val.ctyContinent, val.ctyCountry⟩

theorem ext_parts {v w : RecordValue} (hk : v.isKnown = w.isKnown) (hgr : v.gridPart = w.gridPart)
    (hct : v.ctyPart = w.ctyPart) (ho : v.observations = w.observations) (hf : v.firstSeen = w.firstSeen)
    (hu : v.updatedAt = w.updatedAt) (he : v.expiresAt = w.expiresAt) : v = w := by
  simp only [gridPart, GridPart.mk.injEq] at hgr
  simp only [ctyPart, CTYPart.mk.injEq] at hct
  obtain ⟨hg, hgv, hgd⟩ := hgr
  obtain ⟨hv, ha, hcq, hi, hco, hc⟩ := hct
  exact RecordValue.ext hk hg hgv hgd hv ha hcq hi hco hc ho hf hu he

end RecordValue

/-- A derived grid does not replace one that was reported. -/
def GridPart.merge (existing incoming : GridPart) : GridPart :=
  if !incoming.valid then existing
  else if incoming.derived && existing.valid && !existing.derived then existing
  else incoming

def CTYPart.merge (existing incoming : CTYPart) : CTYPart := if !incoming.valid then existing else incoming

/-- The earlier of two times, where zero is no time. -/
def mergeFirst (existing incoming : Int64) : Int64 :=
  if existing ≠ 0 ∧ (incoming = 0 ∨ existing < incoming) then existing else incoming

def mergeUpdated (existing incoming : Int64) : Int64 := if incoming < existing then existing else incoming

def mergeExpires (existing incoming : Int64) : Int64 := if incoming = expiresNone then existing else incoming

variable (e x : RecordValue)

@[simp] theorem merge_isKnown : (mergeRecordValue (some e) x).isKnown = (e.isKnown || x.isKnown) := by
  simp only [mergeRecordValue]
  split_ifs <;> rfl

@[simp] theorem merge_gridPart : (mergeRecordValue (some e) x).gridPart = e.gridPart.merge x.gridPart := by
  simp only [mergeRecordValue, GridPart.merge, RecordValue.gridPart]
  split_ifs <;> simp_all

@[simp] theorem merge_ctyPart : (mergeRecordValue (some e) x).ctyPart = e.ctyPart.merge x.ctyPart := by
  simp only [mergeRecordValue, CTYPart.merge, RecordValue.ctyPart]
  split_ifs <;> simp_all

@[simp] theorem merge_observations : (mergeRecordValue (some e) x).observations = e.observations + x.observations := rfl

@[simp] theorem merge_firstSeen : (mergeRecordValue (some e) x).firstSeen = mergeFirst e.firstSeen x.firstSeen := by
  simp only [mergeRecordValue, mergeFirst]
  split_ifs <;> rfl

@[simp] theorem merge_updatedAt : (mergeRecordValue (some e) x).updatedAt = mergeUpdated e.updatedAt x.updatedAt := by
  simp only [mergeRecordValue, mergeUpdated]
  split_ifs <;> rfl

@[simp] theorem merge_expiresAt : (mergeRecordValue (some e) x).expiresAt = mergeExpires e.expiresAt x.expiresAt := by
  simp only [mergeRecordValue, mergeExpires]
  split_ifs <;> rfl

/-! ## Grouping -/

theorem GridPart.merge_assoc (p q r : GridPart) : (p.merge q).merge r = p.merge (q.merge r) := by
  obtain ⟨pg, pv, pd⟩ := p
  obtain ⟨qg, qv, qd⟩ := q
  obtain ⟨rg, rv, rd⟩ := r
  cases pv <;> cases pd <;> cases qv <;> cases qd <;> cases rv <;> cases rd <;> rfl

theorem CTYPart.merge_assoc (p q r : CTYPart) : (p.merge q).merge r = p.merge (q.merge r) := by
  unfold CTYPart.merge
  split_ifs <;> rfl

theorem mergeFirst_assoc (a b c : Int64) : mergeFirst (mergeFirst a b) c = mergeFirst a (mergeFirst b c) := by
  simp only [mergeFirst, Int64.lt_iff_toInt_lt, ne_eq, ← Int64.toInt_inj]
  split_ifs <;> omega

theorem mergeUpdated_assoc (a b c : Int64) : mergeUpdated (mergeUpdated a b) c = mergeUpdated a (mergeUpdated b c) := by
  simp only [mergeUpdated, Int64.lt_iff_toInt_lt, ← Int64.toInt_inj]
  split_ifs <;> omega

theorem mergeExpires_assoc (a b c : Int64) : mergeExpires (mergeExpires a b) c = mergeExpires a (mergeExpires b c) := by
  unfold mergeExpires
  split_ifs <;> rfl

theorem mergeRecordValue_assoc (e : Option RecordValue) (x y : RecordValue) :
    mergeRecordValue (some (mergeRecordValue e x)) y = mergeRecordValue e (mergeRecordValue (some x) y) := by
  cases e with
  | none => rfl
  | some e =>
    apply RecordValue.ext_parts
    · simp [Bool.or_assoc]
    · simp [GridPart.merge_assoc]
    · simp [CTYPart.merge_assoc]
    · simp [UInt64.add_assoc]
    · simp [mergeFirst_assoc]
    · simp [mergeUpdated_assoc]
    · simp [mergeExpires_assoc]

end GoCluster.Gridstore

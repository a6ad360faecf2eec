import GoCluster.Pathreliability.Model
/-!
# Keys of buckets

The key of a bucket holds its cells and its band, and `PurgeStale` reads back
from it whether the bucket is coarse and which band it is of.
-/
open Golib

namespace GoCluster.Pathreliability
open Filters

variable {receiver sender : CellID}

theorem toNat_pos_of_valid {cell : CellID} (h : cell ≠ invalidCell) : 0 < cell.toNat := by
  rcases Nat.eq_zero_or_pos cell.toNat with hz | hp
  · exact absurd (UInt16.toNat_inj.1 hz) h
  · exact hp

theorem or_eq_add {a b n : Nat} (h : b < 2 ^ n) : 2 ^ n * a ||| b = 2 ^ n * a + b :=
  (Nat.two_pow_add_eq_or_of_lt h a).symm

theorem toNat_shift (x : UInt16) (n : UInt64) (hn : n.toNat ≤ 48) :
    (x.toUInt64 <<< n).toNat = 2 ^ n.toNat * x.toNat := by
  have hx := x.toNat_lt
  have hlt : x.toNat * 2 ^ n.toNat < 2 ^ 64 := by
    calc x.toNat * 2 ^ n.toNat < 2 ^ 16 * 2 ^ n.toNat := Nat.mul_lt_mul_of_pos_right hx (Nat.two_pow_pos _)
      _ ≤ 2 ^ 16 * 2 ^ 48 := Nat.mul_le_mul_left _ (Nat.pow_le_pow_right (by decide) hn)
      _ = 2 ^ 64 := by decide
  rw [UInt64.toNat_shiftLeft, UInt16.toNat_toUInt64, Nat.mod_eq_of_lt (show n.toNat < 64 by omega), Nat.shiftLeft_eq,
    Nat.mod_eq_of_lt hlt, Nat.mul_comm]

theorem toNat_packKey (hr : receiver ≠ invalidCell) (hs : sender ≠ invalidCell) (band : UInt16) :
    (packKey receiver sender band).toNat = 2 ^ 48 * band.toNat + (2 ^ 32 * receiver.toNat + 2 ^ 16 * sender.toNat) := by
  have hr' := receiver.toNat_lt
  have hs' := sender.toNat_lt
  rw [packKey, if_neg (by simp [hr, hs]), UInt64.toNat_or, UInt64.toNat_or, toNat_shift _ 48 (by decide),
    toNat_shift _ 32 (by decide), toNat_shift _ 16 (by decide), Nat.or_assoc]
  simp only [UInt64.toNat_ofNat, Nat.reducePow, Nat.reduceMod]
  rw [show (4294967296 : Nat) = 2 ^ 32 from rfl, or_eq_add (by omega), show (281474976710656 : Nat) = 2 ^ 48 from rfl,
    or_eq_add (by omega)]

theorem toNat_packCoarseKey (hr : receiver ≠ invalidCell) (hs : sender ≠ invalidCell) (band : UInt16) :
    (packCoarseKey receiver sender band).toNat = 2 ^ 32 * band.toNat + (2 ^ 16 * receiver.toNat + sender.toNat) := by
  have hr' := receiver.toNat_lt
  have hs' := sender.toNat_lt
  rw [packCoarseKey, if_neg (by simp [hr, hs]), UInt64.toNat_or, UInt64.toNat_or, toNat_shift _ 32 (by decide),
    toNat_shift _ 16 (by decide), UInt16.toNat_toUInt64, Nat.or_assoc]
  simp only [UInt64.toNat_ofNat, Nat.reducePow, Nat.reduceMod]
  rw [show (65536 : Nat) = 2 ^ 16 from rfl, or_eq_add (by omega), show (4294967296 : Nat) = 2 ^ 32 from rfl,
    or_eq_add (by omega)]

theorem isCoarse_eq (key : UInt64) : isCoarse key = (key.toNat % 2 ^ 16 != 0) := by
  have hm : key.toNat &&& 65535 = key.toNat % 2 ^ 16 := Nat.and_two_pow_sub_one_eq_mod _ 16
  rw [isCoarse, bne, bne, Bool.not_inj_iff, Bool.eq_iff_iff, beq_iff_eq, beq_iff_eq, ← UInt64.toNat_inj]
  exact hm ▸ Iff.rfl

theorem toNat_keyBand (key : UInt64) :
    (keyBand key).toNat = if isCoarse key then key.toNat / 2 ^ 32 % 2 ^ 16 else key.toNat / 2 ^ 48 % 2 ^ 16 := by
  have hm (n : Nat) : n &&& 65535 = n % 2 ^ 16 := Nat.and_two_pow_sub_one_eq_mod _ 16
  have hp (n : UInt64) (hn : n.toNat < 64) :
      ((key >>> n &&& 0xFFFF).toUInt16).toNat = key.toNat / 2 ^ n.toNat % 2 ^ 16 := by
    rw [UInt64.toNat_toUInt16, UInt64.toNat_and, UInt64.toNat_shiftRight, Nat.mod_eq_of_lt hn,
      Nat.shiftRight_eq_div_pow]
    exact (congrArg (· % 2 ^ 16) (hm _)).trans (Nat.mod_mod _ _)
  rw [keyBand]
  split_ifs
  · exact hp 32 (by decide)
  · exact hp 48 (by decide)

variable {p : PathCells} (idx : UInt16)

theorem isCoarse_fineKey (h : p.HasFine) : isCoarse (p.fineKey idx) = false := by
  have hk := toNat_packKey h.1 h.2 idx
  rw [isCoarse_eq, PathCells.fineKey, bne_eq_false_iff_eq]
  omega

theorem isCoarse_coarseKey (h : p.HasCoarse) : isCoarse (p.coarseKey idx) := by
  have hk := toNat_packCoarseKey h.1 h.2 idx
  have hs := toNat_pos_of_valid h.2
  have hlt := p.senderCoarse.toNat_lt
  rw [isCoarse_eq, PathCells.coarseKey, bne_iff_ne]
  omega

theorem keyBand_fineKey (h : p.HasFine) : keyBand (p.fineKey idx) = idx := by
  have hk := toNat_packKey h.1 h.2 idx
  have hi := idx.toNat_lt
  have hr := p.receiver.toNat_lt
  have hs := p.sender.toNat_lt
  refine UInt16.toNat_inj.1 ?_
  rw [toNat_keyBand, isCoarse_fineKey idx h, if_neg Bool.false_ne_true, PathCells.fineKey]
  omega

theorem keyBand_coarseKey (h : p.HasCoarse) : keyBand (p.coarseKey idx) = idx := by
  have hk := toNat_packCoarseKey h.1 h.2 idx
  have hi := idx.toNat_lt
  have hr := p.receiverCoarse.toNat_lt
  have hs := p.senderCoarse.toNat_lt
  refine UInt16.toNat_inj.1 ?_
  rw [toNat_keyBand, isCoarse_coarseKey idx h, if_pos rfl, PathCells.coarseKey]
  omega

theorem fineKey_ne_zero (h : p.HasFine) : p.fineKey idx ≠ 0 := by
  intro hz
  have hk := toNat_packKey h.1 h.2 idx
  have hs := toNat_pos_of_valid h.2
  rw [PathCells.fineKey] at hz
  rw [hz, UInt64.toNat_zero] at hk
  omega

theorem coarseKey_ne_zero (h : p.HasCoarse) : p.coarseKey idx ≠ 0 := by
  intro hz
  have hc := isCoarse_coarseKey idx h
  rw [hz] at hc
  exact absurd hc (by decide)

theorem fineKey_ne_coarseKey {q : PathCells} (h : p.HasFine) (h' : q.HasCoarse) (idx' : UInt16) :
    p.fineKey idx ≠ q.coarseKey idx' := by
  intro heq
  have hf := isCoarse_fineKey idx h
  rw [heq, isCoarse_coarseKey idx' h'] at hf
  cases hf

/-- A key names the cells and the band of its bucket and whether the bucket is coarse, and none is the zero that stands
for no key. -/
theorem keys_determine_buckets {p q : PathCells} (hp : p.HasFine) (hp' : p.HasCoarse) (hq : q.HasFine)
    (hq' : q.HasCoarse) (band band' : UInt16) :
    (packKey p.receiver p.sender band = packKey q.receiver q.sender band' →
        p.receiver = q.receiver ∧ p.sender = q.sender ∧ band = band') ∧
      (packCoarseKey p.receiverCoarse p.senderCoarse band = packCoarseKey q.receiverCoarse q.senderCoarse band' →
        p.receiverCoarse = q.receiverCoarse ∧ p.senderCoarse = q.senderCoarse ∧ band = band') ∧
      p.fineKey band ≠ q.coarseKey band' ∧ p.fineKey band ≠ 0 ∧ p.coarseKey band ≠ 0 ∧
      isCoarse (p.fineKey band) = false ∧ isCoarse (p.coarseKey band) = true ∧
      keyBand (p.fineKey band) = band ∧ keyBand (p.coarseKey band) = band := by
  refine ⟨fun h => ?_, fun h => ?_, fineKey_ne_coarseKey band hp hq' band', fineKey_ne_zero band hp,
    coarseKey_ne_zero band hp', isCoarse_fineKey band hp, isCoarse_coarseKey band hp', keyBand_fineKey band hp,
    keyBand_coarseKey band hp'⟩
  · have hk := congrArg UInt64.toNat h
    rw [toNat_packKey hp.1 hp.2, toNat_packKey hq.1 hq.2] at hk
    have hr := p.receiver.toNat_lt
    have hs := p.sender.toNat_lt
    have hr' := q.receiver.toNat_lt
    have hs' := q.sender.toNat_lt
    simp only [← UInt16.toNat_inj]
    omega
  · have hk := congrArg UInt64.toNat h
    rw [toNat_packCoarseKey hp'.1 hp'.2, toNat_packCoarseKey hq'.1 hq'.2] at hk
    have hr := p.receiverCoarse.toNat_lt
    have hs := p.senderCoarse.toNat_lt
    have hr' := q.receiverCoarse.toNat_lt
    have hs' := q.senderCoarse.toNat_lt
    simp only [← UInt16.toNat_inj]
    omega

theorem keys_determine_buckets_top : keyBand (packCoarseKey 3 65535 9) = 9 :=
  have h : PathCells.HasFine ⟨1, 2, 3, 65535⟩ ∧ PathCells.HasCoarse ⟨1, 2, 3, 65535⟩ := by decide
  (keys_determine_buckets h.1 h.2 h.1 h.2 9 0).2.2.2.2.2.2.2.2

end GoCluster.Pathreliability

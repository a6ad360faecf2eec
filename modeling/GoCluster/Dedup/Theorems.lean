import GoCluster.Dedup.Slot
import Mathlib.Data.Int.ConditionallyCompleteOrder
/-!
# What the dedupers let through

Both results are inductions over the run of one slot (`Slot.lean`); the theorems
about the dedupers read them off through the simulation.

`forwarded_strictly_improving`: inside one window the spots let through get
better each time, exactly as long as no unreported spot is taken for stronger.
The cached `snr` of a negative report is below the 0 that stands for a missing
one, so `preferStronger` lets the unreported spot through and then the next
reported one again. `forwarded_apart`: with `preferStronger` off, forwarded
spots are a window apart, unless a spot comes in that is older than the entry by
a window or more; the entry then goes back in time. `forwarded_slot`: spots of
other keys and the cleanups of other shards make no difference to a key.
-/
open Golib List

namespace GoCluster.Dedup

/-- No report, or the report's SNR. -/
def rank (s : Spot) : WithBot ℤ := if s.hasReport then (s.report : WithBot ℤ) else ⊥

def Improving (spots : List Spot) : Prop := (spots.map rank).Pairwise (· < ·)

def Near (window : Int) (spots : List Spot) : Prop := spots.Pairwise fun a b => |a.time - b.time| < window

variable {s p : Spot}

theorem rank_of_report (h : s.hasReport) : rank s = (s.report : WithBot ℤ) := if_pos h

theorem rank_of_no_report (h : s.hasReport = false) : rank s = ⊥ := by simp [rank, h]

namespace Slot
variable {slot : Slot} {spots : List Spot}

/-! ## Improvement inside one window -/

/-- `s` is a duplicate without a report whose 0 counts as the stronger signal. -/
def StrongerUnreported (slot : Slot) (s : Spot) : Prop :=
  ∃ e ∈ slot.last, absSub s.time e.when < slot.window ∧ slot.preferStronger = true ∧
    s.hasReport = false ∧ e.snr < s.report

instance (slot : Slot) (s : Spot) : Decidable (slot.StrongerUnreported s) :=
  inferInstanceAs (Decidable (∃ e ∈ slot.last, _))

/-- The slot holds a spot of the same window. -/
def Holds (slot : Slot) (p : Spot) (spots : List Spot) : Prop :=
  slot.last = some (.ofSpot p) ∧ ∀ s ∈ spots, |s.time - p.time| < slot.window

theorem Holds.offer_eq (h : slot.Holds p (s :: spots)) :
    slot.offer s = if slot.beats s (.ofSpot p) then ({ slot with last := some (.ofSpot s) }, true)
    else (slot, false) := by
  have hd : absSub s.time (Entry.ofSpot p).when < slot.window := lt_of_le_of_lt (absSub_le ..) (h.2 s (by simp))
  rw [offer_some h.1]
  cases slot.beats s (.ofSpot p) <;> simp [hd]

theorem Holds.tail (h : slot.Holds p (s :: spots)) : slot.Holds p spots :=
  ⟨h.1, fun t ht => h.2 t (by simp [ht])⟩

theorem Holds.next (near : Near slot.window (s :: spots)) :
    ({ slot with last := some (.ofSpot s) } : Slot).Holds s spots := by
  refine ⟨rfl, fun t ht => ?_⟩
  rw [abs_sub_comm]
  exact rel_of_pairwise_cons near ht

theorem rank_lt_iff_of_beats (hb : slot.beats s (.ofSpot p)) : rank p < rank s ↔ s.hasReport := by
  cases hs : s.hasReport with
  | false => simp [rank_of_no_report hs]
  | true =>
    refine iff_of_true ?_ rfl
    cases hp : p.hasReport with
    | false => rw [rank_of_no_report hp, rank_of_report hs]; exact WithBot.bot_lt_coe _
    | true =>
      simp only [beats, Entry.ofSpot, hp, Bool.not_true, Bool.and_false, Bool.false_or, Bool.and_eq_true,
        decide_eq_true_eq] at hb
      rw [rank_of_report hp, rank_of_report hs]
      exact WithBot.coe_lt_coe.2 hb.2

theorem Holds.strongerUnreported_iff (h : slot.Holds p (s :: spots)) :
    slot.StrongerUnreported s ↔ slot.beats s (.ofSpot p) ∧ s.hasReport = false := by
  have hd : absSub s.time (Entry.ofSpot p).when < slot.window := lt_of_le_of_lt (absSub_le ..) (h.2 s (by simp))
  constructor
  · rintro ⟨e, he, -, hps, hs, hlt⟩
    obtain rfl : Entry.ofSpot p = e := Option.some.inj (h.1.symm.trans he)
    exact ⟨by simp [beats, hps, hlt], hs⟩
  · rintro ⟨hb, hs⟩
    simp only [beats, hs, Bool.false_and, Bool.false_or, Bool.and_eq_true, decide_eq_true_eq] at hb
    exact ⟨_, h.1, hd, hb.1, hs, hb.2⟩

/-- Once the slot holds a spot `p` of the window, the spots that pass climb from `rank p` exactly
when no step is a `StrongerUnreported` one. -/
theorem Holds.climbs_iff (h : slot.Holds p spots) (near : Near slot.window spots) :
    Improving (p :: passed offer slot spots) ↔ Along offer (fun slot s => ¬ slot.StrongerUnreported s) slot spots := by
  induction spots generalizing slot p with
  | nil => simp [Along, Improving]
  | cons s spots ih =>
    rw [passed_cons, Along, h.strongerUnreported_iff, h.offer_eq]
    cases hb : slot.beats s (.ofSpot p) with
    | false => simpa using ih h.tail near.of_cons
    | true =>
      have hn := Holds.next near
      have hi := ih hn near.of_cons
      simp only [if_true, true_and, Bool.not_eq_false, ← hi, ← rank_lt_iff_of_beats hb]
      -- The rest climbs from `rank s`, so it is above `rank p` too.
      constructor
      · intro hc; exact ⟨rel_of_pairwise_cons hc (by simp), hc.of_cons⟩
      · rintro ⟨hps, hc⟩
        refine pairwise_cons.2 ⟨fun r hr => ?_, hc⟩
        rcases mem_cons.1 hr with rfl | hr
        · exact hps
        · exact hps.trans (rel_of_pairwise_cons hc hr)

/-- From any slot: until something passes nothing is to be shown, after that `Holds.climbs_iff` applies. -/
theorem climbs (near : Near slot.window spots)
    (hc : Along offer (fun slot s => ¬ slot.StrongerUnreported s) slot spots) :
    Improving (passed offer slot spots) := by
  induction spots with
  | nil => simp [Improving]
  | cons s spots ih =>
    obtain ⟨-, hc⟩ := hc
    rw [passed_cons]
    rcases offer_cases slot s with h | h <;> rw [h] at hc ⊢
    · have hn : ({ slot with last := some (.ofSpot s) } : Slot).Holds s spots := Holds.next near
      exact (hn.climbs_iff near.of_cons).2 hc
    · exact ih near.of_cons hc

theorem climbs_iff (h0 : slot.last = none) (near : Near slot.window spots) : Improving (passed offer slot spots) ↔
      Along offer (fun slot s => ¬ slot.StrongerUnreported s) slot spots := by
  cases spots with
  | nil => simp [Along, Improving]
  | cons s spots =>
    have hn : ({ slot with last := some (.ofSpot s) } : Slot).Holds s spots := Holds.next near
    have hs : ¬ slot.StrongerUnreported s := by rintro ⟨e, he, -⟩; simp [h0] at he
    rw [passed_cons, Along, offer_none h0]
    simp only [hs, not_false_eq_true, true_and]
    exact hn.climbs_iff near.of_cons

/-! ## Spacing -/

/-- A spot older than the entry is a duplicate of it. -/
def NotRewound (slot : Slot) (s : Spot) : Prop :=
  ∀ e ∈ slot.last, s.time < e.when → absSub s.time e.when < slot.window

instance (slot : Slot) (s : Spot) : Decidable (slot.NotRewound s) :=
  inferInstanceAs (Decidable (∀ e ∈ slot.last, _))

theorem offer_reported {slot : Slot} {e : Entry} (he : slot.last = some e) (hp : slot.preferStronger = false)
    (hr : e.hasReport) (s : Spot) : slot.offer s = if absSub s.time e.when < slot.window then (slot, false)
      else ({ slot with last := some (.ofSpot s) }, true) := by
  rw [offer_some he]
  simp [beats, hp, hr]

/-- Spots that pass are a window after each other, and after an entry with a report. -/
theorem apart (hp : slot.preferStronger = false) (hw : 0 < slot.window) (reported : ∀ s ∈ spots, s.hasReport)
    (hc : Along offer NotRewound slot spots) :
    (∀ e, slot.last = some e → e.hasReport → ∀ s ∈ passed offer slot spots, e.when + slot.window ≤ s.time) ∧
      (passed offer slot spots).Pairwise fun a b => a.time + slot.window ≤ b.time := by
  induction spots generalizing slot with
  | nil => simp
  | cons s spots ih =>
    obtain ⟨hs, hc⟩ := hc
    have hrs : ∀ t ∈ spots, t.hasReport := fun t ht => reported t (by simp [ht])
    rw [passed_cons]
    rcases offer_cases slot s with h | h <;> rw [h] at hc ⊢
    · obtain ⟨hl, h2⟩ := @ih { slot with last := some (.ofSpot s) } hp hw hrs hc
      have h1 := hl (.ofSpot s) rfl (reported s (by simp))
      refine ⟨fun e he hr => ?_, pairwise_cons.2 ⟨h1, h2⟩⟩
      have hd : ¬absSub s.time e.when < slot.window := by
        intro hd
        rw [offer_reported he hp hr, if_pos hd] at h
        cases (Prod.mk.inj h).2
      have hle : e.when ≤ s.time := not_lt.1 fun h => hd (hs e he h)
      have ha := absSub_le s.time e.when
      rw [abs_of_nonneg (by omega)] at ha
      have hla : e.when + slot.window ≤ s.time := by omega
      refine forall_mem_cons.2 ⟨hla, fun t ht => ?_⟩
      have := h1 t ht
      simp only [Entry.ofSpot] at this
      omega
    · exact ih hp hw hrs hc

end Slot

/-! ## The dedupers -/

def w3lplSpot (time : Int) (report : Option Int) : Spot :=
  { dxCallNorm := "K1ABC", deCallNorm := "W3LPL", bandNorm := "20m", frequency := 14025, deMetadata := { adif := 291 },
    time, report := report.getD 0, hasReport := report.isSome }

section Dedupers
variable [Unicode] [Xxh3]

/-- The spots `Deduplicator` puts on its output channel; each input says whether there was room. -/
def Deduplicator.sent (d : Deduplicator) (inputs : List (Spot × Bool)) : List Spot :=
  (trace (fun d (i : Spot × Bool) => d.processSpot i.1 i.2) d inputs).filterMap (·.output)

theorem Deduplicator.sent_cons (d : Deduplicator) (s : Spot) (room : Bool) (inputs : List (Spot × Bool)) :
    d.sent ((s, room) :: inputs) = if (d.processLocked s).2 && room then s :: (d.processLocked s).1.sent inputs
      else (d.processLocked s).1.sent inputs := by
  by_cases h : (d.processLocked s).2 && room <;> simp [sent, trace, processSpot, h]

theorem Deduplicator.sent_sublist (d : Deduplicator) (inputs : List (Spot × Bool)) :
    (d.sent inputs).Sublist (passed processLocked d (inputs.map (·.1))) := by
  induction inputs generalizing d with
  | nil => exact .slnil
  | cons i inputs ih =>
    obtain ⟨s, room⟩ := i
    rw [sent_cons, map_cons, passed_cons]
    cases h : (d.processLocked s).2 <;> cases room <;> simp [ih]

theorem Deduplicator.sent_room (d : Deduplicator) (spots : List Spot) :
    d.sent (spots.map (·, true)) = passed processLocked d spots := by
  induction spots generalizing d with
  | nil => rfl
  | cons s spots ih => rw [map_cons, sent_cons, passed_cons, ih, Bool.and_true]

/-- Inside one window both dedupers forward only spots better than all they forwarded before, in
every run in which no unreported spot is taken for stronger than the entry; for a key that is not in
the cache yet in no other run. -/
theorem forwarded_strictly_improving (k : UInt32) (spots : List Spot) :
    (∀ d : SecondaryDeduper, 0 < d.window → Near d.window spots → (∀ s ∈ spots, SecondaryDeduper.Keyed d.keyMode k s) →
      (Along SecondaryDeduper.shouldForward (fun d s => ¬ (d.slot k).StrongerUnreported s) d spots →
        Improving (passed SecondaryDeduper.shouldForward d spots)) ∧ ((d.slot k).last = none →
        (Improving (passed SecondaryDeduper.shouldForward d spots) ↔
          Along SecondaryDeduper.shouldForward (fun d s => ¬ (d.slot k).StrongerUnreported s) d spots))) ∧
    (∀ d : Deduplicator, 0 < d.window → Near d.window spots → (∀ s ∈ spots, s.hash32 = k) →
      (Along Deduplicator.processLocked (fun d s => ¬ (d.slot k).StrongerUnreported s) d spots →
        ∀ inputs, inputs.map (·.1) = spots → Improving (d.sent inputs)) ∧ ((d.slot k).last = none →
        ((∀ inputs, inputs.map (·.1) = spots → Improving (d.sent inputs)) ↔
          Along Deduplicator.processLocked (fun d s => ¬ (d.slot k).StrongerUnreported s) d spots))) := by
  refine ⟨fun d hw near hk => ?_, fun d _ near hk => ?_⟩
  · have sim := SecondaryDeduper.slot_simulates d.keyMode k
    rw [sim.along (fun slot s => ¬ slot.StrongerUnreported s) ⟨hw, rfl⟩ hk, sim.passed ⟨hw, rfl⟩ hk]
    exact ⟨Slot.climbs near, fun h0 => Slot.climbs_iff h0 near⟩
  · have sim := Deduplicator.slot_simulates k
    have him : ∀ inputs, inputs.map (·.1) = spots → Improving (passed Slot.offer (d.slot k) spots) →
        Improving (d.sent inputs) := by
      rintro inputs rfl h
      rw [← sim.passed trivial hk] at h
      exact h.sublist ((d.sent_sublist inputs).map rank)
    rw [sim.along (fun slot s => ¬ slot.StrongerUnreported s) trivial hk]
    refine ⟨fun hc inputs hi => him inputs hi (Slot.climbs near hc), fun h0 => ⟨fun h => ?_, fun hc inputs hi => ?_⟩⟩
    · have hr := h (spots.map (·, true)) (by simp [Function.comp_def])
      rw [d.sent_room, sim.passed trivial hk] at hr
      exact (Slot.climbs_iff h0 near).1 hr
    · exact him inputs hi (Slot.climbs near hc)

end Dedupers

theorem w3lplSpot_keyed [Unicode] [Xxh3] (m : SecondaryKeyMode) (t : Int) (r : Option Int) :
    SecondaryDeduper.Keyed m (secondaryHash (w3lplSpot 0 none) 291 m) (w3lplSpot t r) :=
  ⟨show (0 : Int) < 291 by decide, rfl⟩

/-- A report of -10 dB, a louder one and no report: the last is a duplicate for both dedupers. -/
theorem forwarded_strictly_improving_w3lpl : let _ : Unicode := .asciiOnly
    let _ : Xxh3 := ⟨fun buf => buf.foldl (fun h b => h * 31 + b.toUInt64) 7⟩
    let spots := [w3lplSpot 0 (some (-10)), w3lplSpot 1 (some 5), w3lplSpot 2 none]
    Improving (passed SecondaryDeduper.shouldForward (newSecondaryDeduper (seconds 60) true) spots) ∧
      Improving ((newDeduplicator (seconds 60) true).sent (spots.map (·, true))) := by
  intro _ _ spots
  have near : Near (seconds 60) spots := by unfold Near; decide
  refine ⟨((forwarded_strictly_improving (secondaryHash (w3lplSpot 0 none) 291 .grid2) spots).1
      (newSecondaryDeduper (seconds 60) true) (by decide) near ?_).1 ?_,
    ((forwarded_strictly_improving (w3lplSpot 0 none).hash32 spots).2 (newDeduplicator (seconds 60) true)
      (by decide) near ?_).1 ?_ _ ?_⟩
  · simp [spots, newSecondaryDeduper, newSecondaryDeduperWithKey, w3lplSpot_keyed]
  · decide +kernel
  · decide +kernel
  · decide +kernel
  · simp [spots]

/-- A report, none, the same report, none: all four are forwarded, whatever the hash function. -/
theorem unreported_forwarded_after_report :
    let spots := [w3lplSpot 0 (some (-10)), w3lplSpot 1 none, w3lplSpot 2 (some (-10)), w3lplSpot 3 none]
    (∀ (_ : Unicode) (_ : Xxh3),
      passed SecondaryDeduper.shouldForward (newSecondaryDeduper (seconds 60) true) spots = spots) ∧
    Near (seconds 60) spots ∧ ¬ Improving spots := by
  intro spots
  refine ⟨fun _ _ => ?_, by unfold Near; decide, by simp [spots, Improving, w3lplSpot, rank]⟩
  have hk : ∀ s ∈ spots, SecondaryDeduper.Keyed .grid2 (secondaryHash (w3lplSpot 0 none) 291 .grid2) s := by
    simp [spots, w3lplSpot_keyed]
  rw [(SecondaryDeduper.slot_simulates .grid2 _).passed ⟨by decide, rfl⟩ hk]
  rfl

section Spacing
variable [Unicode] [Xxh3]

/-- With `preferStronger` off and reports in all spots, forwarded spots of one key are at least a
window apart in every run in which each spot older than the entry is a duplicate of it. -/
theorem forwarded_apart (d : SecondaryDeduper) (k : UInt32) (spots : List Spot) (hw : 0 < d.window)
    (hp : d.preferStronger = false) (hk : ∀ s ∈ spots, SecondaryDeduper.Keyed d.keyMode k s)
    (reported : ∀ s ∈ spots, s.hasReport = true)
    (hc : Along SecondaryDeduper.shouldForward (fun d s => (d.slot k).NotRewound s) d spots) :
    (passed SecondaryDeduper.shouldForward d spots).Pairwise fun a b => d.window ≤ |a.time - b.time| := by
  have sim := SecondaryDeduper.slot_simulates d.keyMode k
  rw [sim.along Slot.NotRewound ⟨hw, rfl⟩ hk] at hc
  rw [sim.passed ⟨hw, rfl⟩ hk]
  refine (Slot.apart hp hw reported hc).2.imp fun {a b} hab => ?_
  have hab : a.time + d.window ≤ b.time := hab
  rw [abs_sub_comm, abs_of_nonneg (by omega)]
  omega

end Spacing

theorem forwarded_apart_w3lpl : let _ : Unicode := .asciiOnly
    let _ : Xxh3 := ⟨fun buf => buf.foldl (fun h b => h * 31 + b.toUInt64) 7⟩
    let d := newSecondaryDeduper (seconds 60) false
    let spots := [w3lplSpot (seconds 30) (some 7), w3lplSpot (seconds 10) (some 9), w3lplSpot (seconds 95) (some 7)]
    (passed SecondaryDeduper.shouldForward d spots).Pairwise fun a b => d.window ≤ |a.time - b.time| := by
  intro _ _ d spots
  refine forwarded_apart d (secondaryHash (w3lplSpot 0 none) 291 .grid2) spots (by decide) rfl ?_ ?_ ?_
  · simp [spots, d, newSecondaryDeduper, newSecondaryDeduperWithKey, w3lplSpot_keyed]
  · decide
  · decide +kernel

/-- Spots of the seconds 0, 120 and 1 are all forwarded with a window of 60 seconds. -/
theorem forwarded_one_second_apart :
    let spots := [w3lplSpot 0 (some 7), w3lplSpot (seconds 120) (some 7), w3lplSpot (seconds 1) (some 7)]
    (∀ (_ : Unicode) (_ : Xxh3),
      passed SecondaryDeduper.shouldForward (newSecondaryDeduper (seconds 60) false) spots = spots) ∧
    ¬ spots.Pairwise fun a b => seconds 60 ≤ |a.time - b.time| := by
  intro spots
  refine ⟨fun _ _ => ?_, by decide⟩
  have hk : ∀ s ∈ spots, SecondaryDeduper.Keyed .grid2 (secondaryHash (w3lplSpot 0 none) 291 .grid2) s := by
    simp [spots, w3lplSpot_keyed]
  rw [(SecondaryDeduper.slot_simulates .grid2 _).passed ⟨by decide, rfl⟩ hk]
  rfl

/-! ## Runs with cleanups -/

section Runs
variable [Unicode] [Xxh3] {k : UInt32}

/-- A critical section: a spot, or what `cleanup` does to one shard. -/
inductive SecondaryInput
  | spot (s : Spot)
  | cleanup (i : Fin shardCount) (now : Int)

def Slot.step (slot : Slot) : SecondaryInput → Slot × Bool
  | .spot s => slot.offer s
  | .cleanup _ now => (slot.expire now, false)

namespace SecondaryDeduper

/-- One round of the loop of `cleanup`. -/
def cleanupShard (d : SecondaryDeduper) (i : Fin shardCount) (now : Int) : SecondaryDeduper :=
  { d with shards := Function.update d.shards i ((d.cleanup now).shards i) }

def step (d : SecondaryDeduper) : SecondaryInput → SecondaryDeduper × Bool
  | .spot s => d.shouldForward s
  | .cleanup i now => (d.cleanupShard i now, false)

/-- The input is about the slot of `k`. -/
def Touches (keyMode : SecondaryKeyMode) (k : UInt32) : SecondaryInput → Prop
  | .spot s => Keyed keyMode k s
  | .cleanup i _ => shardFor k = i

instance (keyMode : SecondaryKeyMode) (k : UInt32) : DecidablePred (Touches keyMode k)
  | .spot _ => inferInstanceAs (Decidable (_ ∧ _))
  | .cleanup _ _ => inferInstanceAs (Decidable (_ = _))

theorem shouldForward_other {d : SecondaryDeduper} {s : Spot} (hs : ¬Keyed d.keyMode k s) :
    (d.shouldForward s).1.slot k = d.slot k := by
  by_cases hw : d.window ≤ 0
  · rw [shouldForward, if_pos hw]
  · by_cases ha : s.deMetadata.adif ≤ 0
    · simp only [shouldForward, if_neg hw, if_pos ha]
    · have hk : k ≠ secondaryHash s s.deMetadata.adif d.keyMode := fun h => hs ⟨not_le.1 ha, h.symm⟩
      simp only [shouldForward, if_neg hw, if_neg ha, slot, Function.update_apply]
      split
      · rename_i h
        rw [Shard.process_other _ _ _ hk, h]
      · rfl

omit [Unicode] [Xxh3] in
theorem cleanupShard_slot {d : SecondaryDeduper} (hw : 0 < d.window) (i : Fin shardCount) (now : Int) :
    (d.cleanupShard i now).slot k = if shardFor k = i then (d.slot k).expire now else d.slot k := by
  have hl : ((d.cleanup now).shards (shardFor k)).cache.lookup k =
      if k ∈ (d.shards (shardFor k)).expired d.window now then none else (d.shards (shardFor k)).cache.lookup k := by
    simp only [cleanup, if_neg (not_le.2 hw)]
    split_ifs with hn <;> simp_all [Shard.delete_lookup]
  simp only [slot, cleanupShard, Function.update_apply, Slot.expire]
  split_ifs with h
  · rw [← h, hl]
    cases hc : (d.shards (shardFor k)).cache.lookup k with
    | none => simp
    | some e => by_cases hlt : d.window < sub now e.when <;> simp [Shard.mem_expired, hc, Option.filter, hlt]
  · rfl

/-- Whatever else is spotted, what is forwarded of one key is what a single slot lets through. -/
theorem forwarded_slot (d : SecondaryDeduper) (hw : 0 < d.window) (k : UInt32) (inputs : List SecondaryInput) :
    (passed step d inputs).filter (Touches d.keyMode k) = passed Slot.step (d.slot k)
    (inputs.filter (Touches d.keyMode k)) := by
  have hinv (d' : SecondaryDeduper) (input : SecondaryInput) (h : 0 < d'.window ∧ d'.keyMode = d.keyMode) :
      0 < (d'.step input).1.window ∧ (d'.step input).1.keyMode = d.keyMode := by
    cases input with
    | spot s => rwa [step, (shouldForward_settings d' s).1, (shouldForward_settings d' s).2]
    | cleanup i now => exact h
  have sim : Simulates step Slot.step (fun d' => 0 < d'.window ∧ d'.keyMode = d.keyMode) (Touches d.keyMode k)
      (slot · k) := by
    refine ⟨fun d' input h _ => hinv d' input h, fun d' input h ht => ?_⟩
    cases input with
    | spot s => exact shouldForward_slot h.1 (h.2 ▸ ht)
    | cleanup i now =>
      have hs := (cleanupShard_slot h.1 i now).trans (if_pos ht)
      rw [Slot.step, ← hs]
      rfl
  refine sim.passed_filter (fun d' input h ht => ⟨hinv d' input h, ?_⟩) ⟨hw, rfl⟩
  cases input with
  | spot s => exact shouldForward_other (h.2 ▸ ht)
  | cleanup i now => exact (cleanupShard_slot h.1 i now).trans (if_neg ht)

end SecondaryDeduper

end Runs

/-- The same station twice, with a cleanup of its shard between them. -/
theorem forwarded_slot_w3lpl : let _ : Unicode := .asciiOnly
    let _ : Xxh3 := ⟨fun _ => 0⟩
    let d := newSecondaryDeduper (seconds 60) true
    let inputs : List SecondaryInput := [.spot (w3lplSpot 0 none), .cleanup 0 (seconds 100),
        .spot (w3lplSpot (seconds 40) none)]
    (passed SecondaryDeduper.step d inputs).filter (SecondaryDeduper.Touches d.keyMode 0) =
      passed Slot.step (d.slot 0) (inputs.filter (SecondaryDeduper.Touches d.keyMode 0)) := by
  intro _ _ d inputs
  exact SecondaryDeduper.forwarded_slot d (by decide) 0 inputs

end GoCluster.Dedup

import GoCluster.Aggregate.Conservation
import GoCluster.Dedup.Slot
import GoCluster.Output.Model
/-!
# Dedupe policies from end to end

A spot that takes the direct way carries the verdict of each policy to the
clients. One that goes through the aggregator leaves them behind: it is
aggregated if any policy lets it through, and what comes out is broadcast under
all of them. So a client gets what its own policy has held back, unless the
policies agree on every spot that is aggregated.
-/
open Golib List

namespace GoCluster.Output
open Dedup Aggregate

variable {agg : SkimmerAggregator} {clients : List Client} {h : Handed} {o : OutputStage} {past : Past} {s : Spot}

section Stage
variable [Unicode] [Xxh3]

/-! ## Verdicts -/

theorem Dedupers.evaluate_get (d : Dedupers) (s : Spot) (policy : DedupePolicy) :
    (d.evaluate s).2.get policy = d.forwards policy s := by
  obtain ⟨fast, med, slow⟩ := d
  cases policy <;> cases fast <;> cases med <;> cases slow <;> rfl

/-- A run's steps so far. -/
abbrev Past := List (Step OutputStage Op (List Handed))

/-- The spot has been processed, and the deduper then in force for the policy forwarded it. -/
def Forwarded (past : Past) (policy : DedupePolicy) (s : Spot) : Prop :=
  ∃ x ∈ past, (∃ room clients, x.input = .process s room clients) ∧ x.before.dedupers.forwards policy s = true

theorem Forwarded.later {policy : DedupePolicy} (h : Forwarded past policy s) (more : Past) :
    Forwarded (past ++ more) policy s := by
  obtain ⟨x, hx, hs⟩ := h
  exact ⟨x, mem_append_left _ hx, hs⟩

def ForwardedByAll (past : Past) (s : Spot) : Prop := ∀ policy, Forwarded past policy s

theorem ForwardedByAll.later (h : ForwardedByAll past s) (more : Past) :
    ForwardedByAll (past ++ more) s := fun policy => (h policy).later more

/-! ## Records -/

def RecordsIn (Q : Spot → Prop) (agg : SkimmerAggregator) : Prop :=
  ∀ key, ∀ r ∈ recordsIn agg.buckets key, Q r.spot

omit [Unicode] [Xxh3] in
theorem RecordsIn.ingest {Q : Spot → Prop} (h : RecordsIn Q agg) (hs : Q s)
    (now : Int) : RecordsIn Q (agg.ingest s now).1 := by
  have hin : ∀ {agg' events}, SkimmerAggregator.Ingested agg s now agg' events → RecordsIn Q agg' := by
    intro agg' events hi
    cases hi with
    | ignored => exact h
    | full hf => intro key r hr; rw [hf.recordsIn_insert_eq] at hr; exact h key r hr
    | @appended k bucket hf =>
      intro key r hr
      rw [recordsIn_insert] at hr
      split_ifs at hr with hk
      · rcases mem_append.1 hr with hr | hr
        · exact h k r (by rw [hf.records_eq]; exact hr)
        · rw [mem_singleton.1 hr]; exact hs
      · exact h key r hr
  exact hin (agg.ingest_ingested s now)

/-- An emission made of records of spots in `Q`. -/
def MadeOf (Q : Spot → Prop) (e : Emission) : Prop := e.records ≠ [] ∧ ∀ r ∈ e.records, Q r.spot

omit [Xxh3] in
theorem RecordsIn.visited {Q : Spot → Prop} {agg' : SkimmerAggregator} {key : Key} {now : Int} {events : Events}
    (hv : SkimmerAggregator.Visited agg key now agg' events) (h : RecordsIn Q agg) :
    RecordsIn Q agg' ∧ ∀ e ∈ events.emitted, MadeOf Q e := by
  constructor
  · intro k r hr
    rcases hv.shrinks.2 k with hs | hn
    · exact h k r (hs ▸ hr)
    · simp [hn] at hr
  · cases hv with
    | @emitted bucket best voted tag lastQuality skimmers newKey hb hbe =>
      intro e he
      rw [mem_singleton.1 he]
      exact ⟨ne_nil_of_mem hbe, fun r hr => h key r (by rw [recordsIn_of_lookup hb]; exact hr)⟩
    | _ => simp

omit [Xxh3] in
theorem RecordsIn.processQueue {Q : Spot → Prop} (h : RecordsIn Q agg) (now : Int) (order : List Key) :
    RecordsIn Q (agg.processQueue now order).1 ∧ ∀ e ∈ (agg.processQueue now order).2.emitted, MadeOf Q e := by
  have ha : RecordsIn Q (agg.visitAll now order).1 ∧ ∀ e ∈ (agg.visitAll now order).2.emitted, MadeOf Q e := by
    induction order generalizing agg with
    | nil => exact ⟨h, by simp [SkimmerAggregator.visitAll]⟩
    | cons key keys ih =>
      obtain ⟨hv, hem⟩ := h.visited (agg.visit_visited key now)
      obtain ⟨hr, hl⟩ := ih hv
      refine ⟨hr, fun e he => ?_⟩
      rcases mem_append.1 he with he | he
      · exact hem e he
      · exact hl e he
  exact ha

/-! ## The stage -/

namespace OutputStage

/-- What the stage holds, after the steps in `past`: everything on its way through the aggregator was forwarded
by all policies, and a payload has a source that each policy it is meant for has forwarded. -/
structure Sound (past : Past) (o : OutputStage) : Prop where
  input : ∀ s ∈ o.input, ForwardedByAll past s
  records : ∀ agg, o.skimmerAgg = some agg → RecordsIn (ForwardedByAll past) agg
  output : ∀ e ∈ o.output, MadeOf (ForwardedByAll past) e
  broadcast : ∀ job ∈ o.broadcast, ∀ policy, job.allowed.get policy = true → ∃ s ∈ job.sources, Forwarded past policy s

theorem Sound.later (h : o.Sound past) (more : Past) : o.Sound (past ++ more) := by
  refine ⟨fun s hs => (h.input s hs).later more, fun agg ha key r hr => (h.records agg ha key r hr).later more,
    fun e he => ⟨(h.output e he).1, fun r hr => ((h.output e he).2 r hr).later more⟩, fun job hj policy hp => ?_⟩
  obtain ⟨s, hs, hf⟩ := h.broadcast job hj policy hp
  exact ⟨s, hs, hf.later more⟩

theorem Sound.broadcastSpot (h : o.Sound past) {payload : BroadcastPayload}
    (hp : ∀ policy, payload.allowed.get policy → ∃ s ∈ payload.sources, Forwarded past policy s) (room : Bool) :
    (o.broadcastSpot payload room).Sound past := by
  unfold OutputStage.broadcastSpot
  split
  · refine { h with broadcast := fun job hj => ?_ }
    rcases mem_append.1 hj with hj | hj
    · exact h.broadcast job hj
    · rw [mem_singleton.1 hj]; exact hp
  · exact h

/-- The condition at each step: the policies agree on a spot that is to be aggregated. -/
def VerdictsAgree (o : OutputStage) : Op → Prop
  | .process s _ _ => o.aggregates s = true →
      o.dedupers.forwards .fast s = o.dedupers.forwards .med s ∧ o.dedupers.forwards .med s =
      o.dedupers.forwards .slow s
  | _ => True

instance (o : OutputStage) : ∀ op, Decidable (o.VerdictsAgree op)
  | .process s _ _ => inferInstanceAs (Decidable (o.aggregates s = true → _ ∧ _))
  | .cleanup _ _ => .isTrue trivial
  | .ingest _ => .isTrue trivial
  | .processQueue _ _ _ => .isTrue trivial
  | .forward _ => .isTrue trivial
  | .deliver _ _ => .isTrue trivial

theorem forwards_of_agree {room : Bool} (ha : o.VerdictsAgree (.process s room clients)) (hag : o.aggregates s)
    (han : ¬((!(o.dedupers.evaluate s).2.fast && !(o.dedupers.evaluate s).2.med &&
      !(o.dedupers.evaluate s).2.slow))) (policy : DedupePolicy) : o.dedupers.forwards policy s := by
  obtain ⟨h1, h2⟩ := ha hag
  have hf : (o.dedupers.evaluate s).2.fast = o.dedupers.forwards .fast s := o.dedupers.evaluate_get s .fast
  have hm : (o.dedupers.evaluate s).2.med = o.dedupers.forwards .med s := o.dedupers.evaluate_get s .med
  have hs : (o.dedupers.evaluate s).2.slow = o.dedupers.forwards .slow s := o.dedupers.evaluate_get s .slow
  rw [hf, hm, hs, h1, h2] at han
  have hal : o.dedupers.forwards .slow s := by simpa using han
  cases policy with
  | fast => rw [h1, h2]; exact hal
  | med => rw [h2]; exact hal
  | slow => exact hal

theorem Sound.process (h : o.Sound past) {room : Bool} (ha : o.VerdictsAgree (.process s room clients))
    (hpa : ∀ policy, o.dedupers.forwards policy s → Forwarded past policy s) :
    (o.process s room clients).1.Sound past := by
  unfold OutputStage.process
  dsimp only
  split
  · exact { h with }
  · rename_i han
    split
    · rename_i hag
      have hal : ForwardedByAll past s := fun policy => hpa policy (forwards_of_agree ha hag han policy)
      split
      · refine { h with input := fun s' hs' => ?_ }
        rcases mem_append.1 hs' with hs' | hs'
        · exact h.input s' hs'
        · rw [mem_singleton.1 hs']; exact hal
      · exact { h with }
    · have hb : Sound past { o with dedupers := (o.dedupers.evaluate s).1 } := { h with }
      refine hb.broadcastSpot (fun policy hp => ⟨s, mem_singleton_self s, hpa policy ?_⟩) room
      rw [← o.dedupers.evaluate_get s policy]
      exact hp

theorem Sound.step (h : o.Sound past) {op : Op} (ha : o.VerdictsAgree op) :
    (o.step op).1.Sound (past ++ [⟨o, op, (o.step op).2⟩]) := by
  have hl := h.later [⟨o, op, (o.step op).2⟩]
  cases op with
  | process s room clients =>
    refine hl.process ha fun policy hp => ⟨_, mem_append_right _ (mem_singleton_self _), ?_, hp⟩
    exact ⟨room, clients, rfl⟩
  | cleanup policy now => exact { hl with }
  | ingest now =>
    generalize past ++ [⟨o, .ingest now, (o.step (.ingest now)).2⟩] = past' at hl
    unfold OutputStage.step
    cases hag : o.skimmerAgg with
    | none => exact hl
    | some agg =>
      cases hi : o.input with
      | nil => exact hl
      | cons s input =>
        have hs : ForwardedByAll past' s := hl.input s (by simp [hi])
        refine { hl with input := fun s' hs' => hl.input s' (by simp [hi, hs']), records := ?_ }
        rintro agg' ha'
        rw [← Option.some.inj ha']
        exact (hl.records agg hag).ingest hs now
  | processQueue now order rooms =>
    generalize past ++ [⟨o, .processQueue now order rooms, (o.step (.processQueue now order rooms)).2⟩] = past' at hl
    unfold OutputStage.step
    cases hag : o.skimmerAgg with
    | none => exact hl
    | some agg =>
      obtain ⟨hre, hem⟩ := (hl.records agg hag).processQueue now order
      refine { hl with records := ?_, output := fun e he => ?_ }
      · rintro agg' ha'
        rw [← Option.some.inj ha']
        exact hre
      · rcases mem_append.1 he with he | he
        · exact hl.output e he
        · obtain ⟨⟨e', room⟩, hme, rfl⟩ := mem_map.1 he
          exact hem e' (of_mem_zip (mem_of_mem_filter hme)).1
  | forward room =>
    generalize past ++ [⟨o, .forward room, (o.step (.forward room)).2⟩] = past' at hl
    unfold OutputStage.step
    cases ho : o.output with
    | nil => exact hl
    | cons e output =>
      obtain ⟨hne, hm⟩ := hl.output e (by simp [ho])
      have hb : Sound past' { o with output } :=
        { hl with output := fun e' he' => hl.output e' (ho ▸ mem_cons_of_mem e he') }
      refine hb.broadcastSpot (fun policy _ => ?_) room
      obtain ⟨r, hr⟩ := exists_mem_of_ne_nil _ hne
      exact ⟨r.spot, mem_map_of_mem hr, hm r hr policy⟩
  | deliver i clients =>
    generalize past ++ [⟨o, .deliver i clients, (o.step (.deliver i clients)).2⟩] = past' at hl
    unfold OutputStage.step
    dsimp only
    split <;> exact hl

end OutputStage

/-! ## Runs -/

/-- The client's own call is the DX call, by either of the two tests delivery makes. -/
def Handed.OwnCall (h : Handed) : Prop :=
  h.client.callsign = normalizedDXCall h.spot ∨ isSelfMatch h.spot h.client.callsign = true

omit [Xxh3] in
theorem deliverSelfSpot_ownCall (hh : h ∈ deliverSelfSpot clients s) : h.OwnCall := by
  unfold deliverSelfSpot at hh
  dsimp only at hh
  split at hh
  · simp at hh
  · split at hh
    · simp at hh
    · rename_i client hf
      split at hh
      · rw [mem_singleton.1 hh]
        exact .inl (by simpa using find?_some hf)
      · simp at hh

omit [Xxh3] in
theorem deliverJob_allowed {job : BroadcastPayload} (hh : h ∈ deliverJob job clients) (ho : ¬h.OwnCall) :
    job.allowed.get h.client.policy ∧ h.sources = job.sources := by
  obtain ⟨client, hm, rfl⟩ := mem_map.1 hh
  by_contra hno
  have hd := (mem_filter.1 hm).2
  have hs : isSelfMatch job.spot client.callsign = false := by
    rw [← Bool.not_eq_true]
    exact fun hs => ho (.inr hs)
  have hhe : job.allowed.get client.policy = false := by simpa using hno
  simp [delivers, hhe, hs] at hd

namespace OutputStage

theorem Sound.handed (hs : o.Sound past) {op : Op}
    (hh : h ∈ (o.step op).2) (ho : ¬h.OwnCall) : ∃ s ∈ h.sources, Forwarded past h.client.policy s := by
  cases op with
  | process s room clients =>
    simp only [OutputStage.step, OutputStage.process] at hh
    split at hh
    · exact absurd (deliverSelfSpot_ownCall hh) ho
    · split at hh <;> simp at hh
  | cleanup policy now => simp [OutputStage.step] at hh
  | ingest now | processQueue now order rooms | forward room =>
    simp only [OutputStage.step] at hh
    split at hh <;> simp at hh
  | deliver i clients =>
    simp only [OutputStage.step] at hh
    split at hh
    · simp at hh
    · rename_i job hj
      obtain ⟨ha, hso⟩ := deliverJob_allowed hh ho
      rw [hso]
      exact hs.broadcast job (mem_of_getElem? hj) _ ha

theorem Sound.run {before later : Past} {ops : List Op} {x : Step OutputStage Op (List Handed)}
    (hs : o.Sound before) (ha : Along OutputStage.step VerdictsAgree o ops)
    (hx : trace OutputStage.step o ops = past ++ x :: later) (hh : h ∈ x.output) (ho : ¬h.OwnCall) :
    ∃ s ∈ h.sources, Forwarded (before ++ past) h.client.policy s := by
  induction ops generalizing o before past with
  | nil => simp [trace] at hx
  | cons op ops ih =>
    cases past with
    | nil =>
      obtain ⟨rfl, -⟩ := cons.inj hx
      rw [append_nil]
      exact hs.handed hh ho
    | cons first past =>
      obtain ⟨rfl, hr⟩ := cons.inj hx
      have hn := ih (hs.step ha.1) ha.2 hr
      rwa [append_assoc] at hn

end OutputStage

open OutputStage

/-- In every run in which the policies agree on each spot that is aggregated: a client that is not the DX is
handed a spot only if the deduper in force for its policy has forwarded a spot that it was made from. -/
theorem policy_respected (dedupers : Dedupers) (cfg : Option SkimmerAggregateConfig) (now : Int) (ops : List Op)
    (hagree : Along step VerdictsAgree (newOutputStage dedupers cfg now) ops) (past later : Past)
    (x : Step OutputStage Op (List Handed))
    (hx : trace step (newOutputStage dedupers cfg now) ops = past ++ x :: later) :
    ∀ h ∈ x.output, ¬h.OwnCall → ∃ s ∈ h.sources, Forwarded past h.client.policy s := by
  intro h hh ho
  have hn : (newOutputStage dedupers cfg now).Sound [] := by
    refine ⟨by simp [newOutputStage], fun agg ha key r hr => ?_, by simp [newOutputStage], by simp [newOutputStage]⟩
    obtain ⟨c, -, rfl⟩ := Option.map_eq_some_iff.1 ha
    simp [newSkimmerAggregator, recordsIn] at hr
  exact hn.run hagree hx hh ho

/-- A spot that is aggregated alone: whichever of the policies let it through, it is broadcast under all three. -/
theorem aggregated_alone {t now : Int} {order : List Key}
    {e : Emission} (hag : o.skimmerAgg = some agg) (hi : o.input = []) (ho : o.output = [])
    (hs : agg.shouldAggregate s) {policy : DedupePolicy} (han : o.dedupers.forwards policy s)
    (he : ((agg.ingest s t).1.processQueue now order).2.emitted = [e]) :
    final step o [.process s true [], .ingest t, .processQueue now order [true], .forward true] = { o with
        dedupers := (o.dedupers.evaluate s).1
        skimmerAgg := some ((agg.ingest s t).1.processQueue now order).1
        broadcast := o.broadcast ++ [⟨e.spot, ⟨true, true, true⟩, e.records.map (·.spot)⟩] } := by
  have hn : (!(o.dedupers.evaluate s).2.fast && !(o.dedupers.evaluate s).2.med && !(o.dedupers.evaluate s).2.slow) =
      false := by
    rw [← o.dedupers.evaluate_get s policy] at han
    cases policy with
    | fast => simp [show (o.dedupers.evaluate s).2.fast from han]
    | med => simp [show (o.dedupers.evaluate s).2.med from han]
    | slow => simp [show (o.dedupers.evaluate s).2.slow from han]
  have ha : o.aggregates s := by unfold aggregates; rw [hag]; exact hs
  obtain ⟨dedupers, skimmerAgg, input, output, broadcast⟩ := o
  subst hag hi ho
  simp only [final, step, OutputStage.process, hn, ha, Bool.false_eq_true, if_true, if_false,
    nil_append, he, zip_cons_cons, zip_nil_right, filter_cons, filter_nil, map_cons,
    map_nil, OutputStage.broadcastSpot]

end Stage

section K1ABC
open OutputStage

local instance policyUnicode : Unicode := .asciiOnly

def k1abcSpot (time : Int) : Spot :=
  { dxCall := "K1ABC", dxCallNorm := "K1ABC", deCall := "W3LPL", deCallNorm := "W3LPL", frequency := 14000,
    bandNorm := "20m", modeNorm := "CW", sourceType := .rbn, time, deMetadata := { adif := 291, cqZone := 5 } }

def n1mm : Client := { callsign := "N1MM", policy := .slow }

def k1abcRound (time : Int) : List Op :=
  [.process (k1abcSpot time) true [], .ingest time, .processQueue (time + seconds 10) [("K1ABC", 140000)] [true],
    .forward true]

/-- Two reports 200 s apart, each delivered to N1MM. -/
def k1abcReports : List Op :=
  (k1abcRound (seconds 1000) ++ .deliver 0 [n1mm] :: k1abcRound (seconds 1200)) ++ [.deliver 1 [n1mm]]

section FastAlone

local instance policyHash : Xxh3 := ⟨fun buf => buf.foldl (fun h b => h * 31 + b.toUInt64) 7⟩

def fastAlone : OutputStage :=
  newOutputStage { fast := some (newSecondaryDeduper (seconds 120) false) } (some { minQuality := 1 }) 0

/-- With FAST alone all policies follow it, and it forwards both reports. -/
theorem policy_respected_n1mm : let run := trace step fastAlone k1abcReports
    run.map (·.output.length) = [0, 0, 0, 0, 1, 0, 0, 0, 0, 1] ∧ ∃ x, run = run.dropLast ++ [x] ∧
      ∀ h ∈ x.output, ¬h.OwnCall → ∃ s ∈ h.sources, Forwarded run.dropLast h.client.policy s := by
  intro run
  have hne : run ≠ [] := by simp [run, k1abcReports, k1abcRound, trace]
  have hr := (dropLast_append_getLast hne).symm
  have ha : Along step VerdictsAgree fastAlone k1abcReports := by decide +kernel
  exact ⟨by decide +kernel, _, hr, policy_respected _ _ _ _ ha _ [] _ hr⟩

end FastAlone

/-- FAST and SLOW with their usual windows. -/
def fastAndSlow : Dedupers :=
  { fast := some (newSecondaryDeduper (seconds 120) false)
    slow := some (newSecondaryDeduperWithKey (seconds 480) false .cqZone) }

theorem k1abc_second_verdict [Xxh3] (window : Int) (hw : 0 < window) (keyMode : SecondaryKeyMode) :
    let d := newSecondaryDeduperWithKey window false keyMode
    (d.shouldForward (k1abcSpot (seconds 1000))).2 ∧
      ((d.shouldForward (k1abcSpot (seconds 1000))).1.shouldForward (k1abcSpot (seconds 1200))).2 =
        decide (window ≤ seconds 200) := by
  intro d
  let k := secondaryHash (k1abcSpot 0) 291 keyMode
  have hk : ∀ t, SecondaryDeduper.Keyed keyMode k (k1abcSpot t) := fun t => ⟨show (0 : Int) < 291 by decide, rfl⟩
  have sim := SecondaryDeduper.slot_simulates keyMode k
  have hf := sim.eq d (k1abcSpot (seconds 1000)) ⟨hw, rfl⟩ (hk _)
  have hd := sim.inv d (k1abcSpot (seconds 1000)) ⟨hw, rfl⟩ (hk _)
  have hs := sim.eq _ (k1abcSpot (seconds 1200)) hd (hk _)
  have hsl : d.slot k = ⟨window, false, none⟩ := rfl
  rw [hsl] at hf
  obtain ⟨hl, hfo⟩ := Prod.mk.inj hf
  rw [← hl, Slot.offer_some rfl] at hs
  refine ⟨hfo.symm, (congrArg Prod.snd hs).symm.trans ?_⟩
  have ha : absSub (k1abcSpot (seconds 1200)).time (Entry.ofSpot (k1abcSpot (seconds 1000))).when = seconds 200 := by
    decide
  rw [ha]
  by_cases hle : window ≤ seconds 200
  · simp [hle, not_lt.2 hle]
  · simp [not_le.1 hle, Slot.beats, k1abcSpot]

def fastAndSlowStage : OutputStage := newOutputStage fastAndSlow (some { minQuality := 1 }) 0

/-- SLOW holds the second report back and FAST does not. The report is aggregated alone, and N1MM, who has
chosen SLOW, is handed the result. -/
theorem slow_client_gets_held_back_spot :
    n1mm.policy = .slow ∧ ∀ _ : Xxh3, ∃ past x h, trace step fastAndSlowStage k1abcReports = past ++ [x] ∧
      x.output = [h] ∧ h.client = n1mm ∧ ¬h.OwnCall ∧ h.sources = [k1abcSpot (seconds 1200)] ∧
      ¬Forwarded past .slow (k1abcSpot (seconds 1200)) := by
  refine ⟨rfl, fun _ => ?_⟩
  let agg := newSkimmerAggregator { minQuality := 1 } 0
  let queued : SkimmerAggregator := (agg.ingest (k1abcSpot (seconds 1000)) (seconds 1000)).1
  let idle := (queued.processQueue (seconds 1000 + seconds 10) [("K1ABC", 140000)]).1
  let again := (idle.ingest (k1abcSpot (seconds 1200)) (seconds 1200)).1
  -- What the aggregator emits does not depend on the hash function.
  have hfir : ((queued.processQueue (seconds 1000 + seconds 10) [("K1ABC", 140000)]).2.emitted.map fun _ => ()) =
      [()] := by
    decide +kernel
  have hse : ((again.processQueue (seconds 1200 + seconds 10) [("K1ABC", 140000)]).2.emitted.map fun e =>
      (e.records.map (·.spot), normalizedDXCall e.spot, isSelfMatch e.spot n1mm.callsign)) =
      [([k1abcSpot (seconds 1200)], ascii "K1ABC", false)] := by
    decide +kernel
  obtain ⟨e, he, -⟩ := map_eq_singleton_iff.1 hfir
  obtain ⟨e', he', hm⟩ := map_eq_singleton_iff.1 hse
  simp only [Prod.mk.injEq] at hm
  obtain ⟨hs, hc, hsel⟩ := hm
  obtain ⟨hfa, hf'⟩ := k1abc_second_verdict (seconds 120) (by decide) .grid2
  obtain ⟨-, hs'⟩ := k1abc_second_verdict (seconds 480) (by decide) .cqZone
  let verdicts := (fastAndSlow.evaluate (k1abcSpot (seconds 1000))).1
  have ha : fastAndSlowStage.dedupers.forwards .fast (k1abcSpot (seconds 1000)) := hfa
  have ha' : verdicts.forwards .fast (k1abcSpot (seconds 1200)) := hf'
  have hh : verdicts.forwards .slow (k1abcSpot (seconds 1200)) = false := hs'
  let stage : OutputStage :=
    { dedupers := verdicts, skimmerAgg := some idle, broadcast := [⟨e.spot, ⟨true, true, true⟩, e.records.map (·.spot)⟩]
      }
  have hr : final step fastAndSlowStage (k1abcRound (seconds 1000)) = stage :=
    aggregated_alone rfl rfl rfl (by decide) ha he
  have hr' := aggregated_alone (o := stage) rfl rfl rfl (by decide +kernel) ha' he'
  have hd : (stage.step (.deliver 0 [n1mm])).1 = stage := rfl
  have hfi : final step fastAndSlowStage (k1abcRound (seconds 1000) ++ .deliver 0 [n1mm] :: k1abcRound (seconds 1200)) =
      final step stage (k1abcRound (seconds 1200)) := by
    rw [final_append, hr]
    rfl
  refine ⟨_, _, ⟨n1mm, e'.spot, e'.records.map (·.spot)⟩, trace_append .., ?_, rfl, ?_, hs, ?_⟩
  · have hou : deliverJob ⟨e'.spot, ⟨true, true, true⟩, e'.records.map (·.spot)⟩ [n1mm] =
        [⟨n1mm, e'.spot, e'.records.map (·.spot)⟩] := by
      simp [deliverJob, delivers, Allowed.get, n1mm]
    rw [hfi, k1abcRound, hr']
    exact hou
  · rintro (ho | ho)
    · have hne : n1mm.callsign ≠ ascii "K1ABC" := by decide
      exact hne (ho.trans hc)
    · simp [hsel] at ho
  · rintro ⟨x, hx, ⟨room, clients, hi⟩, hf⟩
    rw [trace_append, hr] at hx
    rcases mem_append.1 hx with hx | hx
    · have hme := input_mem_of_mem_trace hx
      rw [hi] at hme
      simp [k1abcRound, k1abcSpot, seconds] at hme
    · simp only [trace, k1abcRound, mem_cons, not_mem_nil, or_false] at hx
      rcases hx with rfl | rfl | rfl | rfl | rfl
      · cases hi
      · exact absurd (hf.symm.trans hh) (by decide)
      · cases hi
      · cases hi
      · cases hi

end K1ABC

end GoCluster.Output

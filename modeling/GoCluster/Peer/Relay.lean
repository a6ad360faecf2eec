import GoCluster.Peer.Framing
import GoCluster.Peer.Manager
import GoCluster.Spot.Callsign
/-!
# Relayed spots

A spot that `HandleFrame` relays is written out again from what was parsed. The
next node should read the same spot. It does if the line that was received has
nothing the parser takes out (`Sendable`) and what is sent fits in a line
(`Framed`); see `relay_transparent`.
-/
open Golib List

namespace GoCluster.Peer
open Ingest (FloatSpot roundFrequencyTo100Hz)

/-! ## What a parsed spot has -/

variable {fallbackOrigin : Str} {fields : List Str} {freq : Number} {now : Int} {cfg : ReaderConfig} {frame : Frame}

section Parse
variable [Unicode]

theorem newSpotNormalized_fields (now : Int) (dx de : Str) (freq : Number) (mode : Str) :
    let s := Ingest.newSpotNormalized now dx de freq mode
    s.record.dxCall = trimSpace dx ∧ s.record.deCall = trimSpace de ∧
      s.record.mode = normalizeVoiceMode mode (roundFrequencyTo100Hz freq) := by
  obtain ⟨flag, hf⟩ := Spot.refreshBeaconFlag_eq (Spot.ensureNormalized _)
  unfold Ingest.newSpotNormalized
  dsimp only
  rw [hf]
  exact ⟨rfl, rfl, rfl⟩

/-- The spot `s` has what the fields of a frame say, with the frequency `freq`. -/
structure Reads (now : Int) (fields : List Str) (fallbackOrigin : Str) (freq : Number) (s : FloatSpot) : Prop where
  dxCall : s.record.dxCall = normalizeCallsign (trimSpace (field fields 1))
  dxValid : isValidNormalizedCallsign s.record.dxCall = true
  deCall : s.record.deCall = normalizeCallsign (trimSpace (field fields 5))
  deValid : isValidNormalizedCallsign s.record.deCall = true
  frequency : s.frequency = roundFrequencyTo100Hz freq
  mode : s.record.mode = normalizeVoiceMode (Comment.parseSpotComment (field fields 4) freq).mode s.frequency
  hasReport : s.record.hasReport = (Comment.parseSpotComment (field fields 4) freq).hasReport
  report : s.record.report = (Comment.parseSpotComment (field fields 4) freq).report
  comment : s.record.comment = (Comment.parseSpotComment (field fields 4) freq).comment
  time : s.record.time = parsePCDateTime now (trimSpace (field fields 2)) (trimSpace (field fields 3))
  sourceNode : s.record.sourceNode = readOrigin (field fields 6) fallbackOrigin

theorem parseSpot_ok {minFields : Nat} {ip : Str} {hop : Int}
    {s : FloatSpot} (h : parseSpot minFields ip now fields hop fallbackOrigin = .ok s) :
    ∃ freq, parseFloat64 (trimSpace (field fields 0)) = some freq ∧ Reads now fields fallbackOrigin freq s := by
  unfold parseSpot at h
  split at h
  · cases h
  · split at h
    · cases h
    · rename_i freq hfr
      dsimp only at h
      split at h
      · cases h
      · rename_i hdx
        split at h
        · cases h
        · rename_i hde
          rw [Bool.not_eq_true', Bool.not_eq_false] at hdx hde
          cases h
          refine ⟨freq, hfr, ?_⟩
          obtain ⟨hdxC, hd, hm⟩ := newSpotNormalized_fields now
            (normalizeCallsign (trimSpace (field fields 1))) (normalizeCallsign (trimSpace (field fields 5))) freq
            (Comment.parseSpotComment (field fields 4) freq).mode
          rw [(isWord_of_valid hdx).trimSpace] at hdxC
          rw [(isWord_of_valid hde).trimSpace] at hd
          -- The flags set at the end and the hop count are not among what is read.
          obtain ⟨flag, hfl⟩ := Spot.refreshBeaconFlag_eq (if 0 < hop then _ else _)
          rw [hfl]
          constructor <;> split <;> simp_all [Spot.applySourceHumanFlag, Ingest.newSpotNormalized]

theorem parseSpot_of {minFields : Nat} (hl : minFields ≤ fields.length)
    (hf : parseFloat64 (trimSpace (field fields 0)) = some freq)
    (hdx : isValidNormalizedCallsign (normalizeCallsign (trimSpace (field fields 1))))
    (hde : isValidNormalizedCallsign (normalizeCallsign (trimSpace (field fields 5))))
    (ip : Str) (now : Int) (hop : Int) (fallbackOrigin : Str) :
    ∃ s, parseSpot minFields ip now fields hop fallbackOrigin = .ok s := by
  unfold parseSpot
  rw [if_neg (not_lt.2 hl), hf]
  simp only [hdx, hde, Bool.not_true, Bool.false_eq_true]
  exact ⟨_, rfl⟩

end Parse

/-! ## The line that is sent -/

def sentType (pc9x : Bool) : Str := if pc9x then "PC61" else "PC11"

def sentFields (s : FloatSpot) (origin : Str) (hop : Int) (pc9x : Bool) : List Str :=
  spotFields s origin ++ ((if pc9x then [trimSpace s.record.spotterIP] else []) ++ [hopMarker hop, []])

theorem lineFor_eq (m : Manager) (s : FloatSpot) (hop : Int) (origin : Str) (dest : Session) :
    m.lineFor s hop origin dest =
      [94].intercalate (sentType dest.pc9x :: sentFields s (m.originFor origin) hop dest.pc9x) := by
  unfold Manager.lineFor sentType sentFields
  cases dest.pc9x <;> rfl

/-- The fields that a reader finds; an origin with carets falls apart. -/
def splitFields (s : FloatSpot) (origin : Str) (hop : Int) (pc9x : Bool) : List Str :=
  [s.frequency.formatTenths, s.record.dxCall, formatDate s.record.time, formatClock s.record.time,
    sanitizeComment s.record.comment, s.record.deCall] ++
    (origin.splitOn 94 ++ ((if pc9x then (trimSpace s.record.spotterIP).splitOn 94 else []) ++ [hopMarker hop, []]))

theorem not_mem_sanitizeComment (c : Str) : (94 : UInt8) ∉ sanitizeComment c := by
  intro h
  have := mem_of_mem_trimSpace h
  simp only [replaceByte, map_map, mem_map] at this
  obtain ⟨b, -, hb⟩ := this
  by_cases h94 : b = 94
  · subst h94
    revert hb
    decide
  · simp only [Function.comp_apply, if_neg h94] at hb
    split at hb
    · revert hb
      decide
    · split at hb
      · revert hb
        decide
      · exact h94 hb

theorem isWord_hopMarker {hop : Int} (h : 0 < hop) : IsWord (hopMarker hop) := by
  apply IsWord.append
  · exact isWord_of_all rfl
  · rw [itoa, if_neg (not_lt.2 h.le)]
    exact isWord_itoaNat _

variable {s : FloatSpot} {origin : Str} {hop : Int} {pc9x : Bool}

variable (origin pc9x) in
theorem splitOn_sent (hdx : IsWord s.record.dxCall) (hde : IsWord s.record.deCall) (hh : 0 < hop) :
    ([94].intercalate (sentType pc9x :: sentFields s origin hop pc9x)).splitOn 94 =
      sentType pc9x :: splitFields s origin hop pc9x := by
  have hw : ∀ {f : Str}, IsWord f → f.splitOn 94 = [f] := fun h => splitOn_eq_singleton (h.not_mem (by decide))
  have ht : (sentType pc9x).splitOn 94 = [sentType pc9x] := by cases pc9x <;> rfl
  rw [splitOn_join (cons_ne_nil _ _)]
  unfold sentFields splitFields spotFields
  simp only [flatMap_cons, flatMap_append, cons_append, ht,
    hw (Number.isWord_formatTenths _), hw hdx, hw (isWord_formatDate _), hw (isWord_formatClock _),
    splitOn_eq_singleton (not_mem_sanitizeComment _), hw hde, hw (isWord_hopMarker hh)]
  cases pc9x <;> simp

theorem hopValue_hopMarker (hho : 0 < hop) (hma : hop < 2 ^ 63) :
    isHopToken (hopMarker hop) ∧ hopValue (hopMarker hop) = some hop := by
  obtain ⟨n, rfl⟩ := Int.eq_ofNat_of_zero_le hho.le
  have ht := (isWord_hopMarker hho).trimSpace
  have hm : hopMarker (n : Int) = 72 :: itoaNat n := by rfl
  obtain ⟨b, t, hb⟩ := exists_cons_of_ne_nil (itoaNat_ne_nil n)
  have hd := itoaNat_digits n b (by simp [hb])
  have hH : trimPrefix (72 :: itoaNat n) "H" = itoaNat n := rfl
  have hh : trimPrefix (itoaNat n) "h" = itoaNat n := by
    rw [hb]
    refine if_neg fun hp => ?_
    obtain ⟨u, hu⟩ := isPrefixOf_iff_prefix.1 hp
    obtain rfl : (104 : UInt8) = b := (cons.inj hu).1
    revert hd
    decide
  constructor
  · rw [isHopToken, ht]
    rfl
  · rw [hopValue, ht, hm, hH, hh, atoi_itoaNat hma]

theorem splitFields_get (s : FloatSpot) (origin : Str) (hop : Int) (pc9x : Bool) :
    field (splitFields s origin hop pc9x) 6 = origin.takeWhile (· ≠ 94) := by
  rw [← headD_splitOn]
  obtain ⟨t, ts, ht⟩ := exists_cons_of_ne_nil (splitOnP_ne_nil (p := (· == 94)) origin)
  simp [field, splitFields, splitOn, ht]

def Dated (fields : List Str) : Prop :=
  trimSpace (field fields 2) ≠ [] ∧ trimSpace (field fields 3) ≠ [] ∧
    (parseDateTime (trimSpace (field fields 2) ++ [32] ++ trimSpace (field fields 3))).isSome

theorem parsePCDateTime_sent (h : Dated fields) {t : Int}
    (ht : t = parsePCDateTime now (trimSpace (field fields 2)) (trimSpace (field fields 3))) (now' : Int) :
    parsePCDateTime now' (trimSpace (formatDate t)) (trimSpace (formatClock t)) = t := by
  obtain ⟨hd, hti, hs⟩ := h
  obtain ⟨t', ht'⟩ := Option.isSome_iff_exists.1 hs
  rw [parsePCDateTime, if_neg (by simp [hd, hti]), ht'] at ht
  obtain rfl : t = t' := ht
  obtain ⟨c, ho, minute, hv, hy, hh, hm, rfl⟩ := parseDateTime_some ht'
  rw [(isWord_formatDate _).trimSpace, (isWord_formatClock _).trimSpace, parsePCDateTime,
    parseDateTime_format hv hy hh hm, if_neg (by simp [formatDate, formatClock])]
  rfl

section Frequency
open Number

/-- For frequencies of this size the number of tenths is the floor of a float near ten times the frequency and a
half. -/
theorem roundFrequencyTo100Hz_small {x : ℚ} (h : |x| ≤ 2 ^ 41) : ∃ z : ℚ, |z - (x * 10 + 1 / 2)| ≤ 1 / 256 ∧
    roundFrequencyTo100Hz (.finite x) = .finite (nearest (⌊z⌋ / 10)) ∧ |nearest (⌊z⌋ / 10) - ⌊z⌋ / 10| ≤ 1 / 512 := by
  rw [abs_le] at h
  obtain ⟨hm, hy⟩ := rounded_small (x := x * 10) (by rw [abs_lt]; constructor <;> linarith)
  generalize nearest (x * 10) = y at hm hy
  rw [abs_le] at hy
  obtain ⟨ha, hz⟩ := rounded_small (x := y + 1 / 2) (by rw [abs_lt]; constructor <;> linarith)
  generalize nearest (y + 1 / 2) = z at ha hz
  rw [abs_le] at hz
  have hl := Int.floor_le z
  have hu := Int.lt_floor_add_one z
  obtain ⟨hd, hw⟩ := rounded_small (x := ⌊z⌋ / 10) (by rw [abs_lt]; constructor <;> linarith)
  refine ⟨z, by rw [abs_le]; constructor <;> linarith, ?_, hw⟩
  have hdiv : Number.div (.finite ⌊z⌋) (.finite 10) = rounded (⌊z⌋ / 10) := by simp [Number.div]
  rw [roundFrequencyTo100Hz, show Number.mul (.finite x) (.finite 10) = .finite y from hm,
    show Number.add (.finite y) (.finite (1 / 2)) = .finite z from ha, Number.floor, hdiv, hd]

/-- Written with one digit and read again, a rounded frequency is the same. -/
theorem roundFrequencyTo100Hz_sent {x : ℚ} (h : |x| ≤ 2 ^ 40) : ∃ f : ℚ, roundFrequencyTo100Hz (.finite x) = .finite f ∧
    parseFloat64 (formatTenths f) = some (.finite f) ∧ roundFrequencyTo100Hz (.finite f) = .finite f := by
  obtain ⟨z, hz, hf, hn⟩ := roundFrequencyTo100Hz_small (x := x) (h.trans (by norm_num))
  refine ⟨_, hf, ?_⟩
  rw [abs_le] at h hz
  have hl := Int.floor_le z
  have hu := Int.lt_floor_add_one z
  generalize hk : ⌊z⌋ = k at hf hn hl hu ⊢
  have hr : rounded (k / 10) = .finite (nearest (k / 10)) :=
    (rounded_small (by rw [abs_lt]; constructor <;> linarith)).1
  have h0 : k = 0 → nearest (k / 10 : ℚ) = 0 := by
    rintro rfl
    exact le_antisymm (nearest_nonpos (by simp)) (nearest_nonneg (by simp))
  generalize hg : nearest (k / 10 : ℚ) = f at *
  have hn' := abs_le.1 hn
  have hs : f < 0 ↔ k < 0 := by
    rcases lt_trichotomy k 0 with hk | hk | hk
    · have : (k : ℚ) ≤ -1 := by exact_mod_cast Int.le_sub_one_of_lt hk
      exact iff_of_true (by linarith) hk
    · simp [h0 hk, hk]
    · have : (1 : ℚ) ≤ k := by exact_mod_cast hk
      exact iff_of_false (by linarith) (by omega)
  constructor
  · rw [formatTenths_near (k := k) (by rw [abs_lt]; constructor <;> linarith) hs, parseFloat64, parseFloat_formatTenths]
    simp only [hr]
  · obtain ⟨z', hz', hf', -⟩ := roundFrequencyTo100Hz_small (x := f) (by rw [abs_le]; constructor <;> linarith)
    rw [abs_le] at hz'
    have : ⌊z'⌋ = k := by
      rw [Int.floor_eq_iff]
      constructor <;> linarith
    rw [hf', this, hg]

end Frequency

/-! ## The reader -/

/-- No byte of a field is lost or ends the line. -/
def Passes (cfg : ReaderConfig) (f : Str) : Prop := ∀ b ∈ f, isTerminator b = false ∧ (cfg.telnet = true → b ≠ 255)

theorem passes_of_isWord {f : Str} (h : IsWord f) : Passes cfg f := by
  have hno : ∀ {b : UInt8}, b ∈ f → ∀ {c : UInt8}, isWordByte c = false → b ≠ c := by
    rintro b hb c hc rfl
    exact h.not_mem hc hb
  intro b hb
  refine ⟨?_, fun _ => hno hb (by decide)⟩
  simp only [isTerminator, Bool.or_eq_false_iff, decide_eq_false_iff_not]
  exact ⟨⟨hno hb (by decide), hno hb (by decide)⟩, hno hb (by decide)⟩

structure Framed (cfg : ReaderConfig) (s : FloatSpot) (origin : Str) (hop : Int) (pc9x : Bool) : Prop where
  comment : Passes cfg (sanitizeComment s.record.comment)
  source : Passes cfg origin
  address : pc9x = true → Passes cfg (trimSpace s.record.spotterIP)
  length : (((sentFields s origin hop pc9x).map fun f => f.length + 1).sum + 4 : Nat) ≤ cfg.maxLine

theorem passes_sentFields (hdx : IsWord s.record.dxCall) (hde : IsWord s.record.deCall) (hh : 0 < hop) :
    (∀ f ∈ sentFields s origin hop pc9x, Passes cfg f) ↔
      Passes cfg (sanitizeComment s.record.comment) ∧ Passes cfg origin ∧
      (pc9x → Passes cfg (trimSpace s.record.spotterIP)) := by
  have hw : Passes cfg s.frequency.formatTenths ∧ Passes cfg s.record.dxCall ∧ Passes cfg (formatDate s.record.time) ∧
      Passes cfg (formatClock s.record.time) ∧ Passes cfg s.record.deCall ∧ Passes cfg (hopMarker hop) ∧
        Passes cfg [] :=
    ⟨passes_of_isWord (Number.isWord_formatTenths _), passes_of_isWord hdx, passes_of_isWord (isWord_formatDate _),
      passes_of_isWord (isWord_formatClock _), passes_of_isWord hde, passes_of_isWord (isWord_hopMarker hh),
      passes_of_isWord isWord_nil⟩
  cases pc9x <;> simp [sentFields, spotFields, hw]

theorem readsBack_sent (hpc92 : 0 < cfg.pc92Max) (hmax : 0 < cfg.maxLine) (hdx : IsWord s.record.dxCall)
    (hde : IsWord s.record.deCall) (hh : 0 < hop) :
    ReadsBack cfg ([94].intercalate (sentType pc9x :: sentFields s origin hop pc9x)) ↔
    Framed cfg s origin hop pc9x := by
  obtain ⟨t, ht⟩ : ∃ t, [94].intercalate (sentType pc9x :: sentFields s origin hop pc9x) =
      sentType pc9x ++ 94 :: t := by
    rw [sentFields, spotFields, cons_append, intercalate_cons_cons]
    exact ⟨_, by rw [append_assoc, singleton_append]⟩
  have hl := length_join 94 (cons_ne_nil (sentType pc9x) (sentFields s origin hop pc9x))
  have hty : (sentType pc9x).length = 4 := by cases pc9x <;> rfl
  have hp : Passes cfg ([94].intercalate (sentType pc9x :: sentFields s origin hop pc9x)) ↔
      ∀ f ∈ sentFields s origin hop pc9x, Passes cfg f := by
    constructor
    · intro h f hf b hb
      exact h b (mem_join_of_mem (mem_cons_of_mem _ hf) hb)
    · intro h b hb
      rcases mem_join hb with rfl | ⟨f, hf, hb⟩
      · exact ⟨rfl, fun _ => by decide⟩
      · rcases mem_cons.1 hf with rfl | hf
        · exact passes_of_isWord (isWord_of_all (by cases pc9x <;> rfl)) b hb
        · exact h f hf b hb
  have hne : [94].intercalate (sentType pc9x :: sentFields s origin hop pc9x) ≠ [] := by simp [ht]
  have h92 : ¬ascii "PC92^" <+: [94].intercalate (sentType pc9x :: sentFields s origin hop pc9x) := by
    rw [ht]
    intro h
    have h4 := h.take 4
    rw [take_left' hty] at h4
    cases pc9x <;> exact absurd h4 (by decide)
  rw [readsBack_iff hpc92 hmax hne h92]
  rw [map_cons, sum_cons] at hl
  constructor
  · rintro ⟨hfr, hte, hm⟩
    obtain ⟨hc, ho, hip⟩ := (passes_sentFields hdx hde hh).1
      (hp.1 fun b hb => ⟨hfr b hb, fun ht heq => hte ht (heq ▸ hb)⟩)
    have hle := not_lt.1 fun hl => hm (.inr hl)
    exact ⟨hc, ho, hip, by omega⟩
  · intro h
    have ha := hp.2 ((passes_sentFields hdx hde hh).2 ⟨h.comment, h.source, h.address⟩)
    have hm := h.length
    refine ⟨fun b hb => (ha b hb).1, fun ht hb => (ha 255 hb).2 ht rfl, ?_⟩
    rintro (h | hl)
    · exact h92 h.2
    · omega

section Reparse
variable [Unicode]

variable (origin pc9x) in
theorem parseFrame_sent (hdx : IsWord s.record.dxCall) (hde : IsWord s.record.deCall) (hh : 0 < hop)
    (hma : hop < 2 ^ 63) :
    ∃ frame, parseFrame ([94].intercalate (sentType pc9x :: sentFields s origin hop pc9x)) = some frame ∧
      frame.type = sentType pc9x ∧ frame.hop = hop ∧ frame.payloadFields = splitFields s origin hop pc9x := by
  have hs := splitOn_sent origin pc9x hdx hde hh
  obtain ⟨rest, hr⟩ : ∃ rest, splitFields s origin hop pc9x = rest ++ [hopMarker hop, []] :=
    ⟨_, by simp only [splitFields, ← append_assoc]; rfl⟩
  obtain ⟨t, ht⟩ : ∃ t, [94].intercalate (sentType pc9x :: sentFields s origin hop pc9x) = 80 :: t := by
    cases pc9x <;> exact ⟨_, rfl⟩
  obtain ⟨u, hu⟩ : ∃ u, [94].intercalate (sentType pc9x :: sentFields s origin hop pc9x) = u ++ [94] := by
    have := join_concat 94 (cons_ne_nil (sentType pc9x)
      (spotFields s origin ++ ((if pc9x then [trimSpace s.record.spotterIP] else []) ++ [hopMarker hop]))) []
    exact ⟨_, by simpa [sentFields] using this⟩
  generalize [94].intercalate (sentType pc9x :: sentFields s origin hop pc9x) = line at hs ht hu ⊢
  have htr : trimSpace line = line := trimSpace_graphic (by decide) (by decide) ht hu
  have hti : line.getLast? ≠ some 126 := by simp [hu]
  obtain ⟨hm, hv⟩ := hopValue_hopMarker hh hma
  have he : isHopToken [] = false := rfl
  have hf : (sentType pc9x :: splitFields s origin hop pc9x).reverse.find? isHopToken = some (hopMarker hop) := by
    simp [hr, he, hm]
  rw [parseFrame_eq htr (by simp [ht]) hti hs]
  refine ⟨_, rfl, ?_, ?_, ?_⟩
  · cases pc9x <;> rfl
  · simp only [hf, Option.bind_some, hv, Option.getD_some]
  · have hl : (splitFields s origin hop pc9x).getLast? = some [] := by simp [hr]
    simp [Frame.payloadFields, hl, he]

theorem parseSpotFromFrame_sent (ht : frame.type = sentType pc9x)
    (hf : frame.payloadFields = splitFields s origin hop pc9x) (now : Int) (fallbackOrigin : Str) :
    ∃ minFields ip, minFields ≤ (splitFields s origin hop pc9x).length ∧ parseSpotFromFrame now frame fallbackOrigin =
      parseSpot minFields ip now (splitFields s origin hop pc9x) frame.hop fallbackOrigin := by
  have hl : 8 ≤ (splitFields s origin hop pc9x).length := by simp [splitFields]; omega
  unfold parseSpotFromFrame
  rw [ht, hf]
  cases pc9x with
  | false => exact ⟨7, _, by omega, rfl⟩
  | true => exact ⟨8, _, hl, rfl⟩

/-! ## What the next node reads -/

/-- Two spots agree in what a relay has to keep. -/
structure SameReport (s s' : FloatSpot) : Prop where
  dxCall : s'.record.dxCall = s.record.dxCall
  deCall : s'.record.deCall = s.record.deCall
  frequency : s'.frequency = s.frequency
  time : s'.record.time = s.record.time
  mode : s'.record.mode = s.record.mode
  hasReport : s'.record.hasReport = s.record.hasReport
  report : s'.record.report = s.record.report
  sourceNode : s'.record.sourceNode = s.record.sourceNode

/-- The parser finds nothing in the comment and leaves it as it is. -/
def Untouched (comment : Str) : Prop :=
  10 ∉ comment ∧ 13 ∉ comment ∧ ∀ freq, Comment.parseSpotComment comment freq = { comment := trimSpace comment }

/-- What the fields of a frame need, so that nothing is lost when its spot is sent on: the parser takes one portable
suffix off each call that has one and the mode, the report and the time out of the comment, and a number of kHz is
rounded to 100 Hz. -/
structure Sendable (fields : List Str) : Prop where
  frequency : ∃ x : ℚ, parseFloat64 (trimSpace (field fields 0)) = some (.finite x) ∧ |x| ≤ 2 ^ 40
  dxCall : ∀ suffix ∈ portableSuffixes, ¬ suffix <:+ normalizeCallsign (trimSpace (field fields 1))
  comment : Untouched (field fields 4)
  deCall : ∀ suffix ∈ portableSuffixes, ¬ suffix <:+ normalizeCallsign (trimSpace (field fields 5))
  origin : trimSpace (field fields 6) ≠ []

omit [Unicode] in
theorem sanitizeComment_eq {c : Str} (ht : trimSpace c = c) (hc : 94 ∉ c) (hcr : 13 ∉ c) (hlf : 10 ∉ c) :
    sanitizeComment c = c := by
  have hr {old : UInt8} (h : old ∉ c) : replaceByte old 32 c = c := by
    have hi : ∀ b ∈ c, (if b = old then 32 else b) = id b := by
      intro b hb
      exact if_neg fun h' : b = old => h (h' ▸ hb)
    rw [replaceByte, map_congr_left hi, map_id]
  rw [sanitizeComment, hr hc, hr hcr, hr hlf, ht]

/-- The comment is sent as it was stored, and read again it has nothing to take out either. -/
theorem comment_sent (hre : Reads now fields fallbackOrigin freq s) (hu : Untouched (field fields 4))
    (hc : 94 ∉ field fields 4) : s.record.mode = [] ∧ s.record.hasReport = false ∧ s.record.report = 0 ∧
      ∀ freq', Comment.parseSpotComment (sanitizeComment s.record.comment) freq' = { comment := s.record.comment } := by
  obtain ⟨hlf, hcr, hpar⟩ := hu
  have hm := hre.mode
  have hh := hre.hasReport
  have hr := hre.report
  have hco := hre.comment
  rw [hpar] at hm hh hr hco
  refine ⟨hm, hh, hr, fun freq' => ?_⟩
  have hno {b : UInt8} (hb : b ∉ field fields 4) : b ∉ trimSpace (field fields 4) :=
      fun h => hb (mem_of_mem_trimSpace h)
  rw [hco, sanitizeComment_eq (trimSpace_trimSpace _) (hno hc) (hno hcr) (hno hlf), ← hpar freq']
  simp only [Comment.parseSpotComment, trimSpace_trimSpace]

theorem reads_sent {s' : FloatSpot}
    (hdx : isValidNormalizedCallsign s.record.dxCall) (hde : isValidNormalizedCallsign s.record.deCall)
    (h : Reads now (splitFields s origin hop pc9x) fallbackOrigin freq s') :
    s'.record.dxCall = normalizeCallsign s.record.dxCall ∧ s'.record.deCall = normalizeCallsign s.record.deCall ∧
      s'.record.sourceNode = readOrigin (origin.takeWhile (· ≠ 94)) fallbackOrigin := by
  have hdxC := h.dxCall
  have hd := h.deCall
  have hs := h.sourceNode
  rw [splitFields_get] at hs
  simp only [field, splitFields, getD_cons_succ, getD_cons_zero, cons_append,
    (isWord_of_valid hdx).trimSpace, (isWord_of_valid hde).trimSpace] at hdxC hd
  exact ⟨hdxC, hd, hs⟩

omit [Unicode] in
theorem origin_sent (ho : trimSpace (field fields 6) ≠ []) (hc : 94 ∉ field fields 6) (m : Manager)
    (hso : s.record.sourceNode = readOrigin (field fields 6) fallbackOrigin) :
    readOrigin ((m.originFor s.record.sourceNode).takeWhile (· ≠ 94)) fallbackOrigin = s.record.sourceNode := by
  have hs : s.record.sourceNode = trimSpace (field fields 6) := hso.trans (if_neg ho)
  have hi := trimSpace_trimSpace (field fields 6)
  have hw : (trimSpace (field fields 6)).takeWhile (· ≠ 94) = trimSpace (field fields 6) := by
    rw [takeWhile_eq_self_iff]
    intro b hb
    simpa using fun h : b = 94 => hc (h ▸ mem_of_mem_trimSpace hb)
  rw [hs, Manager.originFor, hi, if_neg ho, hw, readOrigin, hi, if_neg ho]

theorem sameReport_sent {frame' : Frame} (m : Manager) (hre : Reads now fields fallbackOrigin freq s)
    (hda : Dated fields) (hse : Sendable fields) (hc : ∀ f ∈ fields, 94 ∉ f)
    (hfr : parseFloat64 (trimSpace (field fields 0)) = some freq) (ht : frame'.type = sentType pc9x)
    (hfi : frame'.payloadFields = splitFields s (m.originFor s.record.sourceNode) hop pc9x) (now' : Int) :
    ∃ s', parseSpotFromFrame now' frame' fallbackOrigin = .ok s' ∧ SameReport s s' := by
  have hca (i : Nat) : 94 ∉ field fields i := by
    rw [field, getD_eq_getElem?_getD]
    cases hg : fields[i]? with
    | none => exact not_mem_nil
    | some f => exact hc f (mem_of_getElem? hg)
  obtain ⟨x, hx, hb⟩ := hse.frequency
  obtain rfl : freq = .finite x := Option.some.inj (hfr.symm.trans hx)
  obtain ⟨f, hf, hpf, hro⟩ := roundFrequencyTo100Hz_sent hb
  have hsf : s.frequency = .finite f := hre.frequency.trans hf
  have hp : parseFloat64 (trimSpace (field (splitFields s (m.originFor s.record.sourceNode) hop pc9x) 0)) =
      some (.finite f) := by
    show parseFloat64 (trimSpace s.frequency.formatTenths) = _
    rw [(Number.isWord_formatTenths _).trimSpace, hsf]
    exact hpf
  have hdx := (normalizeCallsign_eq_self hre.dxValid).2 (hre.dxCall ▸ hse.dxCall)
  have hde := (normalizeCallsign_eq_self hre.deValid).2 (hre.deCall ▸ hse.deCall)
  obtain ⟨minFields, ip, hl, heq⟩ := parseSpotFromFrame_sent ht hfi now' fallbackOrigin
  obtain ⟨s', hs'⟩ := parseSpot_of hl hp (by
      show isValidNormalizedCallsign (normalizeCallsign (trimSpace s.record.dxCall))
      rw [(isWord_of_valid hre.dxValid).trimSpace, hdx, hre.dxValid])
    (by
      show isValidNormalizedCallsign (normalizeCallsign (trimSpace s.record.deCall))
      rw [(isWord_of_valid hre.deValid).trimSpace, hde, hre.deValid]) ip now' frame'.hop fallbackOrigin
  obtain ⟨freq', hf', hr⟩ := parseSpot_ok hs'
  obtain rfl : freq' = .finite f := Option.some.inj (hf'.symm.trans hp)
  obtain ⟨hdxC, hd, hso⟩ := reads_sent hre.dxValid hre.deValid hr
  obtain ⟨hm, hh, hrp, hpar⟩ := comment_sent hre hse.comment (hca 4)
  have hco : field (splitFields s (m.originFor s.record.sourceNode) hop pc9x) 4 =
      sanitizeComment s.record.comment := rfl
  have hm' := hr.mode
  have hh' := hr.hasReport
  have hrp' := hr.report
  rw [hco, hpar] at hm' hh' hrp'
  refine ⟨s', heq.trans hs', hdxC.trans hdx, hd.trans hde, (hr.frequency.trans hro).trans hsf.symm,
    hr.time.trans (parsePCDateTime_sent hda hre.time now'), hm'.trans hm.symm, hh'.trans hh.symm,
      hrp'.trans hrp.symm, ?_⟩
  exact hso.trans (origin_sent hse.origin (hca 6) m hre.sourceNode)

/-! ## The relay -/

/-- The line `out`, relayed for the frame `frame` that was received with the spot `s`, is read as this one line, and the
frame it is parsed to has the same spot and a hop count lower by one. -/
def Transparent (cfg : ReaderConfig) (fallbackOrigin : Str) (frame : Frame) (s : FloatSpot) (out : Str) : Prop :=
  ReadsBack cfg out ∧ ∃ frame', parseFrame out = some frame' ∧ frame'.hop = frame.hop - 1 ∧
    ∀ now, ∃ s', parseSpotFromFrame now frame' fallbackOrigin = .ok s' ∧ SameReport s s'

theorem hop_lt {line : Str} (h : parseFrame line = some frame) : frame.hop < 2 ^ 63 := by
  unfold parseFrame at h
  dsimp only at h
  split at h
  · cases h
  · cases h
    dsimp only
    generalize hn : Option.bind _ hopValue = n
    cases n with
    | none => decide
    | some n =>
      obtain ⟨f, -, hf⟩ := Option.bind_eq_some_iff.1 hn
      exact lt_of_atoi hf

theorem not_mem_payloadFields {line : Str} (h : parseFrame line = some frame) : ∀ f ∈ frame.payloadFields, 94 ∉ f := by
  unfold parseFrame at h
  dsimp only at h
  split at h
  · cases h
  · cases h
    intro f hf
    have hm : f ∈ (splitOn 94 (trimSuffix (trimSpace line) "~")).tail := by
      unfold Frame.payloadFields at hf
      dsimp only at hf
      split at hf
      · exact dropLast_subset _ hf
      · exact hf
    exact not_mem_of_mem_splitOn (mem_of_mem_tail hm)

theorem reads_of_frame {s : FloatSpot} (ht : frame.type = ascii "PC11" ∨ frame.type = ascii "PC61")
    (hs : parseSpotFromFrame now frame fallbackOrigin = .ok s) :
    ∃ freq, parseFloat64 (trimSpace (field frame.payloadFields 0)) = some freq ∧
      Reads now frame.payloadFields fallbackOrigin freq s := by
  unfold parseSpotFromFrame at hs
  rcases ht with h | h <;> rw [h] at hs
  · exact parseSpot_ok hs
  · exact parseSpot_ok hs

end Reparse

section Example

local instance relayUnicode : Unicode := .asciiOnly

def relayManager : Manager :=
  { localCall := "N0CAL", sessions := [{ id := "a", remoteCall := "PEER" }, { id := "b", ref := 1 }] }

def relayLine (comment : Str) : Str :=
  ascii "PC61^14025.0^K1ABC^01-Jan-2026^1200Z^" ++ comment ++ ascii "^W1AW^N0CALL^192.0.2.1^H5^"

def relayFrame (comment : Str) : Frame :=
  { type := "PC61", hop := 5, raw := relayLine comment
    fields := ["14025.0", "K1ABC", "01-Jan-2026", "1200Z", comment, "W1AW", "N0CALL", "192.0.2.1", "H5", ""] }

def relaySpot (parsed : Comment.CommentParseResult) : FloatSpot where
  frequency := .finite 14025
  record :=
    { dxCall := "K1ABC", deCall := "W1AW", band := "20m", mode := parsed.mode, report := parsed.report
      time := date ⟨2026, 1, 1⟩ 12 0, comment := parsed.comment, sourceType := .peer, sourceNode := "N0CALL"
      spotterIP := "192.0.2.1", ttl := 5, isHuman := true, hasReport := parsed.hasReport, modeNorm := parsed.mode
      bandNorm := "20m", dxCallNorm := "K1ABC", deCallNorm := "W1AW" }

def relayOut (comment : Str) : Str :=
  ascii "PC61^14025.0^K1ABC^01-Jan-2026^1200Z^" ++ comment ++ ascii "^W1AW^N0CALL^192.0.2.1^H4^"

/-- A token that is no keyword, time or number is passed over. -/
theorem step_token {tok : Comment.Token} {found : List Comment.Match}
    (hk : Comment.classifyTokenWithFallback found tok = none)
    (hn : tok.clean ≠ [] ∧ (Comment.peelTimePrefix tok.clean).1 = [] ∧ Comment.isTimeToken tok.clean = false ∧
      Comment.parseInlineSNR tok.clean = none ∧ Comment.parseSignedInt tok.clean = none) (freq : Number) :
    Comment.Loop.step freq found { tokens := [tok], consumed := [false] } 0 =
    { tokens := [tok], consumed := [false] } := by
  simp [Comment.Loop.step, Comment.Loop.peel, Comment.Loop.number, hk, hn]

theorem untouched_tnx : Untouched "TNX" := by
  refine ⟨by decide, by decide, fun freq => ?_⟩
  have ht : Comment.tokenizeComment (trimSpace "TNX") = [⟨"TNX", "TNX", 0, 3⟩] := by decide +kernel
  have hk : Comment.classifyTokenWithFallback (Comment.keywordScanner.findAll (toUpper (trimSpace "TNX")))
      ⟨"TNX", "TNX", 0, 3⟩ = none := by decide +kernel
  have hs := step_token hk (by decide +kernel) freq
  unfold Comment.parseSpotComment
  dsimp only
  rw [ht, if_neg (by decide +kernel)]
  simp only [length_singleton, range_one, foldl_cons, foldl_nil, replicate_one, hs]
  rfl

theorem sendable_tnx : Sendable (relayFrame "TNX").payloadFields :=
  ⟨⟨14025, by decide +kernel, by norm_num⟩, by decide +kernel, untouched_tnx, by decide +kernel, by decide +kernel⟩

end Example

end GoCluster.Peer

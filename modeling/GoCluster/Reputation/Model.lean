import GoCluster.Lib.Map
import GoCluster.Lib.Runs
import GoCluster.Spot.Model
/-!
# The reputation gate

`RecordLogin` and `Check` of the telnet reputation gate, with the record store,
the per-call state and the prefix token buckets behind them. Answers from
outside (the CTY database, the lookup cache, the IP data, Team Cymru, the
IPinfo API, the clock) come with the call. Writes to the record store succeed.

The gate's settings carry what `normalizeGateConfig` enforces, so the limits
are positive and start at or below their caps in every gate there is.
-/
open Golib

namespace GoCluster.Reputation

/-! ## Settings -/

/-- The part of `config.ReputationConfig` that the modelled functions use; times in nanoseconds. -/
structure ReputationConfig where
  enabled : Bool := true
  initialWait : Int := 0
  rampWindow : Int := 0
  perBandStart : Int := 0
  perBandCap : Int := 0
  totalCapStart : Int := 0
  totalCapPostRamp : Int := 0
  totalCapRampDelay : Int := 0
  countryMismatchExtraWait : Int := 0
  disagreementPenalty : Int := 0
  unknownPenalty : Int := 0
  disagreementResetOnNew : Bool := false
  resetOnNewASN : Bool := false
  countryFlipScope : Str := []
  maxASNHistory : Int := 0
  maxCountryHistory : Int := 0
  prefixTTL : Int := 0
  prefixMaxEntries : Int := 0
  ipinfoSnapshotMaxAge : Int := 0
  ipv4BucketSize : Int := 0
  ipv4BucketRefillPerSec : Int := 0
  ipv6BucketSize : Int := 0
  ipv6BucketRefillPerSec : Int := 0

/-- Normalized settings. -/
structure GateConfig extends ReputationConfig where
  initialWait_nonneg : 0 ≤ initialWait
  rampWindow_pos : 0 < rampWindow
  perBandStart_pos : 0 < perBandStart
  perBandStart_le : perBandStart ≤ perBandCap
  totalCapStart_pos : 0 < totalCapStart
  totalCapStart_le : totalCapStart ≤ totalCapPostRamp

/-- `value` if it is positive, else the default. -/
def orDefault (value default : Int) : Int := if value ≤ 0 then default else value

theorem orDefault_pos {value default : Int} (h : 0 < default) : 0 < orDefault value default := by
  unfold orDefault; split <;> omega

def normalizeGateConfig (cfg : ReputationConfig) : GateConfig :=
  let perBandCap := orDefault cfg.perBandCap 5
  let perBandStart := min (orDefault cfg.perBandStart 1) perBandCap
  let totalCapStart := orDefault cfg.totalCapStart 5
  let totalCapPostRamp := max (orDefault cfg.totalCapPostRamp totalCapStart) totalCapStart
  { cfg with
    initialWait := if cfg.initialWait < 0 then seconds 60 else cfg.initialWait
    rampWindow := orDefault cfg.rampWindow (seconds 60)
    perBandStart, perBandCap, totalCapStart, totalCapPostRamp
    countryMismatchExtraWait := orDefault cfg.countryMismatchExtraWait (seconds 60)
    disagreementPenalty := orDefault cfg.disagreementPenalty (seconds 60)
    unknownPenalty := orDefault cfg.unknownPenalty (seconds 60)
    countryFlipScope := if cfg.countryFlipScope = [] then "country" else cfg.countryFlipScope
    maxASNHistory := orDefault cfg.maxASNHistory 5
    maxCountryHistory := orDefault cfg.maxCountryHistory 5
    prefixTTL := orDefault cfg.prefixTTL (seconds 3600)
    prefixMaxEntries := orDefault cfg.prefixMaxEntries 200000
    ipinfoSnapshotMaxAge := orDefault cfg.ipinfoSnapshotMaxAge (seconds (26 * 3600))
    ipv4BucketSize := orDefault cfg.ipv4BucketSize 64
    ipv4BucketRefillPerSec := orDefault cfg.ipv4BucketRefillPerSec 8
    ipv6BucketSize := orDefault cfg.ipv6BucketSize 32
    ipv6BucketRefillPerSec := orDefault cfg.ipv6BucketRefillPerSec 4
    initialWait_nonneg := by split <;> [decide; omega]
    rampWindow_pos := orDefault_pos (by decide)
    perBandStart_pos := lt_min (orDefault_pos (by decide)) (orDefault_pos (by decide))
    perBandStart_le := min_le_right _ _
    totalCapStart_pos := orDefault_pos (by decide)
    totalCapStart_le := le_max_right _ _ }

/-! ## Lookups -/

structure LookupResult where
  asn : Str := []
  countryCode : Str := []
  countryName : Str := []
  continentCode : Str := []
  source : Str := []
  fetchedAt : Int := 0
deriving DecidableEq, Repr

def countryAliasCode : List (Str × Str) :=
  [("UNITEDSTATES", "US"), ("UNITEDSTATESOFAMERICA", "US"), ("USA", "US"), ("UNITEDKINGDOM", "GB"),
    ("GREATBRITAIN", "GB"), ("ENGLAND", "GB"), ("SCOTLAND", "GB"), ("WALES", "GB"), ("NORTHERNIRELAND", "GB"),
    ("RUSSIA", "RU"), ("RUSSIANFEDERATION", "RU"), ("SOUTHKOREA", "KR"), ("REPUBLICOFKOREA", "KR"), ("KOREA", "KR"),
    ("NORTHKOREA", "KP"), ("DEMOCRATICPEOPLESREPUBLICOFKOREA", "KP"), ("VIETNAM", "VN"), ("IRAN", "IR"),
    ("SYRIA", "SY"), ("TANZANIA", "TZ"), ("BOLIVIA", "BO"), ("VENEZUELA", "VE")]

/-- What the sources asked by `lookupIP` answer: a cached result that has not expired, the IPv4
index, the IPinfo store, Team Cymru and the IPinfo API. -/
structure IPSources where
  cached : Option LookupResult := none
  index : Option LookupResult := none
  store : Option LookupResult := none
  cymru : Option LookupResult := none
  api : LookupResult := {}

/-- A parsed address; an address that does not parse is `none`. -/
inductive Addr
  | v4 (bits : BitVec 32)
  | v6 (bits : BitVec 128)
deriving DecidableEq, Repr

/-- A /24 or a /48. The source uses the text of the prefix, which is one to one with it. -/
inductive Prefix48
  | v4 (bits : BitVec 24)
  | v6 (bits : BitVec 48)
deriving DecidableEq, Repr

def prefixKeyFromIP : Option Addr → Option Prefix48
  | some (.v4 bits) => some (.v4 (bits.extractLsb' 8 24))
  | some (.v6 bits) => some (.v6 (bits.extractLsb' 80 48))
  | none => none

section Lookups
variable [Unicode]

def normalizeCountryName (name : Str) : Str :=
  (runes (trimSpace name)).flatMap fun r => if isLetterRune r || isNumberRune r then encodeRune (upperRune r) else []

/-- The empty key stands for the `false` of the source. -/
def countryKeyFromCode (code : Str) : Str :=
  let code := toUpper (trimSpace code)
  if code.length = 2 then code else []

def countryKeyFromName (name : Str) : Str :=
  let name := normalizeCountryName name
  (countryAliasCode.lookup name).getD name

def continentKey (continent : Str) : Str :=
  let continent := toUpper (trimSpace continent)
  if continent.length = 2 then continent else []

def countryKey (result : LookupResult) : Str :=
  let key := countryKeyFromCode result.countryCode
  if key = [] then countryKeyFromName result.countryName else key

/-- The first of the two that has a source. -/
def primaryOf (ipinfo cymru : LookupResult) : LookupResult := if ipinfo.source = [] then cymru else ipinfo

/-- The results of IPinfo and Cymru, the country and continent of the first of them that answered,
and whether one did. -/
def lookupIP (cfg : GateConfig) (addr : Option Addr) (sources : IPSources) (now : Int) :
    LookupResult × LookupResult × Str × Str × Bool :=
  match addr with
  | none => ({}, {}, [], [], false)
  | some addr =>
    let usable := sources.cached.filter fun cached =>
      cfg.ipinfoSnapshotMaxAge = 0 ∨ sub now cached.fetchedAt ≤ cfg.ipinfoSnapshotMaxAge
    match usable with
    | some cached => (cached, {}, countryKey cached, continentKey cached.continentCode, true)
    | none =>
      let ipinfo := match addr with
        | .v4 _ =>
          let ipinfo := sources.index.getD {}
          if ipinfo.source = [] then sources.store.getD ipinfo else ipinfo
        | .v6 _ => sources.store.getD {}
      let cymru := if ipinfo.source = [] then sources.cymru.getD {} else {}
      let ipinfo := if ipinfo.source = [] ∧ cymru.source = [] then sources.api else ipinfo
      let primary := primaryOf ipinfo cymru
      if primary.source = [] then (ipinfo, cymru, [], [], false)
      else (ipinfo, cymru, countryKey primary, continentKey primary.continentCode, true)

def countryMismatch (ctyCountryKey ipCountryKey : Str) : Bool :=
  ctyCountryKey ≠ [] && ipCountryKey ≠ [] && ctyCountryKey ≠ ipCountryKey

def disagreement (ipinfo cymru : LookupResult) : Bool :=
  ipinfo.source ≠ [] && cymru.source ≠ [] && ((ipinfo.asn ≠ [] && cymru.asn ≠ [] && ipinfo.asn ≠ cymru.asn) ||
      let cymruCountryKey := countryKeyFromCode cymru.countryCode
      countryKey ipinfo ≠ [] && cymruCountryKey ≠ [] && countryKey ipinfo ≠ cymruCountryKey)

end Lookups

/-! ## The record store -/

/-- `UpdatedAt` is left out: nothing reads it. -/
structure Record where
  recentASNs : List Str := []
  recentCountries : List Str := []
  recentContinents : List Str := []
deriving DecidableEq, Repr

/-- The files of the store's directory. -/
structure Store where
  maxASNHistory : Int
  maxGeoHistory : Int
  files : Map Str Record := ∅

def newStore (maxASNHistory maxGeoHistory : Int) : Store :=
  { maxASNHistory := orDefault maxASNHistory 5, maxGeoHistory := orDefault maxGeoHistory 5 }

def trimHistory (values : List Str) (limit : Int) : List Str :=
  if limit ≤ 0 ∨ values.length ≤ limit then values else values.take limit.toNat

/-- The loop over the old values: stops once `limit` values are in `out`. -/
def prependRest (value : Str) (limit : Int) : List Str → List Str → List Str
  | [], out => out
  | v :: existing, out =>
    if v = value then prependRest value limit existing out
    else if limit ≤ (out ++ [v]).length then out ++ [v]
    else prependRest value limit existing (out ++ [v])

def prependUnique (value : Str) (existing : List Str) (limit : Int) : List Str :=
  if limit ≤ 0 then [] else prependRest value limit existing [value]

section Store
variable [Unicode]

def normalizeCallKey (call : Str) : Str := toUpper (trimSpace call)

/-- The file of a call below the store's directory: `filepath.Join` drops empty path elements. The calls
that get here have no dots. -/
def recordPath (callsign : Str) : Str :=
  ((((toUpper callsign).splitOnP (· == 47)).filter (· ≠ [])).intersperse [47]).flatten

namespace Store

/-- `none` when the file does not exist. -/
def load (s : Store) (callsign : Str) : Option Record :=
  let callsign := normalizeCallKey callsign
  if callsign = [] then none
  else (s.files.lookup (recordPath callsign)).map fun record =>
    { recentASNs := trimHistory record.recentASNs s.maxASNHistory
      recentCountries := trimHistory record.recentCountries s.maxGeoHistory
      recentContinents := trimHistory record.recentContinents s.maxGeoHistory }

def touch (s : Store) (callsign asn country continent : Str) : Store × Option Record :=
  let callsign := normalizeCallKey callsign
  if callsign = [] then (s, none)
  else
    let record := (s.load callsign).getD {}
    let push (value : Str) (values : List Str) (limit : Int) :=
      let value := trimSpace value
      if value = [] then values else prependUnique value values limit
    let record : Record :=
      { recentASNs := push asn record.recentASNs s.maxASNHistory
        recentCountries := push country record.recentCountries s.maxGeoHistory
        recentContinents := push continent record.recentContinents s.maxGeoHistory }
    ({ s with files := s.files.insert (recordPath callsign) record }, some record)

end Store
end Store

/-! ## Prefix token buckets -/

/-- FNV-1a. -/
def fnv32a (s : Str) : UInt32 := s.foldl (fun hash b => (hash ^^^ b.toUInt32) * 16777619) 2166136261

structure PrefixState where
  tokens : Int
  lastRefill : Int
  lastSeen : Int
deriving DecidableEq, Repr

/-- The source spreads the buckets over 16 shards by the prefix; one map holds the same buckets. -/
structure PrefixLimiter where
  capacity : Int
  refillPerSec : Int
  ttl : Int
  items : Map Prefix48 PrefixState := ∅

def newPrefixLimiter (capacity refillPerSec ttl : Int) : Option PrefixLimiter :=
  if capacity ≤ 0 ∨ refillPerSec ≤ 0 then none else some { capacity, refillPerSec, ttl }

namespace PrefixLimiter

def refill (p : PrefixLimiter) (state : PrefixState) (now : Int) : PrefixState :=
  if now < state.lastRefill then { state with lastRefill := now }
  else
    let elapsed := sub now state.lastRefill
    if elapsed < seconds 1 then state
    else
      let add := elapsed / seconds 1 * p.refillPerSec
      if add ≤ 0 then state
      else { state with
        tokens := min (state.tokens + add) p.capacity
        lastRefill := state.lastRefill + add / p.refillPerSec * seconds 1 }

def allow (p : PrefixLimiter) (key : Option Prefix48) (now : Int) : PrefixLimiter × Bool :=
  match key with
  | none => (p, true)
  | some key =>
    let fresh : PrefixState := { tokens := p.capacity, lastRefill := now, lastSeen := now }
    let state := match p.items.lookup key with
      | none => fresh
      | some state => if 0 < p.ttl ∧ p.ttl < sub now state.lastSeen then fresh else state
    let state : PrefixState := { p.refill state now with lastSeen := now }
    if state.tokens ≤ 0 then ({ p with items := p.items.insert key state }, false)
    else ({ p with items := p.items.insert key { state with tokens := state.tokens - 1 } }, true)

end PrefixLimiter

/-! ## Call state -/

def penaltyCountryMismatch : UInt8 := 1
def penaltyASNReset : UInt8 := 2
def penaltyGeoFlip : UInt8 := 4
def penaltyDisagreement : UInt8 := 8
def penaltyUnknown : UInt8 := 16

structure CallState where
  windowStart : Int := 0
  nextAllowedAt : Int := 0
  nextRampAt : Int := 0
  totalCapUpgradeAt : Int := 0
  perBandLimit : Int := 0
  totalCap : Int := 0
  perBandCounts : Map Str Int := ∅
  totalCount : Int := 0
  lastSeen : Int := 0
  penaltyFlags : UInt8 := 0
  ctyCountryKey : Str := []
  ctyContinentKey : Str := []
  currentASN : Str := []
  currentCountryKey : Str := []
  currentCountryCode : Str := []
  currentCountry : Str := []
  currentSource : Str := []
  currentPrefix : Option Prefix48 := none
  asnHistory : List Str := []
  countryHistory : List Str := []
  continentHistory : List Str := []

namespace CallState

/-- The count of a band that has none is 0. -/
def bandCount (state : CallState) (band : Str) : Int := (state.perBandCounts.lookup band).getD 0

def resetState (cfg : GateConfig) (state : CallState) (now initialWait extraDelay : Int) : CallState :=
  let windowStart := now + initialWait
  let state := { state with
    windowStart
    nextAllowedAt := windowStart
    nextRampAt := windowStart + (cfg.rampWindow + extraDelay)
    perBandLimit := cfg.perBandStart
    totalCap := cfg.totalCapStart
    totalCapUpgradeAt := 0
    perBandCounts := ∅
    totalCount := 0 }
  if cfg.perBandCap ≤ state.perBandLimit then
    { state with
      perBandLimit := cfg.perBandCap
      totalCapUpgradeAt :=
        if state.totalCap < cfg.totalCapPostRamp then windowStart + cfg.totalCapRampDelay else 0 }
  else state

/-- `for i := 0; i < steps && state.perBandLimit < g.cfg.perBandCap; i++`. -/
def rampLoop (cfg : GateConfig) : Nat → CallState → CallState
  | 0, state => state
  | steps + 1, state =>
    if state.perBandLimit < cfg.perBandCap then
      rampLoop cfg steps
        { state with perBandLimit := state.perBandLimit + 1, nextRampAt := state.nextRampAt + cfg.rampWindow }
    else state

/-- The first part of `advanceState`: the counting window. -/
def advanceWindow (cfg : GateConfig) (state : CallState) (now : Int) : CallState :=
  let state := if state.windowStart = 0 then { state with windowStart := now } else state
  if state.windowStart < now then
    let elapsed := sub now state.windowStart
    if cfg.rampWindow ≤ elapsed then
      let steps := elapsed / cfg.rampWindow
      { state with windowStart := state.windowStart + steps * cfg.rampWindow, perBandCounts := ∅, totalCount := 0 }
    else state
  else state

/-- The second part: the limit per band. -/
def advanceRamp (cfg : GateConfig) (state : CallState) (now : Int) : CallState :=
  if state.perBandLimit < cfg.perBandCap ∧ state.nextRampAt ≠ 0 ∧ state.nextRampAt ≤ now then
    let elapsed := sub now state.nextRampAt
    let steps := elapsed / cfg.rampWindow + 1
    let state := rampLoop cfg steps.toNat state
    if cfg.perBandCap ≤ state.perBandLimit ∧ state.totalCapUpgradeAt = 0 then
      { state with totalCapUpgradeAt := now + cfg.totalCapRampDelay }
    else state
  else state

/-- The third part: the cap over all bands. -/
def advanceTotalCap (cfg : GateConfig) (state : CallState) (now : Int) : CallState :=
  if state.totalCapUpgradeAt = 0 then state
  else if state.totalCapUpgradeAt ≤ now then { state with totalCap := cfg.totalCapPostRamp, totalCapUpgradeAt := 0 }
  else state

def advanceState (cfg : GateConfig) (state : CallState) (now : Int) : CallState :=
  advanceTotalCap cfg (advanceRamp cfg (advanceWindow cfg state now) now) now

end CallState

/-! ## The gate -/

inductive DropReason
  | probation | bandCap | totalCap | prefixCap
deriving DecidableEq, Repr

structure Decision where
  allow : Bool
  drop : Bool := false
  reason : Option DropReason := none
  flags : UInt8 := 0
  asn : Str := []
  countryCode : Str := []
  countryName : Str := []
  source : Str := []
  pfx : Option Prefix48 := none
deriving DecidableEq, Repr

abbrev callShardCount : Nat := 32
instance : NeZero callShardCount := ⟨by decide⟩

structure Gate where
  cfg : GateConfig
  store : Store
  callShards : Fin callShardCount → Map Str CallState := fun _ => ∅
  prefixV4 : Option PrefixLimiter
  prefixV6 : Option PrefixLimiter

def newGate (cfg : ReputationConfig) : Gate :=
  let cfg := normalizeGateConfig cfg
  { cfg
    store := newStore cfg.maxASNHistory cfg.maxCountryHistory
    prefixV4 := newPrefixLimiter cfg.ipv4BucketSize cfg.ipv4BucketRefillPerSec cfg.prefixTTL
    prefixV6 := newPrefixLimiter cfg.ipv6BucketSize cfg.ipv6BucketRefillPerSec cfg.prefixTTL }

/-- What the CTY database says about a call: country and continent. -/
structure CTYAnswer where
  country : Str
  continent : Str

/-- A call of `RecordLogin` with the answers it gets. `clock` is read when `now` is the zero time. -/
structure Login where
  call : Str
  addr : Option Addr := none
  now : Int
  clock : Int := 0
  cty : Option CTYAnswer := none
  ip : IPSources := {}

/-- A call of `Check`. -/
structure Request where
  call : Str
  band : Str := []
  addr : Option Addr := none
  now : Int
  clock : Int := 0

/-- `now`, or the clock where it is the zero time. -/
def readTime (now clock : Int) : Int := if now = 0 then clock else now

section Gate
variable [Unicode]

def evaluateHistory (cfg : GateConfig) (record : Option Record) (ip : LookupResult)
    (ipCountryKey ipContinentKey : Str) : Bool × Bool :=
  match record with
  | none => (false, false)
  | some record =>
    let asnNew := cfg.resetOnNewASN && ip.asn ≠ [] && !record.recentASNs.contains ip.asn
    let differs (key : Str) (recent : List Str) : Bool := key ≠ [] && recent ≠ [] && recent.head? ≠ some key
    let geoFlip :=
      if toLower cfg.countryFlipScope = "continent" then differs ipContinentKey record.recentContinents
      else differs ipCountryKey record.recentCountries
    (asnNew, geoFlip)

namespace Gate

def callShard (call : Str) : Fin callShardCount := Fin.ofNat callShardCount (fnv32a call).toNat

/-- `shard.calls[call]`. -/
def callState (g : Gate) (call : Str) : Option CallState := (g.callShards (callShard call)).lookup call

def setCallState (g : Gate) (call : Str) (state : CallState) : Gate :=
  let shard := g.callShards (callShard call)
  { g with callShards := Function.update g.callShards (callShard call) (shard.insert call state) }

/-- What `RecordLogin` finds out before it touches the state. -/
structure LoginFacts where
  ctyCountryKey : Str
  ctyContinentKey : Str
  primary : LookupResult
  ipKey : Str
  ipContinent : Str
  flags : UInt8
  extraDelay : Int
  newUser : Bool

def loginFacts (g : Gate) (call : Str) (login : Login) (now : Int) : LoginFacts :=
  let ctyCountryKey := (login.cty.map fun info => countryKeyFromName info.country).getD []
  let ctyContinentKey := (login.cty.map fun info => continentKey info.continent).getD []
  let (ipResult, cymruResult, ipKey, ipContinent, ipKnown) := lookupIP g.cfg login.addr login.ip now
  let primary := primaryOf ipResult cymruResult
  let penalties : List (Bool × UInt8 × Int) :=
    [(!ipKnown, penaltyUnknown, g.cfg.unknownPenalty),
      (countryMismatch ctyCountryKey ipKey, penaltyCountryMismatch, g.cfg.countryMismatchExtraWait),
      (disagreement ipResult cymruResult, penaltyDisagreement, g.cfg.disagreementPenalty)]
  let (flags, extraDelay) := penalties.foldl (fun (flags, extraDelay) (applies, flag, penalty) =>
    if applies then (flags ||| flag, max extraDelay penalty) else (flags, extraDelay)) ((0 : UInt8), (0 : Int))
  let record := g.store.load call
  let (asnNew, geoFlip) := evaluateHistory g.cfg record primary ipKey ipContinent
  let flags := if asnNew then flags ||| penaltyASNReset else flags
  let flags := if geoFlip then flags ||| penaltyGeoFlip else flags
  let newUser := record.isNone || asnNew || geoFlip ||
    (g.cfg.disagreementResetOnNew && flags &&& penaltyDisagreement ≠ 0)
  { ctyCountryKey, ctyContinentKey, primary, ipKey, ipContinent, flags, extraDelay, newUser }

def recordLogin (g : Gate) (login : Login) : Gate :=
  if !g.cfg.enabled then g
  else
    let call := normalizeCallsign login.call
    if call = [] then g
    else
      let now := readTime login.now login.clock
      let facts := g.loginFacts call login now
      let initialWait := if facts.newUser then g.cfg.initialWait else 0
      let (store, updatedRecord) := g.store.touch call facts.primary.asn facts.ipKey facts.ipContinent
      let g := { g with store }
      let state := (g.callState call).getD {}
      let state := state.resetState g.cfg now initialWait facts.extraDelay
      let state := { state with
        penaltyFlags := facts.flags
        ctyCountryKey := facts.ctyCountryKey
        ctyContinentKey := facts.ctyContinentKey
        currentASN := facts.primary.asn
        currentCountryKey := facts.ipKey
        currentCountryCode := facts.primary.countryCode
        currentCountry := facts.primary.countryName
        currentSource := facts.primary.source
        currentPrefix := prefixKeyFromIP login.addr
        lastSeen := now }
      let state := match updatedRecord with
        | none => state
        | some record => { state with
            asnHistory := record.recentASNs
            countryHistory := record.recentCountries
            continentHistory := record.recentContinents }
      g.setCallState call state

def dropDecisionLocked (state : CallState) (pfx : Option Prefix48) (reason : DropReason) : Decision :=
  { allow := false, drop := true, reason := some reason, flags := state.penaltyFlags, asn := state.currentASN
    countryCode := state.currentCountryCode, countryName := state.currentCountry, source := state.currentSource, pfx }

/-- The state of the caller is read but not made. -/
def dropDecision (g : Gate) (call : Str) (pfx : Option Prefix48) (reason : DropReason) : Decision :=
  dropDecisionLocked ((g.callState call).getD {}) pfx reason

/-- Takes a token from the bucket of the request's prefix. -/
def allowPrefix (g : Gate) (addr : Option Addr) (now : Int) : Gate × Bool :=
  let key := prefixKeyFromIP addr
  match addr, g.prefixV4, g.prefixV6 with
  | some (.v4 _), some limiter, _ =>
    let (limiter, ok) := limiter.allow key now
    ({ g with prefixV4 := some limiter }, ok)
  | some (.v6 _), _, some limiter =>
    let (limiter, ok) := limiter.allow key now
    ({ g with prefixV6 := some limiter }, ok)
  | _, _, _ => (g, true)

/-- The part of `Check` under the shard's lock. -/
def checkState (cfg : GateConfig) (state : Option CallState) (band : Str) (pfx : Option Prefix48) (now : Int) :
    CallState × Decision :=
  let state := match state with
    | some state => state
    | none => { ({} : CallState).resetState cfg now cfg.initialWait 0 with penaltyFlags := penaltyUnknown }
  let state := { state with lastSeen := now }.advanceState cfg now
  if now < state.nextAllowedAt then (state, dropDecisionLocked state pfx .probation)
  else
    let band := normalizeBand band
    let band := if band = [] then ascii "???" else band
    if 0 < state.totalCap ∧ state.totalCap ≤ state.totalCount then (state, dropDecisionLocked state pfx .totalCap)
    else if 0 < state.perBandLimit ∧ state.perBandLimit ≤ state.bandCount band then
      (state, dropDecisionLocked state pfx .bandCap)
    else
      let state := if 0 < state.perBandLimit then
        { state with perBandCounts := state.perBandCounts.insert band (state.bandCount band + 1) } else state
      let state := { state with totalCount := state.totalCount + 1 }
      (state, { allow := true, asn := state.currentASN, countryCode := state.currentCountryCode
                countryName := state.currentCountry, source := state.currentSource, pfx, flags := state.penaltyFlags })

def check (g : Gate) (req : Request) : Gate × Decision :=
  if !g.cfg.enabled then (g, { allow := true })
  else
    let call := toUpper (trimSpace req.call)
    if call = [] then (g, { allow := true })
    else
      let now := readTime req.now req.clock
      let pfx := prefixKeyFromIP req.addr
      let (g, ok) := g.allowPrefix req.addr now
      if !ok then (g, g.dropDecision call pfx .prefixCap)
      else
        let (state, decision) := checkState g.cfg (g.callState call) req.band pfx now
        (g.setCallState call state, decision)

end Gate
end Gate

end GoCluster.Reputation

import GoCluster.Lib.Strings
import GoCluster.Lib.Time
/-!
# Solar weather

The X-ray flux of a satellite and the geomagnetic index are polled. A flux of a
level holds that level down for some time after the sample. A poll applies its
newest sample; the first poll, and one after a long gap, begins from the
strongest sample of the recent past.
-/
open Golib

namespace GoCluster.Solarweather

structure RLevel where
  name : Str
  minFlux : ℚ
  hold : Int

structure GLevel where
  name : Str
  minKp : ℚ

structure Config where
  goesMaxAgeSec : Int
  kpMaxAgeSec : Int
  rLevels : List RLevel
  gLevels : List GLevel
  rMaxHold : Int

structure GoesSample where
  time : Int
  flux : ℚ

structure State where
  goesFlux : ℚ := 0
  goesTime : Int := 0
  goesUpdatedAt : Int := 0
  kp : ℚ := 0
  kpTime : Int := 0
  kpUpdatedAt : Int := 0
  rActiveUntil : List Int
  rSeeded : Bool := false

structure Snapshot where
  now : Int
  activeRLevel : Option Nat
  activeGLevel : Option Nat
  goesFlux : ℚ
  goesTime : Int
  kp : ℚ
  kpTime : Int
  goesStale : Bool
  kpStale : Bool

/-- The index of the last element with `p`; the source has -1 for none. -/
def lastIndex {α : Type} (p : α → Bool) : List α → Option Nat
  | [] => none
  | a :: l =>
    match lastIndex p l with
    | some i => some (i + 1)
    | none => if p a then some 0 else none

def rLevelIndex (flux : ℚ) (levels : List RLevel) : Option Nat := lastIndex (fun level => level.minFlux ≤ flux) levels

def activeRLevelIndex (now : Int) (activeUntil : List Int) : Option Nat :=
  lastIndex (fun t => t ≠ 0 ∧ now ≤ t) activeUntil

def activeGLevelIndex (kp : ℚ) (levels : List GLevel) : Option Nat := lastIndex (fun level => level.minKp ≤ kp) levels

variable (cfg : Config)

def Config.hold (i : Nat) : Int := (cfg.rLevels[i]?.map RLevel.hold).getD 0

/-- For the highest level that the sample reaches. -/
def applyRSample (activeUntil : List Int) (sample : GoesSample) : List Int :=
  match rLevelIndex sample.flux cfg.rLevels with
  | none => activeUntil
  | some levelIdx =>
    let newUntil := sample.time + cfg.hold levelIdx
    match activeUntil[levelIdx]? with
    | none => activeUntil
    | some old => if old < newUntil then activeUntil.set levelIdx newUntil else activeUntil

/-- The strongest sample that is not before the cutoff. Without one, the time is zero. -/
def strongest (cutoff : Int) (samples : List GoesSample) : GoesSample :=
  samples.foldl (fun best sample =>
    if sample.time < cutoff then best
    else if best.flux < sample.flux ∨ sample.flux = best.flux ∧ best.time < sample.time then sample
    else best) ⟨0, -1⟩

/-- What is held, and whether it has been seeded. -/
def seedRLevels (activeUntil : List Int) (now : Int) (samples : List GoesSample) : List Int × Bool :=
  if samples = [] ∨ cfg.rLevels = [] then (activeUntil, false)
  else
    let cleared := activeUntil.map fun _ => 0
    let best := strongest (now - cfg.rMaxHold) samples
    if best.time = 0 then (cleared, true) else (applyRSample cfg cleared best, true)

def newState : State := { rActiveUntil := List.replicate cfg.rLevels.length 0 }

namespace State

def updateGOES (s : State) (now : Int) (samples : List GoesSample) : State :=
  match samples.getLast? with
  | none => s
  | some latest =>
    let (activeUntil, seeded) :=
      if s.rActiveUntil.length ≠ cfg.rLevels.length then (List.replicate cfg.rLevels.length 0, false)
      else (s.rActiveUntil, s.rSeeded)
    let seed := !seeded || decide (0 < cfg.rMaxHold ∧ s.goesUpdatedAt ≠ 0 ∧ cfg.rMaxHold < sub now s.goesUpdatedAt)
    let (activeUntil, seeded) := if seed then seedRLevels cfg activeUntil now samples else (activeUntil, seeded)
    { s with
      goesFlux := latest.flux
      goesTime := latest.time
      goesUpdatedAt := now
      rSeeded := seeded
      rActiveUntil := applyRSample cfg activeUntil latest }

def snapshot (s : State) (now : Int) : Snapshot :=
  let goesStale := decide (s.goesTime = 0 ∨ seconds cfg.goesMaxAgeSec < sub now s.goesTime)
  let kpStale := decide (s.kpTime = 0 ∨ seconds cfg.kpMaxAgeSec < sub now s.kpTime)
  { now
    activeRLevel :=
      if !goesStale ∧ s.rActiveUntil.length = cfg.rLevels.length then activeRLevelIndex now s.rActiveUntil else none
    activeGLevel := if !kpStale then activeGLevelIndex s.kp cfg.gLevels else none
    goesFlux := s.goesFlux
    goesTime := s.goesTime
    kp := s.kp
    kpTime := s.kpTime
    goesStale
    kpStale }

end State

end GoCluster.Solarweather

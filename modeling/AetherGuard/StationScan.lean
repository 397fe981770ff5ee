import AetherGuard.Lib.Runs

/-!
# The station scan

The relay's `SCAN` command steps through the FM band in steps of 0.1 MHz and reads the power at
each. Steps in a row at or above the squelch threshold are one station, at its strongest odd
channel. Frequencies are in tenths of MHz. The readings are of any linear order; `low` is the value
`-999.0f` that stands for none yet.
-/

namespace AetherGuard

namespace Relay

/-- An entry of `found_stations`. -/
structure Station where
  freq10 : ℕ
  name : String
  deriving DecidableEq

/-- `SCAN_START_MHZ` -/
def scanStart10 : ℕ := 881

/-- `SCAN_END_MHZ` -/
def scanEnd10 : ℕ := 1079

/-- `"FM " + std::to_string(bestFreq).substr(0, 5)` -/
def stationName (freq10 : ℕ) : String :=
  "FM " ++ String.ofList
    ((toString (freq10 / 10) ++ "." ++ toString (freq10 % 10) ++ "00000").toList.take 5)

def station (freq10 : ℕ) : Station := ⟨freq10, stationName freq10⟩

/-- The variables of the scan loop; `bestFreq` is 0 for none. -/
structure Scan (R : Type*) where
  foundStations : List Station
  bestFreq : ℕ
  bestRssi : R
  inCluster : Bool
  clusterSteps : ℕ

namespace Scan

variable {R : Type*} [LinearOrder R]

def init (low : R) : Scan R := ⟨[], 0, low, false, 0⟩

/-- The list with the cluster's station, if the cluster makes one. -/
def flushed (s : Scan R) : List Station :=
  if s.clusterSteps ≥ 2 ∧ s.bestFreq > 0 then s.foundStations ++ [station s.bestFreq]
  else s.foundStations

/-- One round of the loop, at `freq10` with the reading `currentRssi`. -/
def round (low squelchThreshold : R) (s : Scan R) (freq10 : ℕ) (currentRssi : R) : Scan R :=
  if currentRssi ≥ squelchThreshold then
    let s := { s with inCluster := true, clusterSteps := s.clusterSteps + 1 }
    if freq10 % 2 ≠ 0 then
      if currentRssi > s.bestRssi then { s with bestRssi := currentRssi, bestFreq := freq10 } else s
    else s
  else if s.inCluster then ⟨s.flushed, 0, low, false, 0⟩
  else s

/-- The first `n` rounds, with the readings `rssi`. -/
def loop (low squelchThreshold : R) (rssi : ℕ → R) (n : ℕ) : Scan R :=
  (List.range n).foldl (fun s k => s.round low squelchThreshold (scanStart10 + k) (rssi k))
    (init low)

/-- `found_stations` after `n` steps and the flush that follows the loop. -/
def stations (low squelchThreshold : R) (rssi : ℕ → R) (n : ℕ) : List Station :=
  let s := loop low squelchThreshold rssi n
  if s.inCluster then s.flushed else s.foundStations

/-- The steps of the whole band. -/
def bandSteps : ℕ := scanEnd10 - scanStart10 + 1

end Scan

end Relay

end AetherGuard

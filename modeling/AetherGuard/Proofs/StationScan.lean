import AetherGuard.StationScan

/-!
# The stations found are those of the maximal runs

After `n` rounds the loop's variables describe the run that has come as far as step `n`, if there is
one, and the list holds the stations of the runs that ended before. Two steps in a row have an odd
frequency among them, so a run of two steps always has a best one.
-/

namespace AetherGuard

namespace Relay

namespace Scan

open Runs

variable {R : Type*} [LinearOrder R]

/-- The reading at step `k` reaches the threshold. -/
def Above (squelchThreshold : R) (rssi : ℕ → R) (k : ℕ) : Prop := squelchThreshold ≤ rssi k

/-- Step `k` is at an odd number of tenths. -/
def OddStep (k : ℕ) : Prop := (scanStart10 + k) % 2 ≠ 0

section Loop

variable {low squelchThreshold : R} {rssi : ℕ → R} {s : Scan R} {i j m n : ℕ}

/-- `best_freq` and `best_rssi` are those of the odd steps from `i` to before `n`. -/
def BestOf (low : R) (rssi : ℕ → R) (s : Scan R) (i n : ℕ) : Prop :=
  (s.bestFreq = 0 ∧ s.bestRssi = low ∧ ∀ k, i ≤ k → k < n → ¬ OddStep k) ∨
    ∃ m, s.bestFreq = scanStart10 + m ∧ s.bestRssi = rssi m ∧ FirstMax OddStep rssi i n m

/-- The variables are those of the run that has come as far as `n`, or of none. -/
def ClusterOf (low squelchThreshold : R) (rssi : ℕ → R) (s : Scan R) (n : ℕ) : Prop :=
  if s.inCluster then
    ∃ i, RunTo (Above squelchThreshold rssi) i n ∧ s.clusterSteps = n - i ∧ BestOf low rssi s i n
  else s.clusterSteps = 0 ∧ s.bestFreq = 0 ∧ s.bestRssi = low ∧
    (n = 0 ∨ ¬ Above squelchThreshold rssi (n - 1))

/-- The list holds the stations of the runs in `ran` that are two steps long or longer, in order. -/
def Lists (rssi : ℕ → R) (ran : ℕ → ℕ → Prop) (l : List Station) : Prop :=
  ∃ ms : List ℕ, l = ms.map (fun m => station (scanStart10 + m)) ∧ ms.Pairwise (· < ·) ∧
    ∀ m, m ∈ ms ↔ ∃ i j, ran i j ∧ i + 2 ≤ j ∧ FirstMax OddStep rssi i j m

/-- One of two steps in a row is odd. -/
theorem exists_oddStep (hij : i + 2 ≤ j) : ∃ k, i ≤ k ∧ k < j ∧ OddStep k := by
  by_cases h : OddStep i
  · exact ⟨i, le_rfl, by omega, h⟩
  · refine ⟨i + 1, by omega, by omega, ?_⟩
    unfold OddStep scanStart10 at *
    omega

theorem BestOf.exists_firstMax (h : BestOf low rssi s i n) (hin : i + 2 ≤ n) :
    ∃ m, s.bestFreq = scanStart10 + m ∧ FirstMax OddStep rssi i n m := by
  rcases h with ⟨-, -, hnone⟩ | ⟨m, hfreq, -, hmax⟩
  · obtain ⟨k, hik, hkn, hodd⟩ := exists_oddStep hin
    exact absurd hodd (hnone k hik hkn)
  · exact ⟨m, hfreq, hmax⟩

theorem Lists.congr {ran ran' : ℕ → ℕ → Prop} {l : List Station} (h : Lists rssi ran l)
    (hran : ∀ i j, ran i j ↔ ran' i j) : Lists rssi ran' l := by
  obtain ⟨ms, hl, hlt, hmem⟩ := h
  exact ⟨ms, hl, hlt, fun m => by simp only [hmem, hran]⟩

/-- A run of two steps or more, after all the others, adds its station. -/
theorem Lists.push {ran : ℕ → ℕ → Prop} {l : List Station} (h : Lists rssi ran l)
    (hlong : i + 2 ≤ j) (hmax : FirstMax OddStep rssi i j m)
    (hbefore : ∀ i' j', ran i' j' → j' < i) :
    Lists rssi (fun i' j' => ran i' j' ∨ (i' = i ∧ j' = j)) (l ++ [station (scanStart10 + m)]) := by
  obtain ⟨ms, rfl, hlt, hmem⟩ := h
  refine ⟨ms ++ [m], by simp, ?_, fun k => ?_⟩
  · refine List.pairwise_append.2 ⟨hlt, List.pairwise_singleton _ _, fun a ha b hb => ?_⟩
    obtain ⟨i', j', hran, -, hmax'⟩ := (hmem a).1 ha
    rw [List.mem_singleton.1 hb]
    exact hmax'.lt.trans ((hbefore i' j' hran).trans_le hmax.ge)
  · rw [List.mem_append, hmem, List.mem_singleton]
    constructor
    · rintro (⟨i', j', hran, hlen, hmax'⟩ | rfl)
      · exact ⟨i', j', .inl hran, hlen, hmax'⟩
      · exact ⟨i, j, .inr ⟨rfl, rfl⟩, hlong, hmax⟩
    · rintro ⟨i', j', hran | ⟨rfl, rfl⟩, hlen, hmax'⟩
      · exact .inl ⟨i', j', hran, hlen, hmax'⟩
      · exact .inr (hmax'.unique hmax)

/-- A run of one step adds nothing. -/
theorem Lists.skip {ran : ℕ → ℕ → Prop} {l : List Station} (h : Lists rssi ran l)
    (hshort : ¬ i + 2 ≤ j) : Lists rssi (fun i' j' => ran i' j' ∨ (i' = i ∧ j' = j)) l := by
  obtain ⟨ms, hl, hlt, hmem⟩ := h
  refine ⟨ms, hl, hlt, fun k => ?_⟩
  rw [hmem]
  constructor
  · rintro ⟨i', j', hran, hlen, hmax⟩
    exact ⟨i', j', .inl hran, hlen, hmax⟩
  · rintro ⟨i', j', hran | ⟨rfl, rfl⟩, hlen, hmax⟩
    · exact ⟨i', j', hran, hlen, hmax⟩
    · exact absurd hlen hshort

/-- The flush adds the station of the run that has come as far as `n`. -/
theorem flushed_lists (hrun : RunTo (Above squelchThreshold rssi) i n)
    (hsteps : s.clusterSteps = n - i) (hbest : BestOf low rssi s i n)
    (hlist : Lists rssi (Ended (Above squelchThreshold rssi) n) s.foundStations) :
    Lists rssi (fun i j => Ended (Above squelchThreshold rssi) n i j ∨
      (RunTo (Above squelchThreshold rssi) i j ∧ j = n)) s.flushed := by
  have honly : ∀ i' j', Ended (Above squelchThreshold rssi) n i' j' ∨ (i' = i ∧ j' = n) ↔
      Ended (Above squelchThreshold rssi) n i' j' ∨
        (RunTo (Above squelchThreshold rssi) i' j' ∧ j' = n) := by
    refine fun i' j' => or_congr_right ?_
    constructor
    · rintro ⟨rfl, rfl⟩
      exact ⟨hrun, rfl⟩
    · rintro ⟨hrun', rfl⟩
      exact ⟨hrun'.start_unique hrun, rfl⟩
  by_cases hlong : i + 2 ≤ n
  · obtain ⟨m, hfreq, hmax⟩ := hbest.exists_firstMax hlong
    have hpush : s.clusterSteps ≥ 2 ∧ s.bestFreq > 0 :=
      ⟨by omega, by rw [hfreq]; unfold scanStart10; omega⟩
    rw [flushed, if_pos hpush, hfreq]
    exact (hlist.push hlong hmax fun i' j' hended => hended.lt_start hrun hended.lt_end).congr honly
  · have hpush : ¬ (s.clusterSteps ≥ 2 ∧ s.bestFreq > 0) := by omega
    rw [flushed, if_neg hpush]
    exact (hlist.skip hlong).congr honly

/-! ### One round -/

theorem BestOf.round (hlow : low < rssi n) (hin : i ≤ n) (habove : Above squelchThreshold rssi n)
    (h : BestOf low rssi s i n) :
    BestOf low rssi (s.round low squelchThreshold (scanStart10 + n) (rssi n)) i (n + 1) := by
  have hge : rssi n ≥ squelchThreshold := habove
  unfold Scan.round
  rw [if_pos hge]
  by_cases hodd : (scanStart10 + n) % 2 ≠ 0
  · by_cases hgt : rssi n > s.bestRssi
    · simp only [if_pos hodd, if_pos hgt]
      refine .inr ⟨n, rfl, rfl, FirstMax.next hin hodd fun k hik hkn hk => ?_⟩
      rcases h with ⟨-, -, hnone⟩ | ⟨m, -, hrssi, hmax⟩
      · exact absurd hk (hnone k hik hkn)
      · exact (hmax.max k hik hkn hk).trans_lt (hrssi ▸ hgt)
    · simp only [if_pos hodd, if_neg hgt]
      rcases h with ⟨-, hrssi, -⟩ | ⟨m, hfreq, hrssi, hmax⟩
      · exact absurd (hrssi ▸ hlow) hgt
      · exact .inr ⟨m, hfreq, hrssi, hmax.keep fun _ => hrssi ▸ not_lt.1 hgt⟩
  · simp only [if_neg hodd]
    rcases h with ⟨hfreq, hrssi, hnone⟩ | ⟨m, hfreq, hrssi, hmax⟩
    · refine .inl ⟨hfreq, hrssi, fun k hik hk => ?_⟩
      rcases Nat.lt_succ_iff_lt_or_eq.1 hk with hk | rfl
      · exact hnone k hik hk
      · exact hodd
    · exact .inr ⟨m, hfreq, hrssi, hmax.keep fun h => absurd h hodd⟩

theorem round_above (low : R) (s : Scan R) (habove : Above squelchThreshold rssi n) (f : ℕ) :
    (s.round low squelchThreshold f (rssi n)).inCluster = true ∧
    (s.round low squelchThreshold f (rssi n)).clusterSteps = s.clusterSteps + 1 ∧
    (s.round low squelchThreshold f (rssi n)).foundStations = s.foundStations := by
  have hge : rssi n ≥ squelchThreshold := habove
  unfold Scan.round
  rw [if_pos hge]
  dsimp only
  split_ifs <;> exact ⟨rfl, rfl, rfl⟩

/-- What the variables say after `n` rounds. -/
structure LoopInv (low squelchThreshold : R) (rssi : ℕ → R) (s : Scan R) (n : ℕ) : Prop where
  cluster : ClusterOf low squelchThreshold rssi s n
  found : Lists rssi (Ended (Above squelchThreshold rssi) n) s.foundStations

theorem round_loopInv (hlow : low < rssi n) (h : LoopInv low squelchThreshold rssi s n) :
    LoopInv low squelchThreshold rssi
      (s.round low squelchThreshold (scanStart10 + n) (rssi n)) (n + 1) := by
  obtain ⟨hcluster, hfound⟩ := h
  by_cases habove : Above squelchThreshold rssi n
  · obtain ⟨hin, hsteps, hlist⟩ := round_above low s habove (scanStart10 + n)
    constructor
    · rw [ClusterOf, if_pos hin]
      unfold ClusterOf at hcluster
      split_ifs at hcluster with hc
      · obtain ⟨i, hrun, hi, hbest⟩ := hcluster
        have := hrun.lt
        exact ⟨i, hrun.succ habove, by omega, hbest.round hlow hrun.lt.le habove⟩
      · obtain ⟨hi, hfreq, hrssi, hleft⟩ := hcluster
        have hbest : BestOf low rssi s n n := .inl ⟨hfreq, hrssi, fun k h h' => by omega⟩
        exact ⟨n, runTo_singleton habove hleft, by omega, hbest.round hlow le_rfl habove⟩
    · rw [hlist]
      refine hfound.congr fun i j => ?_
      rw [ended_succ_iff]
      simp [habove]
  · unfold ClusterOf at hcluster
    have hlt : ¬ rssi n ≥ squelchThreshold := habove
    unfold Scan.round
    rw [if_neg hlt]
    split_ifs at hcluster ⊢ with hc
    · obtain ⟨i, hrun, hi, hbest⟩ := hcluster
      refine ⟨by simp [ClusterOf, habove], (flushed_lists hrun hi hbest hfound).congr fun i j => ?_⟩
      rw [ended_succ_iff]
      simp [habove]
    · obtain ⟨hi, hfreq, hrssi, hleft⟩ := hcluster
      refine ⟨by simp [ClusterOf, hc, hi, hfreq, hrssi, habove], hfound.congr fun i j => ?_⟩
      rw [ended_succ_iff]
      constructor
      · exact .inl
      · rintro (h | ⟨hrun, rfl, -⟩)
        · exact h
        · exact absurd hrun (not_runTo hleft)

theorem init_loopInv (low squelchThreshold : R) (rssi : ℕ → R) :
    LoopInv low squelchThreshold rssi (init low) 0 := by
  refine ⟨by simp [ClusterOf, init], [], rfl, List.Pairwise.nil, fun m => ?_⟩
  simp only [List.not_mem_nil, false_iff]
  rintro ⟨i, j, h, -⟩
  exact absurd h.lt_end (Nat.not_lt_zero j)

theorem loop_loopInv (squelchThreshold : R) (hlow : ∀ k, low < rssi k) (n : ℕ) :
    LoopInv low squelchThreshold rssi (loop low squelchThreshold rssi n) n := by
  induction n with
  | zero => exact init_loopInv low squelchThreshold rssi
  | succ n ih =>
    rw [loop, List.range_succ, List.foldl_append, List.foldl_cons, List.foldl_nil]
    exact round_loopInv (hlow n) ih

theorem stations_lists (squelchThreshold : R) (hlow : ∀ k, low < rssi k) (n : ℕ) :
    Lists rssi (IsRun (Above squelchThreshold rssi) n) (stations low squelchThreshold rssi n) := by
  obtain ⟨hcluster, hfound⟩ := loop_loopInv squelchThreshold hlow n
  unfold ClusterOf at hcluster
  unfold stations
  dsimp only
  split_ifs at hcluster ⊢ with hc
  · obtain ⟨i, hrun, hi, hbest⟩ := hcluster
    exact (flushed_lists hrun hi hbest hfound).congr fun i j => isRun_iff.symm
  · refine hfound.congr fun i j => ?_
    rw [isRun_iff]
    constructor
    · exact .inl
    · rintro (h | ⟨hrun, rfl⟩)
      · exact h
      · exact absurd hrun (not_runTo hcluster.2.2.2)

end Loop

/-- The stations are, in increasing frequency, one for each maximal run of two steps or more at or
above the threshold: the first strongest of its odd steps. -/
theorem stations_of_runs (low squelchThreshold : R) (rssi : ℕ → R) (hlow : ∀ k, low < rssi k)
    (n : ℕ) :
    ∃ ms : List ℕ,
      stations low squelchThreshold rssi n = ms.map (fun m => station (scanStart10 + m)) ∧
      ms.Pairwise (· < ·) ∧
      (∀ m, m ∈ ms ↔ ∃ i j, IsRun (Above squelchThreshold rssi) n i j ∧ i + 2 ≤ j ∧
        FirstMax OddStep rssi i j m) ∧
      (∀ i j, IsRun (Above squelchThreshold rssi) n i j → i + 2 ≤ j →
        ∃! m, m ∈ ms ∧ i ≤ m ∧ m < j) ∧
      ∀ i, IsRun (Above squelchThreshold rssi) n i (i + 1) → i ∉ ms := by
  obtain ⟨ms, hl, hlt, hmem⟩ := stations_lists squelchThreshold hlow n
  refine ⟨ms, hl, hlt, hmem, fun i j hrun hlong => ?_, fun i hrun hi => ?_⟩
  · obtain ⟨m, hm⟩ := exists_firstMax (f := rssi) (exists_oddStep hlong)
    refine ⟨m, ⟨(hmem m).2 ⟨i, j, hrun, hlong, hm⟩, hm.ge, hm.lt⟩, ?_⟩
    rintro m' ⟨hm', him', hmj'⟩
    obtain ⟨i', j', hrun', -, hmax'⟩ := (hmem m').1 hm'
    obtain ⟨rfl, rfl⟩ := hrun.unique hrun' him' hmj' hmax'.ge hmax'.lt
    exact hmax'.unique hm
  · obtain ⟨i', j', hrun', hlong, hmax⟩ := (hmem i).1 hi
    obtain ⟨rfl, rfl⟩ := hrun.unique hrun' le_rfl (Nat.lt_succ_self i) hmax.ge hmax.lt
    omega

/-- Readings below the threshold at 88.2 and 88.6 MHz only: one run of a single step, one of three
steps and one up to the end of the band. -/
theorem stations_of_runs_three_runs :
    let rssi : ℕ → ℕ := fun k => if k = 1 ∨ k = 5 then 1 else if k = 2 then 9 else 8
    stations 0 5 rssi bandSteps = [⟨883, "FM 88.30"⟩, ⟨887, "FM 88.70"⟩] ∧
    ∃ ms : List ℕ, stations 0 5 rssi bandSteps = ms.map (fun m => station (scanStart10 + m)) ∧
      ms.Pairwise (· < ·) := by
  intro rssi
  have hlow : ∀ k, 0 < rssi k := by
    intro k
    dsimp only [rssi]
    split_ifs <;> decide
  obtain ⟨ms, hl, hlt, -⟩ := stations_of_runs 0 5 rssi hlow bandSteps
  exact ⟨by decide +kernel, ms, hl, hlt⟩

end Scan

end Relay

end AetherGuard

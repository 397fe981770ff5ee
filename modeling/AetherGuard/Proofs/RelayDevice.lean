import AetherGuard.RelayDevice

/-!
# What the receiver is told

Every program of the relay updates each group it changes (`Closed`), so whatever the interleaving of
the control server with any number of scans, the driver was told of every change or is about to be.
Without a scan the control server is alone on the parameters, and the driver is told what its
commands ask for, one after the other.
-/

namespace AetherGuard

namespace Relay

open Shadow Machine

variable {F : Type*} {H : Type} {b : Band F H}

theorem tuneFrequency_closed (hz : H) : Closed (tuneFrequency hz) :=
  ⟨⟨_, .head _, .head _⟩, trivial⟩

theorem setBandwidth_closed (bw : Bw) : Closed (setBandwidth H bw) := by
  simp [setBandwidth, Closed, Op.Writes]

theorem getValidatedPower_closed (timeout : Bool) : Closed (getValidatedPower H timeout) := by
  cases timeout <;> exact trivial

theorem gain_closed (lna : UInt8) (agc : Agc) : Closed (V := Val H)
    [.modify .gr fun _ => lna, .modify .agc fun _ => agc, .update [.agc, .gr]] := by
  simp [Closed, Op.Writes]

theorem program_closed (l : CtrlLine F) : Closed (l.program b) := by
  cases l with
  | tune freq => exact tuneFrequency_closed _
  | configure freq bw ifMode agc lna =>
    exact ((setBandwidth_closed _).append (gain_closed _ _)).append (tuneFrequency_closed _)
  | _ => trivial

theorem sweep_closed (timeout : ℕ → Bool) : Closed (sweep b timeout) := by
  have hgain : Closed (V := Val H)
      [.modify .agc fun _ => .disable, .modify .gr fun _ => 8, .update [.agc, .gr]] := by
    simp [Closed, Op.Writes]
  exact ((((setBandwidth_closed _).append hgain).append (tuneFrequency_closed _)).append
    (getValidatedPower_closed _)).append
      (Closed.flatMap (fun _ => (tuneFrequency_closed _).append (getValidatedPower_closed _)) _)

/-! ## The decimation -/

/-- The decimation is on, with the relay's factor. -/
def Decimated : ∀ g, Val H g → Prop
  | .decimation, d => d = ⟨1, decimationFactor, 0⟩
  | _, _ => True

theorem modify_keeps {g : Group} (hg : g ≠ .decimation) (f : Val H g → Val H g) :
    (Op.modify g f).Keeps Decimated := by
  intro x _
  cases g <;> trivial

/-- Three operations that leave the decimation alone. -/
theorem gain_keeps {g g' : Group} (hg : g ≠ .decimation) (hg' : g' ≠ .decimation)
    (f : Val H g → Val H g) (f' : Val H g' → Val H g') (gs : List Group) :
    ∀ o ∈ [.modify g f, .modify g' f', .update gs], Op.Keeps Decimated o := by
  intro o ho
  simp only [List.mem_cons, List.not_mem_nil, or_false] at ho
  rcases ho with rfl | rfl | rfl
  · exact modify_keeps hg f
  · exact modify_keeps hg' f'
  · trivial

theorem setBandwidth_keeps (bw : Bw) : ∀ o ∈ setBandwidth H bw, o.Keeps Decimated := by
  simp +contextual [setBandwidth, Op.Keeps, Decimated]

theorem tuneFrequency_keeps (hz : H) : ∀ o ∈ tuneFrequency hz, o.Keeps Decimated := by
  simp [tuneFrequency, Op.Keeps, Decimated]

theorem getValidatedPower_keeps (timeout : Bool) :
    ∀ o ∈ getValidatedPower H timeout, o.Keeps Decimated := by
  cases timeout <;> simp [getValidatedPower, Op.Keeps]

theorem program_keeps (l : CtrlLine F) : ∀ o ∈ l.program b, o.Keeps Decimated := by
  cases l with
  | tune freq => exact tuneFrequency_keeps _
  | configure freq bw ifMode agc lna =>
    intro o ho
    rcases List.mem_append.1 ho with ho | ho
    · rcases List.mem_append.1 ho with ho | ho
      · exact setBandwidth_keeps _ o ho
      · exact gain_keeps (by decide) (by decide) _ _ _ o ho
    · exact tuneFrequency_keeps _ o ho
  | _ => simp [CtrlLine.program]

theorem sweep_keeps (timeout : ℕ → Bool) : ∀ o ∈ sweep b timeout, o.Keeps Decimated := by
  intro o ho
  simp only [sweep, List.mem_append, List.mem_flatMap] at ho
  rcases ho with (((ho | ho) | ho) | ho) | ⟨_, -, ho | ho⟩
  · exact setBandwidth_keeps _ o ho
  · exact gain_keeps (by decide) (by decide) _ _ _ o ho
  · exact tuneFrequency_keeps _ o ho
  · exact getValidatedPower_keeps _ o ho
  · exact tuneFrequency_keeps _ o ho
  · exact getValidatedPower_keeps _ o ho

namespace Device

variable {s : Device H}

structure Ok (s : Device H) : Prop where
  inv : s.Inv
  decimated : s.Keeps Decimated

theorem init_ok : Ok (init b) := by
  refine ⟨⟨?_, fun _ => .inl rfl⟩, ⟨?_, ?_, ?_⟩⟩
  · simp [init, Closed]
  · intro g
    cases g <;> trivial
  · intro g
    cases g <;> trivial
  · simp [init]

theorem line_cases (s : Device H) (l : CtrlLine F) (timeout : ℕ → Bool) :
    (∃ scans, s.threads = [] :: scans ∧ line b s l timeout
      = { s with threads := l.program b :: scans ++ scanThreads b timeout l })
    ∨ line b s l timeout = s := by
  unfold line
  split
  · exact .inl ⟨_, ‹_›, rfl⟩
  · exact .inr rfl

theorem scanThreads_mem {l : CtrlLine F} {timeout : ℕ → Bool} {p : List (Op (Val H))}
    (h : p ∈ scanThreads b timeout l) : p = sweep b timeout := by
  cases l <;> simp_all [scanThreads]

theorem line_ok (h : Ok s) (l : CtrlLine F) (timeout : ℕ → Bool) : Ok (line b s l timeout) := by
  obtain ⟨scans, hidle, heq⟩ | heq := line_cases (b := b) s l timeout <;> rw [heq]
  · have hmem : ∀ p ∈ (l.program b :: scans ++ scanThreads b timeout l),
        p = l.program b ∨ p ∈ s.threads ∨ p = sweep b timeout := by
      intro p hp
      rcases List.mem_append.1 hp with hp | hp
      · rcases List.mem_cons.1 hp with rfl | hp
        · exact .inl rfl
        · exact .inr (.inl (hidle ▸ List.mem_cons_of_mem _ hp))
      · exact .inr (.inr (scanThreads_mem hp))
    refine ⟨⟨fun p hp => ?_, fun g => ?_⟩, ⟨h.decimated.shadow, h.decimated.told, fun p hp => ?_⟩⟩
    · rcases hmem p hp with rfl | hold | rfl
      · exact program_closed l
      · exact h.inv.closed p hold
      · exact sweep_closed timeout
    · -- the control server was idle, so what is to come is in the scans
      refine (h.inv.settles g).imp id fun ⟨p, hp, o, ho, hw⟩ => ?_
      rw [hidle] at hp
      rcases List.mem_cons.1 hp with rfl | hp
      · simp at ho
      · exact ⟨p, List.mem_append_left _ (List.mem_cons_of_mem _ hp), o, ho, hw⟩
    · rcases hmem p hp with rfl | hold | rfl
      · exact program_keeps l
      · exact h.decimated.threads p hold
      · exact sweep_keeps timeout
  · exact h

theorem step_ok (s : Device H) (a : Act F) (h : Ok s) : Ok (step b s a) := by
  cases a with
  | line l timeout => exact line_ok h l timeout
  | op i => exact ⟨Shadow.State.step_inv h.inv i, Shadow.State.step_keeps h.decimated i⟩

theorem run_ok (as : List (Act F)) : Ok (run (step b) (init b) as) :=
  Machine.run_inv step_ok as _ init_ok

/-! ## Commands without a scan -/

theorem result_program (r : ∀ g, Val H g) (l : CtrlLine F) :
    result r (l.program b) = l.config b r := by
  cases l with
  | tune freq => rfl
  | configure freq bw ifMode agc lna =>
    funext g
    cases g <;> rfl
  | _ => rfl

/-- Only the control server has something to do, and once it is done the parameters are `r`. -/
def Alone (s : Device H) (r : ∀ g, Val H g) : Prop :=
  ∃ p scans, s.threads = p :: scans ∧ (∀ q ∈ scans, q = []) ∧ result s.regs.shadow p = r

theorem Alone.op {r : ∀ g, Val H g} (h : Alone s r) (i : ℕ) : Alone (Shadow.State.step s i) r := by
  obtain ⟨p, scans, hs, hscans, hr⟩ := h
  obtain heq | ⟨o, rest, hi, heq⟩ := Shadow.State.step_cases s i <;> rw [heq]
  · exact ⟨p, scans, hs, hscans, hr⟩
  · rw [hs] at hi
    rcases i with _ | i
    · obtain rfl : p = o :: rest := Option.some.inj hi
      exact ⟨rest, scans, by rw [hs]; rfl, hscans, by rw [← hr, result_cons]⟩
    · have := hscans _ (List.mem_of_getElem? hi)
      simp at this

theorem Alone.line {r : ∀ g, Val H g} (h : Alone s r) {l : CtrlLine F} {timeout : ℕ → Bool}
    (hl : (Act.line l timeout).isScan = false) :
    Alone (line b s l timeout)
      ((taken s (Act.line l timeout)).foldl (fun r l => CtrlLine.config b r l) r) := by
  obtain ⟨p, scans, hs, hscans, hr⟩ := h
  have hthreads : scanThreads b timeout l = [] := by
    cases l <;> simp_all [scanThreads, Act.isScan]
  rcases p with _ | ⟨o, p⟩
  · refine ⟨l.program b, scans, ?_, hscans, ?_⟩
    · simp [Device.line, hs, hthreads]
    · have hline : (Device.line b s l timeout).regs = s.regs := by simp [Device.line, hs]
      have htaken : taken s (Act.line l timeout) = [l] := by simp [taken, hs]
      rw [hline, htaken, result_program, List.foldl_cons, List.foldl_nil, ← hr]
      rfl
  · have hline : Device.line b s l timeout = s := by simp [Device.line, hs]
    have htaken : taken s (Act.line l timeout) = [] := by simp [taken, hs]
    rw [hline, htaken]
    exact ⟨o :: p, scans, hs, hscans, hr⟩

theorem Alone.run : ∀ (bs : List (Act F)) {s : Device H} {r : ∀ g, Val H g}, Alone s r →
    (∀ a ∈ bs, a.isScan = false) →
    Alone (Machine.run (step b) s bs)
      ((accepted b s bs).foldl (fun r l => CtrlLine.config b r l) r)
  | [], _, _, h, _ => h
  | a :: bs, s, r, h, hbs => by
    have hrest : ∀ a ∈ bs, a.isScan = false := fun a ha => hbs a (List.mem_cons_of_mem _ ha)
    rw [accepted, List.foldl_append]
    cases a with
    | line l timeout => exact Alone.run bs (h.line (hbs _ List.mem_cons_self)) hrest
    | op i => exact Alone.run bs (h.op i) hrest

end Device

open Device

/-- Whatever lines arrive and however the control server and any number of scans interleave, field
by field: a group of parameters that is not as the driver was last told has an update to come, so
once all are done the driver was told every parameter as it stands; and at no moment was it last
told another decimation than the one the daemon's filters and resampler count on. -/
theorem relay_parameters_handed_over (b : Band F H) (as : List (Device.Act F)) :
    let s := run (Device.step b) (init b) as
    (∀ g, s.regs.told g = s.regs.shadow g ∨ s.Pending g)
      ∧ (s.Done → s.regs.told = s.regs.shadow)
      ∧ s.regs.told .decimation = ⟨1, decimationFactor, 0⟩ := by
  intro s
  have hok := run_ok (b := b) as
  exact ⟨hok.inv.settles, hok.inv.told_eq, hok.decimated.told .decimation⟩

end Relay

end AetherGuard

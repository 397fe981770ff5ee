import AetherGuard.MockSdr
import AetherGuard.Lib.Threads

/-!
# How many tone streams there are

A thread that has seen the flag go down is the only one that exits by itself. A restart that comes
before the thread's next test raises the flag for the old thread too, and then there are two of
them. A thread whose connection fails leaves the flag up with no thread behind it, and the next
`LIVE_LISTEN` starts nothing. Nothing else goes wrong: as long as a stream is started only when
every earlier thread has exited, and connections fail only under a lowered flag, there is one
thread at most, and one while the flag is up.
-/

namespace AetherGuard

namespace MockSdr

open Machine

variable {s : State} {i : ℕ} {connected : Bool} {pc : Pc}

/-! ### What will publish -/

/-- The thread takes steps, with its connection successful, while nothing else happens. -/
abbrev alone (i n : ℕ) : List Action := List.replicate n (.thread i true)

theorem step_thread (h : s.threads[i]? = some pc) :
    step s (.thread i connected) =
      { s with
        threads := s.threads.set i (nextPc s.gMockLiveActive connected pc)
        published := if pc = .publish then i :: s.published else s.published } := by
  simp [step, mockLiveStreamThread, h]

theorem getElem?_step_thread (h : s.threads[i]? = some pc) (connected : Bool) :
    (step s (.thread i connected)).threads[i]? = some (nextPc s.gMockLiveActive connected pc) := by
  have hlt := (List.getElem?_eq_some_iff.1 h).1
  simp [step_thread h, hlt]

theorem exists_published (hp : s.threads[i]? = some pc) (hw : willPublish s pc = true) :
    ∃ n, (run step s (alone i n)).published = i :: s.published := by
  have hone : ∀ t : State, t.threads[i]? = some .publish →
      (step t (.thread i true)).published = i :: t.published := by
    intro t ht
    simp [step_thread ht]
  have htwo : ∀ t : State, t.threads[i]? = some .test → t.gMockLiveActive = true →
      (run step t (alone i 2)).published = i :: t.published := by
    intro t ht ha
    have hnext := getElem?_step_thread ht true
    rw [ha] at hnext
    have hpub := hone _ hnext
    rw [step_thread ht] at hpub
    simpa [run, alone, List.replicate, step_thread ht] using hpub
  have hthree : ∀ q : Pc, s.threads[i]? = some q → q ≠ .publish → s.gMockLiveActive = true →
      nextPc true true q = .test → (run step s (alone i 3)).published = i :: s.published := by
    intro q hq hne ha hq'
    have hnext := getElem?_step_thread hq true
    rw [ha, hq'] at hnext
    have hpub := htwo (step s (.thread i true)) hnext (by simp [step_thread hq, ha])
    have hsame : (step s (.thread i true)).published = s.published := by simp [step_thread hq, hne]
    rw [hsame] at hpub
    exact hpub
  cases pc with
  | connect => exact ⟨3, hthree _ hp (by decide) hw rfl⟩
  | test => exact ⟨2, htwo s hp hw⟩
  | publish => exact ⟨1, hone s hp⟩
  | sleep => exact ⟨3, hthree _ hp (by decide) hw rfl⟩
  | exited => simp [willPublish] at hw

theorem published_of_not_willPublish (n : ℕ) : ∀ (s : State) (pc : Pc), s.threads[i]? = some pc →
    willPublish s pc = false → (run step s (alone i n)).published = s.published := by
  induction n with
  | zero => intros; rfl
  | succ n ih =>
    intro s pc hp hw
    have hne : pc ≠ .publish := by
      rintro rfl
      simp [willPublish] at hw
    have hnext : willPublish (step s (.thread i true)) (nextPc s.gMockLiveActive true pc)
        = false := by
      rw [step_thread hp]
      cases pc <;> simp_all [willPublish, nextPc]
    have hrest := ih (step s (.thread i true)) _ (getElem?_step_thread hp true) hnext
    have hsame : (step s (.thread i true)).published = s.published := by simp [step_thread hp, hne]
    rw [hsame] at hrest
    exact hrest

/-- What `willPublish` says of a thread is what the thread does when it goes on alone. -/
theorem willPublish_iff (hp : s.threads[i]? = some pc) :
    willPublish s pc = true ↔ ∃ n, (run step s (alone i n)).published ≠ s.published := by
  constructor
  · intro hw
    obtain ⟨n, hn⟩ := exists_published hp hw
    exact ⟨n, by simp [hn]⟩
  · rintro ⟨n, hn⟩
    by_contra hw
    exact hn (published_of_not_willPublish n s pc hp (by simpa using hw))

/-! ### The threads that have not exited -/

def alive (pc : Pc) : Bool := pc ≠ .exited

def live (s : State) : ℕ := s.threads.countP alive

/-- A stream is started after every earlier thread has exited, and a connection only fails under a
lowered flag. -/
def Settled (s : State) : Action → Prop
  | .command .liveListen => s.gMockLiveActive = true ∨ live s = 0
  | .command _ => True
  | .thread i connected =>
    s.threads[i]? = some .connect → connected = false → s.gMockLiveActive = false

instance (s : State) (a : Action) : Decidable (Settled s a) := by
  unfold Settled
  split <;> infer_instance

def Inv (s : State) : Prop := live s ≤ 1 ∧ (s.gMockLiveActive = true → 0 < live s)

theorem streams_le_live (s : State) : streams s ≤ live s := by
  refine List.countP_mono_left fun pc _ hw => ?_
  cases pc <;> simp_all [willPublish, alive]

theorem streams_eq_live (h : s.gMockLiveActive = true) : streams s = live s := by
  refine List.countP_congr fun pc _ => ?_
  cases pc <;> simp [willPublish, alive, h]

theorem Inv.oneTone (h : Inv s) : OneTone s := by
  refine ⟨(streams_le_live s).trans h.1, fun ha => ?_⟩
  rw [streams_eq_live ha]
  exact h.2 ha

theorem live_thread (h : s.threads[i]? = some pc) (connected : Bool) :
    live (step s (.thread i connected)) + (alive pc).toNat =
      live s + (alive (nextPc s.gMockLiveActive connected pc)).toNat := by
  rw [step_thread h]
  exact Threads.countP_set_add h _

theorem live_start (h : s.gMockLiveActive = false) :
    live (step s (.command .liveListen)) = live s + 1 := by
  simp [step, mockCommandListener, h, live, alive]

/-- A thread's step only lowers the number of live threads where it exits: at a test that finds the
flag down, or at a connection that fails. -/
theorem live_thread_cases (h : s.threads[i]? = some pc) (connected : Bool) :
    live (step s (.thread i connected)) = live s ∨
      live (step s (.thread i connected)) + 1 = live s ∧
        (pc = .test ∧ s.gMockLiveActive = false ∨ pc = .connect ∧ connected = false) := by
  have hcount := live_thread h connected
  cases pc with
  | connect =>
    cases connected with
    | false => exact .inr ⟨by simpa [alive, nextPc] using hcount, .inr ⟨rfl, rfl⟩⟩
    | true => exact .inl (by simpa [alive, nextPc] using hcount)
  | test =>
    cases ha : s.gMockLiveActive with
    | false => exact .inr ⟨by simpa [alive, nextPc, ha] using hcount, .inl ⟨rfl, rfl⟩⟩
    | true => exact .inl (by simpa [alive, nextPc, ha] using hcount)
  | publish => exact .inl (by simpa [alive, nextPc] using hcount)
  | sleep => exact .inl (by simpa [alive, nextPc] using hcount)
  | exited => exact .inl (by simpa [alive, nextPc] using hcount)

theorem thread_inv (hs : Inv s) (hg : Settled s (.thread i connected)) :
    Inv (step s (.thread i connected)) := by
  cases hp : s.threads[i]? with
  | none => simpa [step, mockLiveStreamThread, hp] using hs
  | some pc =>
    have hflag : (step s (.thread i connected)).gMockLiveActive = s.gMockLiveActive := by
      rw [step_thread hp]
    have hle := hs.1
    rcases live_thread_cases hp connected with heq | ⟨hlt, hwhy⟩
    · exact ⟨by omega, fun ha => heq ▸ hs.2 (hflag ▸ ha)⟩
    · have hdown : s.gMockLiveActive = false := by
        rcases hwhy with ⟨-, hd⟩ | ⟨rfl, hc⟩
        · exact hd
        · exact hg hp hc
      refine ⟨by omega, fun ha => ?_⟩
      rw [hflag, hdown] at ha
      cases ha

theorem liveListen_inv (hs : Inv s) (hg : Settled s (.command .liveListen)) :
    Inv (step s (.command .liveListen)) := by
  cases ha : s.gMockLiveActive with
  | true => simpa [step, mockCommandListener, ha] using hs
  | false =>
    have hnone : live s = 0 := hg.resolve_left (by simp [ha])
    have hone := live_start ha
    exact ⟨by omega, fun _ => by omega⟩

theorem step_inv (s : State) (a : Action) (hg : Settled s a) (hs : Inv s) : Inv (step s a) := by
  cases a with
  | thread i connected => exact thread_inv hs hg
  | command c =>
    cases c with
    | liveListen => exact liveListen_inv hs hg
    | stopLive => exact ⟨hs.1, by simp [step, mockCommandListener]⟩
    | tune => exact hs
    | scan => exact hs
    | record => exact hs
    | other => exact hs

/-- A start while an old thread is alive makes two streams, and a failed connection under the raised
flag leaves none. -/
theorem not_oneTone_of_not_settled (s : State) (a : Action) (hs : Inv s) (hg : ¬ Settled s a) :
    ¬ OneTone (step s a) := by
  cases a with
  | command c =>
    cases c with
    | liveListen =>
      simp only [Settled, not_or, Bool.not_eq_true] at hg
      have hup : (step s (.command .liveListen)).gMockLiveActive = true := by
        simp [step, mockCommandListener, hg.1]
      have htwo := live_start hg.1
      rw [← streams_eq_live hup] at htwo
      intro h
      have := h.1
      omega
    | stopLive => exact absurd trivial hg
    | tune => exact absurd trivial hg
    | scan => exact absurd trivial hg
    | record => exact absurd trivial hg
    | other => exact absurd trivial hg
  | thread i connected =>
    simp only [Settled, Classical.not_imp, Bool.not_eq_false] at hg
    obtain ⟨hp, rfl, ha⟩ := hg
    have hup : (step s (.thread i false)).gMockLiveActive = true := by rw [step_thread hp, ha]
    have hgone := live_thread hp false
    simp only [alive, nextPc, ne_eq, reduceCtorEq, not_false_eq_true, decide_true, Bool.toNat_true,
      Bool.false_eq_true, if_false, not_true_eq_false, decide_false, Bool.toNat_false] at hgone
    intro h
    have hpos := h.2 hup
    rw [streams_eq_live hup] at hpos
    have hle := hs.1
    omega

/-- There is one tone stream at most, and one while the flag is up, all along a run exactly when the
run starts a stream only after every earlier thread has exited, and connections fail only under a
lowered flag. -/
theorem oneTone_iff_settled (as : List Action) :
    (∀ bs, bs <+: as → OneTone (run step init bs)) ↔ Meets step Settled init as :=
  forall_prefix_iff_meets (I := Inv) (P := OneTone) (G := Settled) step_inv (fun _ => Inv.oneTone)
    not_oneTone_of_not_settled as init ⟨by decide, by decide⟩

/-- A stop and a restart while the first thread sleeps leave two streams; a connection that fails
leaves the flag up and no stream. -/
theorem restart_makes_two_streams :
    streams (run step init [.command .liveListen, .thread 0 true, .thread 0 true, .thread 0 true,
      .command .stopLive, .command .liveListen]) = 2 ∧
    (run step init [.command .liveListen, .thread 0 false]).gMockLiveActive = true ∧
    streams (run step init [.command .liveListen, .thread 0 false]) = 0 := by
  decide

end MockSdr

end AetherGuard

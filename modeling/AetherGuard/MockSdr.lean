import AetherGuard.Control

/-!
# The daemon without hardware

In mock mode `mockCommandListener` takes the place of the command listener. `LIVE_LISTEN` raises
`g_mock_live_active` and starts a detached `mockLiveStreamThread`, unless the flag is up already;
`STOP_LIVE` only lowers the flag. The thread connects to Redis, and then, as long as it finds the
flag up, publishes a chunk of the tone and sleeps. One action is one command handled as a whole, or
one step of one thread; whether the thread's connection succeeds is the action's choice.
-/

namespace AetherGuard

namespace MockSdr

/-- What a `mockLiveStreamThread` does next. -/
inductive Pc
  | connect
  | test
  | publish
  | sleep
  | exited
  deriving DecidableEq

structure State where
  gMockLiveActive : Bool
  /-- The threads in the order they were started. -/
  threads : List Pc
  /-- The threads that published to `live_audio`, newest first. -/
  published : List ℕ

def init : State := ⟨false, [], []⟩

/-- The branches of `mockCommandListener`; only two of them touch the tone. -/
def mockCommandListener (s : State) : Daemon.CommandName → State
  | .liveListen =>
    if s.gMockLiveActive then s
    else { s with gMockLiveActive := true, threads := s.threads ++ [.connect] }
  | .stopLive => { s with gMockLiveActive := false }
  | .tune | .scan | .record | .other => s

/-- Where a thread that is at `pc` is after its next step. -/
def nextPc (gMockLiveActive connected : Bool) : Pc → Pc
  -- a failed connection returns and leaves the flag as it is
  | .connect => if connected then .test else .exited
  | .test => if gMockLiveActive then .publish else .exited
  | .publish => .sleep
  | .sleep => .test
  | .exited => .exited

def mockLiveStreamThread (s : State) (i : ℕ) (connected : Bool) : State :=
  match s.threads[i]? with
  | none => s
  | some pc =>
    { s with
      threads := s.threads.set i (nextPc s.gMockLiveActive connected pc)
      published := if pc = .publish then i :: s.published else s.published }

inductive Action
  | command (c : Daemon.CommandName)
  | thread (i : ℕ) (connected : Bool)

def step (s : State) : Action → State
  | .command c => mockCommandListener s c
  | .thread i connected => mockLiveStreamThread s i connected

/-- A thread at `pc` is going to publish, as things stand: the flag as it is now, and its connection
successful. -/
def willPublish (s : State) : Pc → Bool
  | .publish => true
  | .connect | .test | .sleep => s.gMockLiveActive
  | .exited => false

/-- The number of tone streams. -/
def streams (s : State) : ℕ := s.threads.countP (willPublish s)

/-- At most one tone stream, and one while the flag is up. -/
def OneTone (s : State) : Prop := streams s ≤ 1 ∧ (s.gMockLiveActive = true → 0 < streams s)

instance (s : State) : Decidable (OneTone s) := inferInstanceAs (Decidable (_ ∧ _))

end MockSdr

end AetherGuard

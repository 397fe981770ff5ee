import AetherGuard.Proofs.LiveAudio
import AetherGuard.Proofs.PcmRound

/-!
# What a page plays

A context plays a stretch of the chunks published, one after the other. Where the stretch starts is
settled when the API opens the connection, and never changes (`Later`); so as long as a connection
stays open the page misses nothing.
-/

namespace AetherGuard

open Daemon Machine

namespace LiveAudio

variable {T : Type*} {e : Endian}

/-- The `k`-th session of page `i`. -/
def sessionAt (s : LiveAudio T) (i k : ℕ) : Option (Session T) :=
  s.pages[i]?.bind (·.sessions[k]?)

/-- How far the listener is. -/
def Listener.rank : Listener → ℕ
  | .subscribing => 0
  | .listening => 1
  | .ended => 2

/-- A session stays in its place, and is opened once. -/
def Session.Later (sess sess' : Session T) : Prop :=
  sess.member ≠ .connecting → sess'.member ≠ .connecting ∧ sess'.since = sess.since

def Page.Later (p p' : Page T) : Prop :=
  ∀ (k : ℕ) (sess : Session T), p.sessions[k]? = some sess →
    ∃ sess', p'.sessions[k]? = some sess' ∧ sess.Later sess'

structure Later (s s' : LiveAudio T) : Prop where
  published : s.published <+: s'.published
  rank : s.listener.rank ≤ s'.listener.rank
  /-- A listener that is subscribed all along gets all that is published. -/
  carried : s.listener = .listening → s'.listener = .listening →
    s'.published.length + (s.broadcast.length + s.liveAudio.length)
      = s.published.length + (s'.broadcast.length + s'.liveAudio.length)
  pages : ∀ (i : ℕ) (p : Page T), s.pages[i]? = some p →
    ∃ p', s'.pages[i]? = some p' ∧ p.Later p'

theorem Session.Later.refl (sess : Session T) : sess.Later sess := fun h => ⟨h, rfl⟩

theorem Session.Later.trans {a b c : Session T} (hab : a.Later b) (hbc : b.Later c) :
    a.Later c := by
  intro h
  obtain ⟨hb, heq⟩ := hab h
  obtain ⟨hc, heq'⟩ := hbc hb
  exact ⟨hc, heq'.trans heq⟩

theorem Page.Later.refl (p : Page T) : p.Later p := fun _ sess hk => ⟨sess, hk, .refl sess⟩

theorem Page.Later.trans {p q r : Page T} (hpq : p.Later q) (hqr : q.Later r) : p.Later r := by
  intro k sess hk
  obtain ⟨sess₁, hk₁, h₁⟩ := hpq k sess hk
  obtain ⟨sess₂, hk₂, h₂⟩ := hqr k sess₁ hk₁
  exact ⟨sess₂, hk₂, h₁.trans h₂⟩

theorem Page.later_modify (p : Page T) (k : ℕ) {f : Session T → Session T}
    (hf : ∀ sess : Session T, sess.Later (f sess)) : p.Later (p.modify k f) := by
  intro j sess hj
  refine ⟨if k = j then f sess else sess, ?_, ?_⟩
  · simp [Page.modify, List.getElem?_modify, hj]
  · split_ifs
    · exact hf sess
    · exact .refl sess

theorem Page.later_closeSocket (p : Page T) : p.Later p.closeSocket := by
  unfold Page.closeSocket
  split
  · exact .refl p
  · exact p.later_modify _ fun _ h => ⟨h, rfl⟩

theorem Page.later_closeContext (p : Page T) : p.Later p.closeContext := by
  unfold Page.closeContext
  split
  · exact .refl p
  · exact p.later_modify _ fun _ h => ⟨h, rfl⟩

theorem Page.later_cleanup (p : Page T) : p.Later p.cleanup :=
  p.later_closeSocket.trans (Page.later_closeContext _)

theorem Later.refl (s : LiveAudio T) : s.Later s :=
  ⟨List.prefix_rfl, le_rfl, fun _ _ => rfl, fun _ p hp => ⟨p, hp, .refl p⟩⟩

theorem Later.trans {s s' s'' : LiveAudio T} (h : s.Later s') (h' : s'.Later s'') :
    s.Later s'' := by
  refine ⟨h.published.trans h'.published, h.rank.trans h'.rank, fun hl hl'' => ?_, ?_⟩
  · -- in between the listener was neither subscribing nor at its end
    have hl' : s'.listener = .listening := by
      have hlo := h.rank
      have hhi := h'.rank
      rw [hl] at hlo
      rw [hl''] at hhi
      rcases hmid : s'.listener with _ | _ | _
      · simp [hmid, Listener.rank] at hlo
      · rfl
      · simp [hmid, Listener.rank] at hhi
    have := h.carried hl hl'
    have := h'.carried hl' hl''
    omega
  · intro i p hp
    obtain ⟨p₁, hp₁, h₁⟩ := h.pages i p hp
    obtain ⟨p₂, hp₂, h₂⟩ := h'.pages i p₁ hp₁
    exact ⟨p₂, hp₂, h₁.trans h₂⟩

theorem later_modifyPage (s : LiveAudio T) (i : ℕ) {f : Page T → Page T}
    (hf : ∀ p : Page T, p.Later (f p)) : s.Later (s.modifyPage i f) := by
  refine ⟨List.prefix_rfl, le_rfl, fun _ _ => rfl, fun j p hj => ?_⟩
  refine ⟨if i = j then f p else p, ?_, ?_⟩
  · simp [modifyPage, List.getElem?_modify, hj]
  · split_ifs
    · exact hf p
    · exact .refl p

namespace Page

theorem later_send (p : Page T) (data : List UInt8) : p.Later (p.send data) := by
  intro k sess hk
  refine ⟨if sess.member = .inserted then { sess with inbox := sess.inbox ++ [data] } else sess,
    by simp [send, hk], ?_⟩
  split_ifs
  · exact fun h => ⟨h, rfl⟩
  · exact .refl sess

theorem later_onopen (p : Page T) (k sent : ℕ) : p.Later (p.onopen k sent) := by
  refine p.later_modify k fun sess => ?_
  split_ifs with hm
  · exact fun h => absurd hm h
  · exact .refl sess

theorem later_onclose (p : Page T) (k n : ℕ) : p.Later (p.onclose k n) := by
  refine p.later_modify k fun sess => ?_
  split_ifs
  · exact fun _ => ⟨by simp, rfl⟩
  · exact .refl sess

theorem later_unmount (p : Page T) : p.Later p.unmount := by
  unfold unmount
  split_ifs
  · exact p.later_cleanup
  · exact .refl p

end Page

theorem later_outputThread (s : LiveAudio T) (ok : Bool) : s.Later (s.outputThread e ok) := by
  obtain ⟨idx, -, heq⟩ | heq := s.outputThread_cases (e := e) ok <;> rw [heq]
  · refine ⟨List.prefix_append _ _, le_rfl, fun hl _ => ?_, fun _ p hp => ⟨p, hp, .refl p⟩⟩
    simp only [publish, hl, if_true, List.length_append, List.length_singleton]
    omega
  · exact ⟨List.prefix_rfl, le_rfl, fun _ _ => rfl, fun _ p hp => ⟨p, hp, .refl p⟩⟩

theorem later_redisListenerThread (s : LiveAudio T) : s.Later s.redisListenerThread := by
  obtain ⟨data, rest, -, hq, heq⟩ | heq := s.redisListenerThread_cases <;> rw [heq]
  · refine ⟨List.prefix_rfl, le_rfl, fun _ _ => ?_, fun i p hp => ?_⟩
    · simp only [hq, List.length_append, List.length_cons, List.length_nil]
      omega
    · exact ⟨p.send data, by simp [hp], p.later_send data⟩
  · exact .refl s

namespace Page

variable [Zero T]

theorem later_effect (p : Page T) (listening : Bool) : p.Later (p.effect listening) := by
  unfold effect
  split_ifs
  · intro k sess hk
    refine ⟨sess, ?_, .refl sess⟩
    rw [List.getElem?_append_left (List.getElem?_eq_some_iff.1 hk).1]
    exact hk
  · exact p.later_cleanup

theorem later_render (p : Page T) (listening : Bool) : p.Later (p.render listening) := by
  unfold render
  split_ifs
  · exact p.later_cleanup.trans (later_effect _ listening)
  · exact .refl p

variable [LinearOrder T] {clk : Clock T}

omit [Zero T] in
theorem later_tick (p : Page T) (k : ℕ) (t : T) : p.Later (p.tick k t) := by
  refine p.later_modify k fun sess => ?_
  split_ifs
  · exact .refl sess
  · exact fun h => ⟨h, rfl⟩

theorem later_schedule (p : Page T) (k : ℕ) (t : T) (pcm16 : List Int16) :
    p.Later (p.schedule clk k t pcm16) :=
  p.later_modify k fun _ h => ⟨h, rfl⟩

theorem later_onmessage (p : Page T) (data : List UInt8) : p.Later (p.onmessage e clk data) := by
  unfold onmessage
  split
  · exact .refl p
  · split
    · exact p.later_schedule _ _ _
    · exact .refl p

theorem later_receive (p : Page T) (k : ℕ) : p.Later (p.receive e clk k) := by
  unfold receive
  split
  · exact .refl p
  · split
    · exact .refl p
    · dsimp only
      split_ifs
      · exact p.later_modify k fun _ h => ⟨h, rfl⟩
      · refine Later.trans ?_ (later_onmessage _ _)
        exact p.later_modify k fun _ h => ⟨h, rfl⟩

end Page

variable [LinearOrder T] [Zero T] {clk : Clock T} {s : LiveAudio T}

theorem later_step (s : LiveAudio T) (a : Act T) : s.Later (s.step e clk a) := by
  cases a with
  | startChunk | sample | demod | setLive =>
    exact ⟨List.prefix_rfl, le_rfl, fun _ _ => rfl, fun _ p hp => ⟨p, hp, .refl p⟩⟩
  | output ok => exact s.later_outputThread ok
  | subscribe =>
    simp only [step]
    split_ifs with hl
    · exact ⟨List.prefix_rfl, by simp [hl, Listener.rank], fun hl' => by simp [hl] at hl',
        fun _ p hp => ⟨p, hp, .refl p⟩⟩
    · exact .refl s
  | endListener =>
    refine ⟨List.prefix_rfl, ?_, fun _ hl => by simp [step] at hl, fun _ p hp => ⟨p, hp, .refl p⟩⟩
    rcases s.listener with _ | _ | _ <;> simp [step, Listener.rank]
  | redisListener => exact s.later_redisListenerThread
  | mount =>
    refine ⟨List.prefix_rfl, le_rfl, fun _ _ => rfl, fun i p hp => ⟨p, ?_, .refl p⟩⟩
    simp only [step]
    rw [List.getElem?_append_left (List.getElem?_eq_some_iff.1 hp).1]
    exact hp
  | render i listening => exact s.later_modifyPage i fun p => p.later_render listening
  | unmount i => exact s.later_modifyPage i fun p => p.later_unmount
  | onopen i k => exact s.later_modifyPage i fun p => p.later_onopen k _
  | onclose i k n => exact s.later_modifyPage i fun p => p.later_onclose k n
  | receive i k => exact s.later_modifyPage i fun p => p.later_receive k
  | tick i k t => exact s.later_modifyPage i fun p => p.later_tick k t

theorem later_run (as : List (Act T)) (s : LiveAudio T) : s.Later (run (step e clk) s as) :=
  Machine.run_inv (I := fun s' => s.Later s') (fun s' a h => h.trans (s'.later_step a)) as s
    (.refl s)

/-- What an open connection has brought or will bring the page: the messages scheduled, those under
way to the page and those that wait for the listener. -/
def due (e : Endian) (s : LiveAudio T) (sess : Session T) : List (List UInt8) :=
  sess.played e ++ sess.inbox ++ s.liveAudio

/-- The connection is open on both sides, and the listener is subscribed. -/
def Open (s : LiveAudio T) (sess : Session T) : Prop :=
  s.listener = .listening ∧ sess.member = .inserted ∧ sess.closing = false
  deriving Decidable

theorem Inv.session (h : s.Inv e clk) {i k : ℕ} {sess : Session T}
    (hk : s.sessionAt i k = some sess) : sess.Ok e clk s.broadcast := by
  obtain ⟨p, hp, hsess⟩ := Option.bind_eq_some_iff.1 hk
  exact (h.pages p (List.mem_of_getElem? hp) k sess hsess).1

/-- It starts at the chunk published when the connection was opened. -/
theorem due_eq (h : s.Inv e clk) {sess : Session T} (hs : sess.Ok e clk s.broadcast)
    (ho : s.Open sess) : ∃ n, n + (s.broadcast.length + s.liveAudio.length) = s.published.length
      ∧ n + sess.since ≤ s.published.length
      ∧ s.due e sess = (s.published.map (payload e)).drop (n + sess.since) := by
  obtain ⟨hl, hm, hcl⟩ := ho
  have hchan := h.channel
  have hsent := hs.sent
  rw [Channel, hl] at hchan
  rw [Session.Sent, hm] at hsent
  obtain ⟨pre, hpre⟩ := hchan
  have hlen := congrArg List.length hpre
  simp only [List.length_append, List.length_map] at hlen
  refine ⟨pre.length, hlen, by have := hsent.1; omega, ?_⟩
  rw [due, hs.playedAll hcl, hsent.2, ← hpre, List.drop_append,
    List.drop_eq_nil_of_le (Nat.le_add_right _ _), List.nil_append, Nat.add_sub_cancel_left,
    List.drop_append_of_le_length hsent.1]

omit [LinearOrder T] [Zero T] in
theorem channelData_range (src : Source T) : ∀ x ∈ src.channelData, -1 ≤ x ∧ x < 1 := by
  intro x hx
  obtain ⟨y, -, rfl⟩ := List.mem_map.1 hx
  have hlo : ((-2 ^ 15 : ℤ) : ℚ) ≤ y.toInt := by exact_mod_cast y.le_toInt
  have hhi : (y.toInt : ℚ) < ((2 ^ 15 : ℤ) : ℚ) := by exact_mod_cast y.toInt_lt
  push_cast at hlo hhi
  constructor
  · rw [le_div_iff₀ (by norm_num)]
    linarith
  · rw [div_lt_one (by norm_num)]
    linarith

theorem Follows.stop_le {a b : Source T} (h : Follows clk a b) : a.stop clk ≤ b.start := by
  rcases h with heq | ⟨hlt, heq⟩
  · exact heq.ge
  · rw [heq]
    exact hlt.le.trans (clk.le_add _ _ clk.lead_nonneg)

theorem pairwise_of_follows {sources : List (Source T)} (h : sources.IsChain (Follows clk)) :
    sources.Pairwise fun a b => a.stop clk ≤ b.start := by
  -- a source starts before it stops, so the order of neighbours is that of all
  have htrans : IsTrans (Source T) fun a b => a.stop clk ≤ b.start :=
    ⟨fun _ b _ hab hbc => (hab.trans (clk.le_add b.start _ (clk.duration_nonneg _))).trans hbc⟩
  exact (h.imp fun _ _ => Follows.stop_le).pairwise

/-! ## A slot's way to a page -/

/-- The pool's actions, with nothing published live. -/
def Act.ofPool : PcmPool.Act Int16 → Act T
  | .startChunk => .startChunk
  | .sample x => .sample x
  | .demod => .demod
  | .output => .output false

theorem step_ofPool (s : LiveAudio T) (b : PcmPool.Act Int16) :
    s.step e clk (.ofPool b) = { s with pool := s.pool.step b } := by
  cases b with
  | output =>
    simp only [Act.ofPool, step, outputThread, Bool.and_false]
    split <;> rfl
  | _ => rfl

theorem run_ofPool (bs : List (PcmPool.Act Int16)) (s : LiveAudio T) :
    run (step e clk) s (bs.map .ofPool) = { s with pool := run PcmPool.step s.pool bs } :=
  run_map (g := fun pool => { s with pool := pool }) bs (fun b _ _ => step_ofPool _ b) s.pool

/-- The samples of a slot are put out, published live and taken by the page. -/
def hear (xs : List Int16) : List (Act T) :=
  (PcmPool.slotful xs).map .ofPool ++ [.output true, .output true] ++ [.redisListener, .receive 0 0]
    ++ (List.replicate 3 .output).map .ofPool

section OnePage

variable (e : Endian) (clk : Clock T) (pool : PcmPool Int16) (published : List (List Int16))
  (waiting : List (List UInt8))
  (broadcast taken : List (List UInt8)) (t next : T) (sources : List (Source T))

/-- One page with one connection that is open; only `waiting` is under way. -/
def onePage : LiveAudio T where
  pool := pool
  gLiveListen := true
  published := published
  listener := .listening
  liveAudio := waiting
  broadcast := broadcast
  pages := [⟨true, [⟨.inserted, false, [], t, false, sources, 0, taken⟩], some 0, some 0, next⟩]

/-- The source for a message that comes at time `t`. -/
def sourceAt (xs : List Int16) : Source T :=
  ⟨t, if next < t then clk.add t clk.lead else next, xs⟩

theorem run_takes {xs : List Int16} (hxs : xs ≠ []) :
    run (step e clk) (onePage pool published [payload e xs] broadcast taken t next sources)
      [.redisListener, .receive 0 0]
      = onePage pool published [] (broadcast ++ [payload e xs]) (taken ++ [payload e xs]) t
        ((sourceAt clk t next xs).stop clk) (sources ++ [sourceAt clk t next xs]) := by
  have hscheduled : ((⟨true, [⟨.inserted, false, [payload e xs], t, false, sources, 0, taken⟩],
      some 0, some 0, next⟩ : Page T).receive e clk 0)
        = ⟨true, [⟨.inserted, false, [], t, false, sources ++ [sourceAt clk t next xs], 0,
          taken ++ [payload e xs]⟩], some 0, some 0, (sourceAt clk t next xs).stop clk⟩ := by
    simp only [Page.receive, Page.onmessage, Page.modify, List.modify_zero_cons,
      List.getElem?_cons_zero, int16Array_payload hxs]
    rfl
  exact congrArg (fun p => LiveAudio.mk pool true published .listening []
    (broadcast ++ [payload e xs]) [p]) hscheduled

variable {pool}

theorem run_hear (hpool : PcmPool.Waiting pool) {xs : List Int16}
    (hxs : xs.length = pcmChunkSize - 10) (hb : pool.published.length + 1 < 2 ^ 31) :
    ∃ pool', PcmPool.Waiting pool' ∧ pool'.published = pool.published ++ [xs]
      ∧ run (step e clk) (onePage pool published [] broadcast taken t next sources) (hear xs)
        = onePage pool' (published ++ [xs]) [] (broadcast ++ [payload e xs])
          (taken ++ [payload e xs]) t ((sourceAt clk t next xs).stop clk)
          (sources ++ [sourceAt clk t next xs]) := by
  obtain ⟨ho, ⟨idx, hpcm, hfound⟩, hwaiting, hpub⟩ := hpool.round hxs hb
  set pool₁ := run PcmPool.step pool (PcmPool.slotful xs)
  have hne : xs ≠ [] := by
    rintro rfl
    simp [pcmChunkSize] at hxs
  have hpublishes : run (step e clk) (onePage pool₁ published [] broadcast taken t next sources)
      [.output true, .output true] = onePage pool₁.outputThread.outputThread (published ++ [xs])
        [payload e xs] broadcast taken t next sources := by
    simp only [run, List.foldl_cons, List.foldl_nil, step, onePage, outputThread, ho, hfound,
      publish, hpcm]
    rfl
  refine ⟨run PcmPool.step pool₁ (List.replicate 5 .output), hwaiting, hpub, ?_⟩
  rw [hear, run_append, run_append, run_append, run_ofPool (PcmPool.slotful xs)]
  show run (step e clk) (run (step e clk) (run (step e clk) (onePage pool₁ published [] broadcast
    taken t next sources) _) _) _ = _
  rw [hpublishes, run_takes _ _ _ _ _ _ _ _ _ hne, run_ofPool]
  rfl

end OnePage

end LiveAudio

open LiveAudio
open PcmPool (tone length_tone)

variable {T : Type*} [LinearOrder T] [Zero T]

/-- In a run with fewer than `2 ^ 31` slots published by the demodulator: the chunks published live
are whole slots that `outputThread` took, in order, so their samples are some of those that the
demodulator put out, in order; and whatever pages open and close, each audio context plays a
stretch of consecutive chunks, none twice and none in another's place, unchanged by the way and
within full scale. -/
theorem page_plays_published (e : Endian) (clk : Clock T) (as : List (Act T)) (s : LiveAudio T)
    (hs : s = run (step e clk) (init T) as) (hb : s.pool.published.length < 2 ^ 31) :
    s.published.Sublist s.pool.consumed
      ∧ s.published.flatten.Sublist (generated e clk (init T) as)
      ∧ ∀ p ∈ s.pages, ∀ sess ∈ p.sessions,
        sess.sources.map (·.pcm16) <:+: s.published
          ∧ ∀ src ∈ sess.sources, src.pcm16.length = pcmChunkSize - 10
            ∧ ∀ x ∈ src.channelData, -1 ≤ x ∧ x < 1 := by
  subst hs
  obtain ⟨hpool, hinv⟩ := run_ok as (init T) hb init_poolOk init_inv
  refine ⟨hpool.published, hpool.published_kept.trans (kept_sublist_generated as),
    fun p hp sess hsess => ?_⟩
  obtain ⟨k, hk⟩ := List.mem_iff_getElem?.1 hsess
  have hplayed := (hinv.pages p hp k sess hk).1.played_part.trans hinv.channel.broadcast_infix
  have hpart : sess.sources.map (·.pcm16) <:+: (run (step e clk) (init T) as).published := by
    have hmap : sess.played e = (sess.sources.map (·.pcm16)).map (payload e) := by
      rw [Session.played, List.map_map]
      rfl
    rw [hmap] at hplayed
    obtain ⟨l, hl, heq⟩ := List.infix_map_iff.1 hplayed
    exact payload_injective.list_map heq ▸ hl
  exact ⟨hpart, fun src hsrc => ⟨hpool.full _ (hpart.subset (List.mem_map_of_mem hsrc)),
    channelData_range src⟩⟩

/-- A page opens its connection, and the demodulator takes its first slot. -/
def opening : List (Act ℚ) :=
  [.subscribe, .setLive true, .mount, .render 0 true, .onopen 0 0]
    ++ (PcmPool.start : List (PcmPool.Act Int16)).map .ofPool

theorem run_opening : run (step .little Clock.exact) (init ℚ) opening
    = onePage (run PcmPool.step (PcmPool.init 0) PcmPool.start) [] [] [] [] 0 0 [] := rfl

theorem stop_tone (t start : ℚ) (x : Int16) :
    (⟨t, start, tone x⟩ : Source ℚ).stop Clock.exact = start + 2038 / 16000 := by
  show start + ((tone x).length : ℚ) / 16000 = _
  norm_num [length_tone, pcmChunkSize]

/-- The page hears a slot. -/
theorem run_first_tone : ∃ pool, PcmPool.Waiting pool ∧ pool.published = [tone 3]
    ∧ run (step .little Clock.exact) (init ℚ) (opening ++ hear (tone 3))
      = onePage pool [tone 3] [] [payload .little (tone 3)] [payload .little (tone 3)] 0
        (2038 / 16000) [⟨0, 0, tone 3⟩] := by
  obtain ⟨pool, hwait, hpub, hrun⟩ := run_hear .little Clock.exact [] [] [] 0 0 []
    (PcmPool.start_waiting 0) (length_tone 3) (by decide)
  have hsource : sourceAt Clock.exact 0 0 (tone 3) = ⟨0, 0, tone 3⟩ := by simp [sourceAt]
  rw [hsource, stop_tone, zero_add] at hrun
  refine ⟨pool, hwait, hpub, ?_⟩
  rw [run_append, run_opening, hrun]
  rfl

/-- It hears another while the first is playing. -/
theorem run_second_tone : ∃ pool, PcmPool.Waiting pool ∧ pool.published = [tone 3, tone 5]
    ∧ run (step .little Clock.exact) (init ℚ) (opening ++ hear (tone 3) ++ hear (tone 5))
      = onePage pool [tone 3, tone 5] [] [payload .little (tone 3), payload .little (tone 5)]
        [payload .little (tone 3), payload .little (tone 5)] 0 (2038 / 16000 + 2038 / 16000)
        [⟨0, 0, tone 3⟩, ⟨0, 2038 / 16000, tone 5⟩] := by
  obtain ⟨pool₁, hwait₁, hpub₁, hrun₁⟩ := run_first_tone
  obtain ⟨pool, hwait, hpub, hrun⟩ := run_hear .little Clock.exact [tone 3]
    [payload .little (tone 3)] [payload .little (tone 3)] 0 (2038 / 16000) [⟨0, 0, tone 3⟩] hwait₁
    (length_tone 5) (by rw [hpub₁]; decide)
  have hsource : sourceAt Clock.exact 0 (2038 / 16000) (tone 5) = ⟨0, 2038 / 16000, tone 5⟩ := by
    norm_num [sourceAt]
  rw [hsource, stop_tone] at hrun
  refine ⟨pool, hwait, by rw [hpub, hpub₁]; rfl, ?_⟩
  rw [run_append, hrun₁, hrun]
  rfl

/-- The runs above end below the bound. -/
theorem published_lt_of_onePage {s : LiveAudio ℚ} {pool : PcmPool Int16}
    {published : List (List Int16)} {broadcast taken : List (List UInt8)} {t next : ℚ}
    {sources : List (Source ℚ)} (hs : s = onePage pool published [] broadcast taken t next sources)
    (hpub : pool.published = published) (hb : published.length < 2 ^ 31) :
    s.pool.published.length < 2 ^ 31 := by
  rw [hs]
  exact hpub ▸ hb

/-- Two slots published, and played by the page. -/
theorem page_plays_published_two_tones :
    let as := opening ++ hear (tone 3) ++ hear (tone 5)
    let s := run (step .little Clock.exact) (init ℚ) as
    s.published = [tone 3, tone 5]
      ∧ s.published.flatten.Sublist (generated .little Clock.exact (init ℚ) as)
      ∧ ∃ p ∈ s.pages, ∃ sess ∈ p.sessions, sess.sources.map (·.pcm16) = [tone 3, tone 5]
        ∧ sess.sources.map (·.pcm16) <:+: s.published := by
  intro as s
  obtain ⟨pool, -, hpub, hrun⟩ := run_second_tone
  have hs : s = _ := hrun
  have hb := published_lt_of_onePage hs hpub (by decide)
  obtain ⟨-, hsub, hplays⟩ := page_plays_published .little Clock.exact as s rfl hb
  rw [hs] at hsub hplays ⊢
  exact ⟨rfl, hsub, _, List.mem_singleton_self _, _, List.mem_singleton_self _, rfl,
    (hplays _ (List.mem_singleton_self _) _ (List.mem_singleton_self _)).1⟩

/-- While a connection stays open, with the listener subscribed, the page misses nothing: what it
has scheduled, what is under way to it and what waits for the listener grow by exactly the chunks
published. -/
theorem page_misses_nothing (e : Endian) (clk : Clock T) (as bs : List (Act T)) (s s' : LiveAudio T)
    (hs : s = run (step e clk) (init T) as) (hs' : s' = run (step e clk) s bs)
    (hb : s'.pool.published.length < 2 ^ 31) (i k : ℕ) (sess sess' : Session T)
    (hk : s.sessionAt i k = some sess) (hk' : s'.sessionAt i k = some sess')
    (ho : s.Open sess) (ho' : s'.Open sess') :
    s'.due e sess' = s.due e sess ++ (s'.published.drop s.published.length).map (payload e) := by
  have hlater : s.Later s' := hs' ▸ later_run bs s
  have hb₀ : s.pool.published.length < 2 ^ 31 := by
    rw [hs'] at hb
    exact (le_run published_le_step bs s).trans_lt hb
  obtain ⟨hpool, hinv⟩ : s.PoolOk ∧ s.Inv e clk :=
    hs ▸ run_ok as (init T) (hs ▸ hb₀) init_poolOk init_inv
  obtain ⟨-, hinv'⟩ : s'.PoolOk ∧ s'.Inv e clk := hs' ▸ run_ok bs s (hs' ▸ hb) hpool hinv
  obtain ⟨n, hn, hle, hdue⟩ := due_eq hinv (hinv.session hk) ho
  obtain ⟨n', hn', hle', hdue'⟩ := due_eq hinv' (hinv'.session hk') ho'
  have hcarried := hlater.carried ho.1 ho'.1
  have hsince : sess'.since = sess.since := by
    obtain ⟨p, hp, hsess⟩ := Option.bind_eq_some_iff.1 hk
    obtain ⟨p', hp', hpl⟩ := hlater.pages i p hp
    obtain ⟨sess₁, hsess₁, hsl⟩ := hpl k sess hsess
    have hsame : sess' = sess₁ := by
      rw [sessionAt, hp', Option.bind_some, hsess₁] at hk'
      exact (Option.some.inj hk').symm
    rw [hsame]
    refine (hsl ?_).2
    rw [ho.2.1]
    decide
  obtain ⟨new, hnew⟩ := hlater.published
  have hsplit : s'.published.drop s.published.length = new := by
    rw [← hnew, List.drop_left]
  have hpos : n' = n := by omega
  rw [hdue', hdue, hsplit, hsince, hpos, ← hnew, List.map_append,
    List.drop_append_of_le_length (by rw [List.length_map]; exact hle)]

/-- A slot published while the connection is open. -/
theorem page_misses_nothing_second_tone :
    let s := run (step .little Clock.exact) (init ℚ) (opening ++ hear (tone 3))
    let s' := run (step .little Clock.exact) s (hear (tone 5))
    ∃ sess sess', s.sessionAt 0 0 = some sess ∧ s'.sessionAt 0 0 = some sess'
      ∧ s.due .little sess = [payload .little (tone 3)]
      ∧ s'.due .little sess' = s.due .little sess ++ [payload .little (tone 5)] := by
  intro s s'
  obtain ⟨pool, -, -, hrun⟩ := run_first_tone
  obtain ⟨pool', -, hpub', hrun'⟩ := run_second_tone
  have hs : s = _ := hrun
  have hs' : s' = _ := (run_append _ _ _ _).symm.trans hrun'
  have hb := published_lt_of_onePage hs' hpub' (by decide)
  have hmissed := page_misses_nothing .little Clock.exact _ _ s s' rfl rfl hb 0 0 _ _
    (by rw [hs]; rfl) (by rw [hs']; rfl) (by rw [hs]; exact ⟨rfl, rfl, rfl⟩)
    (by rw [hs']; exact ⟨rfl, rfl, rfl⟩)
  rw [hs, hs'] at hmissed ⊢
  exact ⟨_, _, rfl, rfl, rfl, hmissed⟩

/-- No context plays two buffers at once: each source starts no earlier than it is made, at the very
time the one before stops, or, if that one had stopped by then, a moment after it is made. -/
theorem playback_in_turn (e : Endian) (clk : Clock T) (as : List (Act T)) (s : LiveAudio T)
    (hs : s = run (step e clk) (init T) as) (hb : s.pool.published.length < 2 ^ 31) :
    ∀ p ∈ s.pages, ∀ sess ∈ p.sessions,
      sess.sources.Pairwise (fun a b => a.stop clk ≤ b.start)
        ∧ sess.sources.IsChain (Follows clk)
        ∧ ∀ src ∈ sess.sources, src.madeAt ≤ src.start ∧ src.madeAt ≤ sess.currentTime := by
  subst hs
  intro p hp sess hsess
  obtain ⟨-, hinv⟩ := run_ok as (init T) hb init_poolOk init_inv
  obtain ⟨k, hk⟩ := List.mem_iff_getElem?.1 hsess
  have hok := (hinv.pages p hp k sess hk).1
  exact ⟨pairwise_of_follows hok.follows, hok.follows, hok.timely⟩

/-- A slot that comes while the one before is playing, and one that comes after an underrun. -/
theorem playback_in_turn_three_tones :
    let s := run (step .little Clock.exact) (init ℚ)
      (opening ++ hear (tone 3) ++ hear (tone 5) ++ [.tick 0 0 1] ++ hear (tone 7))
    ∃ p ∈ s.pages, ∃ sess ∈ p.sessions,
      sess.sources.map (·.start) = [0, 2038 / 16000, 1 + 1 / 20]
        ∧ sess.sources.Pairwise fun a b => a.stop Clock.exact ≤ b.start := by
  intro s
  obtain ⟨pool₁, hwait₁, hpub₁, hrun₁⟩ := run_second_tone
  obtain ⟨pool, -, hpub, hrun⟩ := run_hear .little Clock.exact [tone 3, tone 5]
    [payload .little (tone 3), payload .little (tone 5)]
    [payload .little (tone 3), payload .little (tone 5)] 1 (2038 / 16000 + 2038 / 16000)
    [⟨0, 0, tone 3⟩, ⟨0, 2038 / 16000, tone 5⟩] hwait₁ (length_tone 7) (by rw [hpub₁]; decide)
  have hsource : sourceAt Clock.exact 1 (2038 / 16000 + 2038 / 16000) (tone 7)
      = ⟨1, 1 + 1 / 20, tone 7⟩ := by
    have hlate : (2038 / 16000 + 2038 / 16000 : ℚ) < 1 := by norm_num
    rw [sourceAt, if_pos hlate]
    rfl
  have htick : run (step .little Clock.exact) (init ℚ)
      (opening ++ hear (tone 3) ++ hear (tone 5) ++ [.tick 0 0 1]) = _ :=
    (run_append _ _ _ _).trans (congrArg (run (step .little Clock.exact) · [.tick 0 0 1]) hrun₁)
  have hs : s = _ := (run_append _ _ _ _).trans
    ((congrArg (run (step .little Clock.exact) · (hear (tone 7))) htick).trans hrun)
  have hb := published_lt_of_onePage hs (hpub.trans (congrArg (· ++ [tone 7]) hpub₁)) (by decide)
  have hturn := playback_in_turn .little Clock.exact _ s rfl hb
  rw [hs, hsource] at hturn ⊢
  exact ⟨_, List.mem_singleton_self _, _, List.mem_singleton_self _, rfl,
    (hturn _ (List.mem_singleton_self _) _ (List.mem_singleton_self _)).1⟩

end AetherGuard

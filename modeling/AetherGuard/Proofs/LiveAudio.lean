import AetherGuard.LiveAudio
import AetherGuard.Lib.Threads
import AetherGuard.Proofs.PcmPool

/-!
# Live audio

A connection gets the messages broadcast while the API has it, in order (`Session.Ok`), and the
page schedules each one it takes in the context made with that connection: every other connection
of the page is closing by then (`Page.Ok`), so the refs its handler reads are its own. The messages
broadcast are a stretch of what was published (`Channel`), and what was published is part of what
`outputThread` took from the pool (`PoolOk`). So a context plays a stretch of the chunks published,
at times that follow one another.
-/

namespace AetherGuard

open Daemon Machine

namespace LiveAudio

variable {T : Type*} [LinearOrder T] [Zero T] {e : Endian} {clk : Clock T}
  {B : List (List UInt8)}

theorem int16Array_payload {pcm : List Int16} (h : pcm ≠ []) :
    int16Array e (payload e pcm) = some pcm := by
  have hlen := e.flatMap_bytes16_length pcm
  have hpos := List.length_pos_of_ne_nil h
  have hne : payload e pcm ≠ [] := by
    intro hnil
    rw [payload] at hnil
    rw [hnil, List.length_nil] at hlen
    omega
  have hodd : ¬ (payload e pcm).length % 2 = 1 := by
    rw [payload, hlen]
    omega
  rw [int16Array, if_neg (not_or.2 ⟨hodd, hne⟩), payload, e.int16s_flatMap_bytes16]

theorem payload_injective : Function.Injective (payload e) := by
  intro a b h
  rw [← e.int16s_flatMap_bytes16 a, ← e.int16s_flatMap_bytes16 b]
  exact congrArg e.int16s h

/-! ## One connection and its context -/

/-- Source `b` starts when `a` stops, or, if `a` had stopped when `b` was made, a moment from
then. -/
def Follows (clk : Clock T) (a b : Source T) : Prop :=
  b.start = a.stop clk ∨ (a.stop clk < b.madeAt ∧ b.start = clk.add b.madeAt clk.lead)

namespace Session

/-- When the last source stops. -/
def playedUntil (clk : Clock T) (sess : Session T) : T :=
  (sess.sources.getLast?.map (·.stop clk)).getD 0

/-- The messages whose samples were scheduled. -/
def played (e : Endian) (sess : Session T) : List (List UInt8) :=
  sess.sources.map fun src => payload e src.pcm16

/-- The page took and will get what was broadcast while the API had the connection. -/
def Sent (B : List (List UInt8)) (sess : Session T) : Prop :=
  match sess.member with
  | .connecting => sess.taken = [] ∧ sess.inbox = []
  | .inserted => sess.since ≤ B.length ∧ sess.taken ++ sess.inbox = B.drop sess.since
  | .erased => sess.taken ++ sess.inbox <+: B.drop sess.since

structure Ok (e : Endian) (clk : Clock T) (B : List (List UInt8)) (sess : Session T) : Prop where
  sent : sess.Sent B
  played : sess.played e <+: sess.taken
  playedAll : sess.closing = false → sess.played e = sess.taken
  timely : ∀ src ∈ sess.sources, src.madeAt ≤ src.start ∧ src.madeAt ≤ sess.currentTime
  follows : sess.sources.IsChain (Follows clk)

variable {sess : Session T}

theorem Ok.taken_le (h : sess.Ok e clk B) : sess.taken ++ sess.inbox <+: B.drop sess.since := by
  have hsent := h.sent
  unfold Sent at hsent
  split at hsent
  · rw [hsent.1, hsent.2]
    exact List.nil_prefix
  · exact hsent.2 ▸ List.prefix_rfl
  · exact hsent

theorem Ok.played_part (h : sess.Ok e clk B) : sess.played e <:+: B :=
  ((h.played.trans (List.prefix_append _ _)).trans h.taken_le).isInfix.trans
    (List.drop_suffix _ _).isInfix

end Session

/-! ## One page -/

namespace Page

variable {p : Page T}

/-- The page's refs are those of the `k`-th session. -/
def Current (clk : Clock T) (p : Page T) (k : ℕ) (sess : Session T) : Prop :=
  p.wsRef = some k ∧ p.audioCtxRef = some k ∧ p.nextPlayTimeRef = sess.playedUntil clk

/-- A session whose connection the page has not closed is the one of its refs. -/
def Ok (e : Endian) (clk : Clock T) (B : List (List UInt8)) (p : Page T) : Prop :=
  ∀ k sess, p.sessions[k]? = some sess →
    sess.Ok e clk B ∧ (sess.closing = false → p.Current clk k sess)

/-- The page has closed all its connections. -/
def Quiet (e : Endian) (clk : Clock T) (B : List (List UInt8)) (p : Page T) : Prop :=
  ∀ (k : ℕ) (sess : Session T), p.sessions[k]? = some sess → sess.Ok e clk B ∧ sess.closing = true

theorem init_ok : (init : Page T).Ok e clk B := by
  intro k sess hk
  simp [init] at hk

theorem Quiet.ok (h : p.Quiet e clk B) : p.Ok e clk B := by
  intro k sess hk
  obtain ⟨hok, hcl⟩ := h k sess hk
  exact ⟨hok, fun hopen => by simp [hcl] at hopen⟩

omit [LinearOrder T] [Zero T] in
theorem getElem?_modify_eq_some {f : Session T → Session T} {k j : ℕ} {sess' : Session T}
    (h : (p.modify k f).sessions[j]? = some sess') :
    ∃ sess, p.sessions[j]? = some sess ∧ sess' = if k = j then f sess else sess := by
  simp only [modify, List.getElem?_modify, Option.map_eq_map, Option.map_eq_some_iff] at h
  obtain ⟨sess, hj, rfl⟩ := h
  exact ⟨sess, hj, rfl⟩

/-- A change to one session that opens nothing and schedules nothing. -/
theorem Ok.modify (h : p.Ok e clk B) {k : ℕ} {f : Session T → Session T}
    (hok : ∀ sess, p.sessions[k]? = some sess → sess.Ok e clk B → (f sess).Ok e clk B)
    (hf : ∀ sess, (f sess).closing = false →
      sess.closing = false ∧ (f sess).sources = sess.sources) : (p.modify k f).Ok e clk B := by
  intro j sess' hj
  obtain ⟨sess, hget, rfl⟩ := getElem?_modify_eq_some hj
  obtain ⟨hs, hcur⟩ := h j sess hget
  split_ifs with hkj
  · subst hkj
    refine ⟨hok sess hget hs, fun hopen => ?_⟩
    obtain ⟨hopen', hsrc⟩ := hf sess hopen
    obtain ⟨hws, hctx, hnext⟩ := hcur hopen'
    refine ⟨hws, hctx, hnext.trans ?_⟩
    rw [Session.playedUntil, Session.playedUntil, hsrc]
  · exact ⟨hs, hcur⟩

theorem closeSocket_quiet (h : p.Ok e clk B) : p.closeSocket.Quiet e clk B := by
  unfold closeSocket
  rcases hws : p.wsRef with _ | k <;> dsimp only
  · intro j sess hj
    refine ⟨(h j sess hj).1, ?_⟩
    by_contra hopen
    have := ((h j sess hj).2 (by simpa using hopen)).1
    simp [hws] at this
  · intro j sess' hj
    obtain ⟨sess, hget, rfl⟩ := getElem?_modify_eq_some hj
    obtain ⟨hs, hcur⟩ := h j sess hget
    split_ifs with hkj
    · exact ⟨⟨hs.sent, hs.played, fun hopen => by simp at hopen, hs.timely, hs.follows⟩, rfl⟩
    · refine ⟨hs, ?_⟩
      by_contra hopen
      have := (hcur (by simpa using hopen)).1
      simp only [hws, Option.some.injEq] at this
      exact hkj this

theorem closeContext_quiet (h : p.Quiet e clk B) : p.closeContext.Quiet e clk B := by
  unfold closeContext
  rcases p.audioCtxRef with _ | k <;> dsimp only
  · exact h
  · intro j sess' hj
    obtain ⟨sess, hget, rfl⟩ := getElem?_modify_eq_some hj
    obtain ⟨hs, hcl⟩ := h j sess hget
    split_ifs with hkj
    · exact ⟨⟨hs.sent, hs.played, hs.playedAll, hs.timely, hs.follows⟩, hcl⟩
    · exact ⟨hs, hcl⟩

theorem cleanup_quiet (h : p.Ok e clk B) : p.cleanup.Quiet e clk B :=
  closeContext_quiet (closeSocket_quiet h)

theorem effect_ok (h : p.Quiet e clk B) (listening : Bool) : (p.effect listening).Ok e clk B := by
  unfold effect
  split_ifs
  · intro k sess hk
    rcases lt_trichotomy k p.sessions.length with hlt | rfl | hgt
    · rw [List.getElem?_append_left hlt] at hk
      obtain ⟨hs, hcl⟩ := h k sess hk
      exact ⟨hs, fun hopen => by simp [hcl] at hopen⟩
    · simp only [List.getElem?_concat_length, Option.some.injEq] at hk
      subst hk
      refine ⟨⟨⟨rfl, rfl⟩, List.nil_prefix, fun _ => rfl, by simp, .nil⟩, fun _ => ⟨rfl, rfl, rfl⟩⟩
    · rw [List.getElem?_eq_none (by simpa using hgt)] at hk
      cases hk
  · intro k sess hk
    obtain ⟨hs, hcl⟩ := closeContext_quiet (closeSocket_quiet h.ok) k sess hk
    exact ⟨hs, fun hopen => by simp [hcl] at hopen⟩

theorem render_ok (h : p.Ok e clk B) (listening : Bool) : (p.render listening).Ok e clk B := by
  unfold render
  split_ifs
  · exact effect_ok (cleanup_quiet h) listening
  · exact h

theorem unmount_ok (h : p.Ok e clk B) : p.unmount.Ok e clk B := by
  unfold unmount
  split_ifs
  · exact (cleanup_quiet h).ok
  · exact h

theorem tick_ok (h : p.Ok e clk B) (k : ℕ) (t : T) : (p.tick k t).Ok e clk B := by
  refine h.modify (fun sess _ hs => ?_) fun sess hopen => ?_
  · split_ifs
    · exact hs
    · refine ⟨hs.sent, hs.played, hs.playedAll, fun src hsrc => ?_, hs.follows⟩
      obtain ⟨hstart, hmade⟩ := hs.timely src hsrc
      exact ⟨hstart, hmade.trans (le_max_left _ _)⟩
  · split_ifs at hopen ⊢ <;> exact ⟨hopen, rfl⟩

theorem onopen_ok (h : p.Ok e clk B) (k : ℕ) : (p.onopen k B.length).Ok e clk B := by
  refine h.modify (fun sess _ hs => ?_) fun sess hopen => ?_
  · split_ifs with hm
    · have hsent := hs.sent
      rw [Session.Sent, hm] at hsent
      refine ⟨⟨le_rfl, ?_⟩, hs.played, hs.playedAll, hs.timely, hs.follows⟩
      simp [hsent.1, hsent.2]
    · exact hs
  · split_ifs at hopen ⊢ <;> exact ⟨hopen, rfl⟩

theorem onclose_ok (h : p.Ok e clk B) (k n : ℕ) : (p.onclose k n).Ok e clk B := by
  refine h.modify (fun sess _ hs => ?_) fun sess hopen => ?_
  · split_ifs with hm
    · refine ⟨?_, hs.played, hs.playedAll, hs.timely, hs.follows⟩
      -- what still arrives of the messages under way is the first of them
      exact ((List.prefix_append_right_inj _).2 (List.take_prefix n _)).trans hs.taken_le
    · exact hs
  · split_ifs at hopen ⊢ <;> exact ⟨hopen, rfl⟩

theorem send_ok (h : p.Ok e clk B) (data : List UInt8) : (p.send data).Ok e clk (B ++ [data]) := by
  intro k sess' hk
  simp only [send, List.getElem?_map, Option.map_eq_some_iff] at hk
  obtain ⟨sess, hget, rfl⟩ := hk
  obtain ⟨hs, hcur⟩ := h k sess hget
  have hsent := hs.sent
  split_ifs with hm
  · rw [Session.Sent, hm] at hsent
    refine ⟨⟨?_, hs.played, hs.playedAll, hs.timely, hs.follows⟩, hcur⟩
    simp only [Session.Sent, hm]
    refine ⟨hsent.1.trans (by simp), ?_⟩
    rw [← List.append_assoc, hsent.2, List.drop_append_of_le_length hsent.1]
  · refine ⟨⟨?_, hs.played, hs.playedAll, hs.timely, hs.follows⟩, hcur⟩
    unfold Session.Sent at hsent ⊢
    rcases hmem : sess.member with _ | _ | _ <;> simp only [hmem] at hsent hm ⊢
    · exact hsent
    · exact absurd trivial hm
    · refine hsent.trans ?_
      rcases le_or_gt sess.since B.length with hle | hgt
      · rw [List.drop_append_of_le_length hle]
        exact List.prefix_append _ _
      · rw [List.drop_eq_nil_of_le hgt.le]
        exact List.nil_prefix

/-- The time given to the next source, after one that stops at `nextPlayTimeRef`. -/
theorem le_nextPlayTime (p : Page T) (currentTime : T) :
    currentTime ≤ p.nextPlayTime clk currentTime := by
  unfold nextPlayTime
  split_ifs with hlt
  · exact clk.le_add _ _ clk.lead_nonneg
  · exact not_lt.1 hlt

theorem follows_nextPlayTime {sess : Session T} (hnext : p.nextPlayTimeRef = sess.playedUntil clk)
    {src : Source T} (hsrc : src ∈ sess.sources.getLast?) (pcm16 : List Int16) :
    Follows clk src ⟨sess.currentTime, p.nextPlayTime clk sess.currentTime, pcm16⟩ := by
  rw [Session.playedUntil, Option.mem_def.1 hsrc, Option.map_some, Option.getD_some] at hnext
  unfold nextPlayTime
  split_ifs with hlt
  · exact .inr ⟨hnext ▸ hlt, rfl⟩
  · exact .inl hnext

/-- The current session with one more message taken and scheduled. -/
theorem schedule_session_ok {sess : Session T} (hs : sess.Ok e clk B) (hopen : sess.closing = false)
    (hnext : p.nextPlayTimeRef = sess.playedUntil clk) {pcm16 : List Int16}
    {rest : List (List UInt8)} (hin : sess.inbox = payload e pcm16 :: rest) :
    Session.Ok e clk B { sess with
      inbox := rest
      taken := sess.taken ++ [payload e pcm16]
      sources := sess.sources
        ++ [⟨sess.currentTime, p.nextPlayTime clk sess.currentTime, pcm16⟩] } := by
  have hplayed := hs.playedAll hopen
  have htaken : sess.taken ++ [payload e pcm16] ++ rest = sess.taken ++ sess.inbox := by
    rw [hin, List.append_assoc, List.singleton_append]
  refine ⟨?_, ?_, fun _ => ?_, fun src hsrc => ?_, ?_⟩
  · have hsent := hs.sent
    unfold Session.Sent at hsent ⊢
    rcases hmem : sess.member with _ | _ | _ <;> simp only [hmem] at hsent ⊢
    · simp [hin] at hsent
    · rwa [htaken]
    · rwa [htaken]
  · rw [Session.played, List.map_append, ← Session.played, hplayed]
    exact List.prefix_rfl
  · rw [Session.played, List.map_append, ← Session.played, hplayed]
    rfl
  · rcases List.mem_append.1 hsrc with hold | hnew
    · exact hs.timely src hold
    · rw [List.mem_singleton.1 hnew]
      exact ⟨le_nextPlayTime p _, le_rfl⟩
  · refine List.isChain_append.2 ⟨hs.follows, .singleton _, fun a ha b hb => ?_⟩
    rw [List.head?_cons, Option.mem_some_iff] at hb
    exact hb ▸ follows_nextPlayTime hnext ha pcm16

theorem receive_ok (h : p.Ok e clk B) (hB : ∀ data ∈ B, ∃ pcm, pcm ≠ [] ∧ data = payload e pcm)
    (k : ℕ) : (p.receive e clk k).Ok e clk B := by
  unfold receive
  rcases hget : p.sessions[k]? with _ | sess <;> dsimp only
  · exact h
  obtain ⟨hs, hcur⟩ := h k sess hget
  rcases hin : sess.inbox with _ | ⟨data, rest⟩ <;> dsimp only
  · exact h
  have hmem : data ∈ B := by
    refine List.mem_of_mem_drop (hs.taken_le.subset ?_)
    simp [hin]
  obtain ⟨pcm16, hne, rfl⟩ := hB data hmem
  split_ifs with hcl
  · -- the page takes no notice of a message on a connection it has closed
    refine h.modify (fun sess' hget' _ => ?_) fun sess' hopen => ⟨hopen, rfl⟩
    obtain rfl : sess = sess' := Option.some.inj (hget.symm.trans hget')
    refine ⟨?_, hs.played.trans (List.prefix_append _ _), fun hopen => by simp [hcl] at hopen,
      hs.timely, hs.follows⟩
    have hsent := hs.sent
    unfold Session.Sent at hsent ⊢
    rcases hmember : sess.member with _ | _ | _ <;> simp only [hmember] at hsent ⊢
    · simp [hin] at hsent
    · simpa [hin] using hsent
    · simpa [hin] using hsent
  · have hopen : sess.closing = false := by simpa using hcl
    obtain ⟨hws, hctx, hnext⟩ := hcur hopen
    have hnew := schedule_session_ok hs hopen hnext hin
    simp only [onmessage, modify, hctx, List.getElem?_modify, hget, int16Array_payload hne,
      Option.map_eq_map, Option.map_some, if_true]
    intro j sess' hj
    obtain ⟨sess₁, hj₁, rfl⟩ := getElem?_modify_eq_some hj
    obtain ⟨sess₀, hj₀, rfl⟩ := getElem?_modify_eq_some (p := p) hj₁
    by_cases hkj : k = j
    · subst hkj
      obtain rfl : sess = sess₀ := Option.some.inj (hget.symm.trans hj₀)
      simp only [if_true]
      refine ⟨hnew, fun _ => ⟨hws, rfl, ?_⟩⟩
      simp [Session.playedUntil, nextPlayTime, schedule]
    · simp only [if_neg hkj]
      refine ⟨(h j sess₀ hj₀).1, fun hopen₀ => ?_⟩
      -- an open session is the one of the refs
      have hj' := ((h j sess₀ hj₀).2 hopen₀).1
      rw [hws, Option.some.injEq] at hj'
      exact absurd hj' hkj

end Page

/-! ## The system -/

variable {s : LiveAudio T}

/-- While the listener is subscribed, what it has broadcast and what waits for it are the last
chunks published. -/
def Channel (e : Endian) (s : LiveAudio T) : Prop :=
  match s.listener with
  | .subscribing => s.broadcast = [] ∧ s.liveAudio = []
  | .listening => s.broadcast ++ s.liveAudio <:+ s.published.map (payload e)
  | .ended => s.broadcast <:+: s.published.map (payload e) ∧ s.liveAudio = []

structure Inv (e : Endian) (clk : Clock T) (s : LiveAudio T) : Prop where
  channel : s.Channel e
  pages : ∀ p ∈ s.pages, p.Ok e clk s.broadcast

omit [LinearOrder T] [Zero T] in
theorem Channel.broadcast_infix (h : s.Channel e) :
    s.broadcast <:+: s.published.map (payload e) := by
  unfold Channel at h
  split at h
  · rw [h.1]
    exact List.nil_infix
  · exact (List.prefix_append _ _).isInfix.trans h.isInfix
  · exact h.1

omit [LinearOrder T] [Zero T] in
theorem Channel.publish (h : s.Channel e) (pcm : List Int16) : (s.publish e pcm).Channel e := by
  unfold Channel LiveAudio.publish at *
  rcases hl : s.listener with _ | _ | _ <;> simp only [hl] at h ⊢
  · exact h
  · rw [if_pos trivial, ← List.append_assoc, List.map_append]
    obtain ⟨pre, hpre⟩ := h
    exact ⟨pre, by rw [← List.append_assoc, hpre]; rfl⟩
  · refine ⟨h.1.trans ?_, h.2⟩
    rw [List.map_append]
    exact (List.prefix_append _ _).isInfix

omit [LinearOrder T] [Zero T] in
/-- `outputThread` publishes the slot it writes out, or leaves the channel alone. -/
theorem outputThread_cases (s : LiveAudio T) (ok : Bool) :
    (∃ idx, s.pool.output = .write idx ∧ s.outputThread e ok
      = { s.publish e (s.pool.pcmPool idx).pcm with pool := s.pool.outputThread })
    ∨ s.outputThread e ok = { s with pool := s.pool.outputThread } := by
  unfold outputThread
  rcases ho : s.pool.output with _ | idx | _ | _ | _ <;> dsimp only
  case write =>
    split_ifs
    · exact .inl ⟨idx, rfl, rfl⟩
    · exact .inr rfl
  all_goals exact .inr rfl

omit [LinearOrder T] [Zero T] in
theorem redisListenerThread_cases (s : LiveAudio T) :
    (∃ data rest, s.listener = .listening ∧ s.liveAudio = data :: rest ∧ s.redisListenerThread
      = { s with
          liveAudio := rest
          broadcast := s.broadcast ++ [data]
          pages := s.pages.map (·.send data) })
    ∨ s.redisListenerThread = s := by
  unfold redisListenerThread
  rcases hl : s.listener with _ | _ | _ <;> rcases hq : s.liveAudio with _ | ⟨data, rest⟩
  case listening.cons => exact .inl ⟨data, rest, rfl, rfl, rfl⟩
  all_goals exact .inr rfl

omit [LinearOrder T] [Zero T] in
theorem forall_modifyPage {P : Page T → Prop} (h : ∀ p ∈ s.pages, P p) {i : ℕ}
    {f : Page T → Page T} (hf : ∀ p, P p → P (f p)) : ∀ p ∈ (s.modifyPage i f).pages, P p := by
  intro p hp
  rcases Threads.mem_modify_cases hp with hp | ⟨q, hq, rfl⟩
  · exact h p hp
  · exact hf q (h q (List.mem_of_getElem? hq))

theorem Inv.redisListenerThread (h : s.Inv e clk) : (s.redisListenerThread).Inv e clk := by
  obtain ⟨data, rest, hl, hq, heq⟩ | heq := s.redisListenerThread_cases <;> rw [heq]
  · refine ⟨?_, ?_⟩
    · have hchan := h.channel
      simp only [Channel, hl, hq] at hchan ⊢
      rwa [List.append_assoc, List.singleton_append]
    · intro p hp
      obtain ⟨q, hq, rfl⟩ := List.mem_map.1 hp
      exact Page.send_ok (h.pages q hq) data
  · exact h

theorem step_inv (hpub : ∀ pcm ∈ s.published, pcm ≠ []) (a : Act T) (h : s.Inv e clk) :
    (s.step e clk a).Inv e clk := by
  obtain ⟨hchan, hpages⟩ := h
  have hmsg : ∀ data ∈ s.broadcast, ∃ pcm, pcm ≠ [] ∧ data = payload e pcm := by
    intro data hdata
    obtain ⟨pcm, hpcm, rfl⟩ := List.mem_map.1 (hchan.broadcast_infix.subset hdata)
    exact ⟨pcm, hpub pcm hpcm, rfl⟩
  cases a with
  | startChunk | sample | demod | setLive => exact ⟨hchan, hpages⟩
  | output ok =>
    obtain ⟨idx, -, heq⟩ | heq := s.outputThread_cases (e := e) ok <;> simp only [step, heq]
    · exact ⟨hchan.publish _, hpages⟩
    · exact ⟨hchan, hpages⟩
  | subscribe =>
    simp only [step]
    split_ifs with hl
    · refine ⟨?_, hpages⟩
      simp only [Channel, hl] at hchan ⊢
      rw [hchan.1, hchan.2]
      exact List.nil_suffix
    · exact ⟨hchan, hpages⟩
  | endListener => exact ⟨⟨hchan.broadcast_infix, rfl⟩, hpages⟩
  | redisListener => exact Inv.redisListenerThread ⟨hchan, hpages⟩
  | mount =>
    refine ⟨hchan, fun p hp => ?_⟩
    rcases List.mem_append.1 hp with hold | hnew
    · exact hpages p hold
    · rw [List.mem_singleton.1 hnew]
      exact Page.init_ok
  | render i listening =>
    exact ⟨hchan, forall_modifyPage hpages fun p hp => Page.render_ok hp listening⟩
  | unmount i => exact ⟨hchan, forall_modifyPage hpages fun p hp => Page.unmount_ok hp⟩
  | onopen i k => exact ⟨hchan, forall_modifyPage hpages fun p hp => Page.onopen_ok hp k⟩
  | onclose i k n => exact ⟨hchan, forall_modifyPage hpages fun p hp => Page.onclose_ok hp k n⟩
  | receive i k => exact ⟨hchan, forall_modifyPage hpages fun p hp => Page.receive_ok hp hmsg k⟩
  | tick i k t => exact ⟨hchan, forall_modifyPage hpages fun p hp => Page.tick_ok hp k t⟩

/-! ## The pool behind it -/

variable (e clk) in
theorem step_pool (s : LiveAudio T) (a : Act T) :
    (s.step e clk a).pool = s.pool ∨ ∃ b, (s.step e clk a).pool = s.pool.step b := by
  cases a with
  | startChunk => exact .inr ⟨.startChunk, rfl⟩
  | sample x => exact .inr ⟨.sample x, rfl⟩
  | demod => exact .inr ⟨.demod, rfl⟩
  | output ok => exact .inr ⟨.output, rfl⟩
  | subscribe =>
    simp only [step]
    split_ifs <;> exact .inl rfl
  | redisListener =>
    obtain ⟨_, _, -, -, heq⟩ | heq := s.redisListenerThread_cases <;>
      exact .inl (by simp only [step, heq])
  | _ => exact .inl rfl

variable (e clk) in
theorem published_step (s : LiveAudio T) (a : Act T) :
    (s.step e clk a).published = s.published
    ∨ ∃ pcm, (s.step e clk a).published = s.published ++ [pcm]
      ∧ (s.step e clk a).pool.consumed = s.pool.consumed ++ [pcm] := by
  cases a with
  | output ok =>
    obtain ⟨idx, ho, heq⟩ | heq := s.outputThread_cases (e := e) ok <;> simp only [step, heq]
    · exact .inr ⟨_, rfl, by simp only [PcmPool.outputThread, ho]⟩
    · exact .inl trivial
  | subscribe =>
    simp only [step]
    split_ifs <;> exact .inl rfl
  | redisListener =>
    obtain ⟨_, _, -, -, heq⟩ | heq := s.redisListenerThread_cases <;>
      exact .inl (by simp only [step, heq])
  | _ => exact .inl rfl

/-- What was published is part of what was taken from the pool, in order. -/
theorem published_sublist_step (a : Act T) (hpool : PcmPool.Inv s.pool)
    (h : s.published.Sublist s.pool.consumed) :
    (s.step e clk a).published.Sublist (s.step e clk a).pool.consumed := by
  rcases s.published_step e clk a with heq | ⟨pcm, hpub, hcons⟩
  · rw [heq]
    rcases s.step_pool e clk a with hsame | ⟨b, hstep⟩
    · rwa [hsame]
    · rw [hstep]
      exact h.trans (PcmPool.step_refines hpool b).taken_le.sublist
  · rw [hpub, hcons]
    exact h.append (List.Sublist.refl _)

structure PoolOk (s : LiveAudio T) : Prop where
  sound : PcmPool.Sound s.pool
  published : s.published.Sublist s.pool.consumed

omit [LinearOrder T] [Zero T] in
theorem PoolOk.full (h : s.PoolOk) : ∀ pcm ∈ s.published, pcm.length = pcmChunkSize - 10 :=
  fun pcm hpcm => h.sound.full pcm (h.published.subset hpcm)

omit [LinearOrder T] [Zero T] in
theorem PoolOk.ne_nil (h : s.PoolOk) : ∀ pcm ∈ s.published, pcm ≠ [] := by
  rintro pcm hpcm rfl
  have := h.full [] hpcm
  simp [pcmChunkSize] at this

omit [LinearOrder T] [Zero T] in
theorem PoolOk.published_kept (h : s.PoolOk) : s.published.flatten.Sublist s.pool.kept :=
  h.published.flatten.trans h.sound.consumed_kept.sublist

omit [LinearOrder T] [Zero T] in
theorem init_poolOk : (init T).PoolOk := ⟨PcmPool.init_sound 0, .refl _⟩

theorem step_poolOk (a : Act T) (hb : (s.step e clk a).pool.published.length < 2 ^ 31)
    (h : s.PoolOk) : (s.step e clk a).PoolOk := by
  have hpub : (s.step e clk a).published.Sublist (s.step e clk a).pool.consumed :=
    published_sublist_step a h.sound.inv h.published
  rcases s.step_pool e clk a with hpool | ⟨b, hpool⟩
  · exact ⟨hpool ▸ h.sound, hpub⟩
  · rw [hpool] at hb
    exact ⟨hpool ▸ h.sound.step b hb, hpub⟩

theorem published_le_step (s : LiveAudio T) (a : Act T) :
    s.pool.published.length ≤ (s.step e clk a).pool.published.length := by
  rcases s.step_pool e clk a with hpool | ⟨b, hpool⟩ <;> rw [hpool]
  exact PcmPool.published_le_step s.pool b

variable (e clk) in
theorem log_step (s : LiveAudio T) (a : Act T) :
    (s.step e clk a).pool.log.map Prod.fst = s.pool.log.map Prod.fst ++ s.resampled a := by
  cases a with
  | startChunk => exact s.pool.log_step .startChunk
  | sample x => exact s.pool.log_step (.sample x)
  | demod => exact s.pool.log_step .demod
  | output ok => exact s.pool.log_step .output
  | subscribe =>
    simp only [step, resampled, List.append_nil]
    split_ifs <;> rfl
  | redisListener =>
    simp only [resampled, List.append_nil]
    obtain ⟨_, _, -, -, heq⟩ | heq := s.redisListenerThread_cases <;> simp only [step, heq]
  | _ => exact (List.append_nil _).symm

/-- The samples kept are some of those the demodulator put out. -/
theorem kept_sublist_generated (as : List (Act T)) :
    (run (step e clk) (init T) as).pool.kept.Sublist (generated e clk (init T) as) := by
  have hlog := run_eq_append_gives (f := fun s : LiveAudio T => s.pool.log.map Prod.fst)
    (log_step e clk) as (init T)
  exact (PcmPool.kept_sublist_log _).trans (by rw [hlog]; exact List.Sublist.refl _)

theorem init_inv : (init T).Inv e clk := ⟨⟨rfl, rfl⟩, by simp [init]⟩

theorem run_ok (as : List (Act T)) (s : LiveAudio T)
    (hb : (run (step e clk) s as).pool.published.length < 2 ^ 31) (hp : s.PoolOk)
    (hs : s.Inv e clk) :
    (run (step e clk) s as).PoolOk ∧ (run (step e clk) s as).Inv e clk :=
  run_inv_of_lt (I := fun s : LiveAudio T => s.PoolOk ∧ s.Inv e clk) published_le_step
    (fun _ a hlt h => ⟨step_poolOk a hlt h.1, step_inv h.1.ne_nil a h.2⟩) as s hb ⟨hp, hs⟩

end LiveAudio

end AetherGuard

import AetherGuard.Lib.Framing
import AetherGuard.Wire

/-!
# What the daemon reads of a stream

The relay's frames are a framing of the payloads (`iqFraming`): the count in the header tells where
a frame ends. However the stream is cut into pieces, `recvExact` returns its next bytes while
there are enough (`recvExact_ok`), so one turn of `tcpReader` takes one frame off the stream and
the loop parses it (`tcpReader_parses`).
-/

namespace AetherGuard

variable (e : Endian)

theorem Frame.bytes_eq (f : Frame) :
    f.bytes e = be32 0x49515043 ++ be32 f.numSamples ++ f.payload.flatMap e.bytes16 := by
  rw [Frame.bytes, e.bytes32_htonl, e.bytes32_htonl]

/-- A payload of `count` pairs, from 1 to 65536 of them. -/
def ValidPayload (p : List Int16) : Prop :=
  ∃ count, 1 ≤ count ∧ count ≤ 65536 ∧ p.length = 2 * count

/-- A payload's frame on the wire. -/
def encodePayload (p : List Int16) : List UInt8 := Frame.bytes e ⟨UInt32.ofNat (p.length / 2), p⟩

/-- The payload of the first frame of a stream, if it starts with a whole and good one. -/
def nextPayload (l : List UInt8) : Option (List Int16 × List UInt8) :=
  let count := (ofBe32 ((l.drop 4).take 4)).toNat
  if 8 ≤ l.length ∧ ofBe32 (l.take 4) = 0x49515043 ∧ 1 ≤ count ∧ count ≤ 65536
      ∧ 4 * count ≤ l.length - 8 then
    some (e.int16s ((l.drop 8).take (4 * count)), (l.drop 8).drop (4 * count))
  else none

theorem nextPayload_encode {p : List Int16} (r : List UInt8) (h : ValidPayload p) :
    nextPayload e (encodePayload e p ++ r) = some (p, r) := by
  obtain ⟨count, h1, h2, hlen⟩ := h
  have hc : UInt32.ofNat (p.length / 2) = UInt32.ofNat count := by
    rw [hlen, Nat.mul_div_cancel_left _ (by norm_num)]
  have hn : (UInt32.ofNat count).toNat = count := by
    rw [UInt32.toNat_ofNat']
    omega
  have hb : (p.flatMap e.bytes16).length = 4 * count := by
    rw [e.flatMap_bytes16_length, hlen]
    omega
  have hl : encodePayload e p ++ r
      = be32 0x49515043 ++ (be32 (UInt32.ofNat count) ++ (p.flatMap e.bytes16 ++ r)) := by
    simp only [encodePayload, Frame.bytes_eq, hc, List.append_assoc]
  have h4 : ∀ (x : UInt32) (l : List UInt8),
      (be32 x ++ l).take 4 = be32 x ∧ (be32 x ++ l).drop 4 = l :=
    fun x l => ⟨List.take_left' (be32_length x), List.drop_left' (be32_length x)⟩
  have h8 : (encodePayload e p ++ r).drop 8 = p.flatMap e.bytes16 ++ r := by
    rw [hl, show 8 = 4 + 4 from rfl, ← List.drop_drop, (h4 _ _).2, (h4 _ _).2]
  have hlen8 : (encodePayload e p ++ r).length = 8 + 4 * count + r.length := by
    rw [hl]
    simp only [List.length_append, be32_length, hb]
    omega
  have hcount : ofBe32 (((encodePayload e p ++ r).drop 4).take 4) = UInt32.ofNat count := by
    rw [hl, (h4 _ _).2, (h4 _ _).1, ofBe32_be32]
  have hmagic : ofBe32 ((encodePayload e p ++ r).take 4) = 0x49515043 := by
    rw [hl, (h4 _ _).1, ofBe32_be32]
  simp only [nextPayload, hcount, hmagic, hn, h8, hlen8]
  rw [if_pos ⟨by omega, trivial, h1, h2, by omega⟩, List.take_left' hb, List.drop_left' hb,
    e.int16s_flatMap_bytes16]

theorem of_nextPayload {l r : List UInt8} {p : List Int16}
    (h : nextPayload e l = some (p, r)) : ValidPayload p ∧ l = encodePayload e p ++ r := by
  simp only [nextPayload] at h
  split_ifs at h with hc
  obtain ⟨h8, hmagic, h1, h2, h4⟩ := hc
  simp only [Option.some.injEq, Prod.mk.injEq] at h
  obtain ⟨rfl, rfl⟩ := h
  set count := (ofBe32 ((l.drop 4).take 4)).toNat with hcount
  obtain ⟨himg, hlen⟩ := e.flatMap_bytes16_int16s (2 * count)
    (l := (l.drop 8).take (4 * count)) (by simp only [List.length_take, List.length_drop]; omega)
  refine ⟨⟨count, h1, h2, hlen⟩, ?_⟩
  have hw : UInt32.ofNat (2 * count / 2) = ofBe32 ((l.drop 4).take 4) := by
    rw [Nat.mul_div_cancel_left _ (by norm_num), hcount, UInt32.ofNat_toNat]
  have hm : be32 0x49515043 = l.take 4 := by
    rw [← hmagic, be32_ofBe32 (by simp only [List.length_take]; omega)]
  rw [encodePayload, Frame.bytes_eq, himg, hlen, hw, hm,
    be32_ofBe32 (by simp only [List.length_take, List.length_drop]; omega), List.append_assoc,
    List.take_append_drop, List.append_assoc, show 8 = 4 + 4 from rfl, ← List.drop_drop,
    List.take_append_drop, List.take_append_drop]

/-- The relay's framing of payloads. -/
def iqFraming : Framing UInt8 (List Int16) where
  Valid := ValidPayload
  encode := encodePayload e
  next := nextPayload e
  next_encode _ r h := nextPayload_encode e r h
  of_next h := of_nextPayload e h

/-! ## Reading through `recv` -/

theorem recv_pieces {sock : Socket} (h : ∀ p ∈ sock, p ≠ []) (n : ℕ) :
    ∀ p ∈ (recv sock n).2, p ≠ [] := by
  rcases sock with _ | ⟨p, ps⟩
  · simp [recv]
  · intro q hq
    simp only [recv] at hq
    split_ifs at hq with hle
    · exact h q (by simp [hq])
    · simp only [List.mem_cons] at hq
      rcases hq with rfl | hq
      · rw [← List.length_pos_iff, List.length_drop]
        omega
      · exact h q (by simp [hq])

theorem recv_eq_nil {sock : Socket} (h : ∀ p ∈ sock, p ≠ []) {n : ℕ} (hn : n ≠ 0)
    (hr : (recv sock n).1 = []) : sock = [] := by
  rcases sock with _ | ⟨p, ps⟩
  · rfl
  · have := h p (by simp)
    rw [recv, List.take_eq_nil_iff] at hr
    rcases hr with hr | hr
    · exact absurd hr hn
    · exact absurd hr this

theorem recvExact_pieces (sock : Socket) (n : ℕ) (h : ∀ p ∈ sock, p ≠ []) :
    ∀ p ∈ (recvExact sock n).sock, p ≠ [] := by
  fun_induction recvExact sock n with
  | case1 sock => exact h
  | case2 sock n hn hr => exact recv_pieces h n
  | case3 sock n hn hr rest ih => exact ih (recv_pieces h n)

/-- `recvExact` succeeds exactly when the bytes are there, however they are cut. -/
theorem recvExact_ok (sock : Socket) (n : ℕ) (h : ∀ p ∈ sock, p ≠ []) :
    (recvExact sock n).ok = true ↔ n ≤ sock.flatten.length := by
  fun_induction recvExact sock n with
  | case1 sock => simp
  | case2 sock n hn hr =>
    rw [recv_eq_nil h hn hr]
    simp
    omega
  | case3 sock n hn hr rest ih =>
    have hlen := congrArg List.length (recv_flatten sock n)
    have hle := recv_length_le sock n
    rw [List.length_append] at hlen
    refine (ih (recv_pieces h n)).trans ?_
    omega

theorem recvExact_fail (sock : Socket) (n : ℕ) (h : ∀ p ∈ sock, p ≠ [])
    (hf : (recvExact sock n).ok = false) : (recvExact sock n).sock.flatten = [] := by
  fun_induction recvExact sock n with
  | case1 sock => simp at hf
  | case2 sock n hn hr =>
    rw [recv_eq_nil h hn hr]
    rfl
  | case3 sock n hn hr rest ih => exact ih (recv_pieces h n) hf

theorem recvExact_split {sock : Socket} {n : ℕ} (h : (recvExact sock n).ok = true) :
    (recvExact sock n).buf = sock.flatten.take n
      ∧ (recvExact sock n).sock.flatten = sock.flatten.drop n := by
  have hlen := recvExact_buf_length sock n h
  rw [← recvExact_flatten sock n, List.take_left' hlen, List.drop_left' hlen]
  exact ⟨rfl, rfl⟩

/-- The header words are the first two of the stream, in network order. -/
theorem recvExact_header {sock : Socket} (h : ∀ p ∈ sock, p ≠ [])
    (hok : (recvExact sock 8).ok = true) :
    8 ≤ sock.flatten.length
      ∧ e.ntohl (e.word32 ((recvExact sock 8).buf.take 4)) = ofBe32 (sock.flatten.take 4)
      ∧ e.ntohl (e.word32 ((recvExact sock 8).buf.drop 4))
        = ofBe32 ((sock.flatten.drop 4).take 4)
      ∧ (recvExact sock 8).sock.flatten = sock.flatten.drop 8 := by
  have h8 := (recvExact_ok sock 8 h).1 hok
  obtain ⟨hbuf, hsock⟩ := recvExact_split hok
  refine ⟨h8, ?_, ?_, hsock⟩
  · rw [hbuf, List.take_take, e.ntohl_word32 (by simp only [List.length_take]; omega)]
    rfl
  · rw [hbuf, List.drop_take, e.ntohl_word32 (by
      simp only [List.length_take, List.length_drop]; omega)]

theorem count_range {n : UInt32} (h : ¬ (n = 0 ∨ n > 65536)) :
    1 ≤ n.toNat ∧ n.toNat ≤ 65536 ∧ (n * 2).toNat * 2 = 4 * n.toNat := by
  have h0 : n.toNat ≠ 0 := fun h0 => h (.inl (UInt32.toNat_inj.1 h0))
  have hle : n.toNat ≤ 65536 := by
    by_contra hgt
    exact h (.inr (UInt32.lt_iff_toNat_lt.2 (not_le.1 hgt)))
  refine ⟨by omega, hle, ?_⟩
  rw [UInt32.toNat_mul]
  simp only [UInt32.toNat_ofNat]
  omega

theorem nextPayload_eq_none {l : List UInt8}
    (h : ¬ (8 ≤ l.length ∧ ofBe32 (l.take 4) = 0x49515043
      ∧ 1 ≤ (ofBe32 ((l.drop 4).take 4)).toNat ∧ (ofBe32 ((l.drop 4).take 4)).toNat ≤ 65536
      ∧ 4 * (ofBe32 ((l.drop 4).take 4)).toNat ≤ l.length - 8)) : nextPayload e l = none :=
  if_neg h

/-- The loop takes the frames off the stream one by one; with fewer bytes left than a header it
ends having read them all. -/
theorem tcpReader_parses (sock : Socket) (h : ∀ p ∈ sock, p ≠ []) :
    ∃ r, (iqFraming e).Parses sock.flatten (tcpReader e sock).fed r
      ∧ (r.length < 8 →
        (tcpReader e sock).exit = .headerRead ∧ (tcpReader e sock).sock.flatten = []) := by
  fun_induction tcpReader e sock with
  | case1 sock header hf =>
    have hlt : ¬ 8 ≤ sock.flatten.length := by
      rw [← recvExact_ok sock 8 h]
      simp [show (recvExact sock 8).ok = false from hf]
    exact ⟨_, .stop (nextPayload_eq_none e fun hc => hlt hc.1),
      fun _ => ⟨rfl, recvExact_fail sock 8 h hf⟩⟩
  | case2 sock header magic hok hmagic =>
    obtain ⟨h8, hm, -, -⟩ := recvExact_header e h (by simpa using hok)
    exact ⟨_, .stop (nextPayload_eq_none e fun hc => hmagic (hm.trans hc.2.1)),
      fun hlt => by omega⟩
  | case3 sock header magic numSamples hok hmagic hcount =>
    obtain ⟨h8, -, hn, -⟩ := recvExact_header e h (by simpa using hok)
    refine ⟨_, .stop (nextPayload_eq_none e fun hc => ?_), fun hlt => by omega⟩
    obtain ⟨-, -, h1, h2, -⟩ := hc
    rw [← hn] at h1 h2
    change 1 ≤ numSamples.toNat at h1
    change numSamples.toNat ≤ 65536 at h2
    rcases hcount with h0 | hgt
    · rw [h0] at h1
      exact absurd h1 (by decide)
    · exact absurd h2 (not_le.2 (UInt32.lt_iff_toNat_lt.1 hgt))
  | case4 sock header magic numSamples hok hmagic hcount payload hf =>
    have hok' : (recvExact sock 8).ok = true := by simpa using hok
    obtain ⟨h8, -, hn, hsock⟩ := recvExact_header e h hok'
    obtain ⟨h1, h2, h4⟩ := count_range hcount
    refine ⟨_, .stop (nextPayload_eq_none e fun hc => ?_), fun hlt => by omega⟩
    have hshort := (recvExact_ok header.sock _ (recvExact_pieces sock 8 h)).not.1
      (by simpa using hf)
    apply hshort
    rw [hsock, List.length_drop, h4]
    have := hc.2.2.2.2
    rw [← hn] at this
    exact this
  | case5 sock header magic numSamples hok hmagic hcount payload hp rest ih =>
    have hok' : (recvExact sock 8).ok = true := by simpa using hok
    have hpok : payload.ok = true := by simpa using hp
    obtain ⟨h8, hm, hn, hsock⟩ := recvExact_header e h hok'
    obtain ⟨h1, h2, h4⟩ := count_range hcount
    have hpieces := recvExact_pieces sock 8 h
    obtain ⟨r, hr, hexit⟩ := ih (recvExact_pieces header.sock _ hpieces)
    have hlen := (recvExact_ok header.sock _ hpieces).1 hpok
    obtain ⟨hbuf, hrest⟩ := recvExact_split hpok
    have hmag : magic = 0x49515043 := not_not.1 hmagic
    rw [hsock, List.length_drop, h4] at hlen
    rw [hsock] at hbuf hrest
    refine ⟨r, .frame (r := payload.sock.flatten) ?_ hr, hexit⟩
    change nextPayload e sock.flatten = some (e.int16s payload.buf, payload.sock.flatten)
    rw [show payload.buf = _ from hbuf, show payload.sock.flatten = _ from hrest, h4]
    simp only [nextPayload, ← hn, ← hm]
    exact if_pos ⟨h8, hmag, h1, h2, hlen⟩

/-- A slot of 1 to 16384 pairs is sent as a good frame of its payload. -/
theorem payload_valid {slot : RelaySlot}
    (h : 1 ≤ slot.numSamples.toNat ∧ slot.numSamples.toNat ≤ 16384) :
    ValidPayload slot.frame.payload
      ∧ slot.frame.bytes e = encodePayload e slot.frame.payload := by
  obtain ⟨h1, h2⟩ := h
  have htwo : (slot.numSamples * 2).toNat = 2 * slot.numSamples.toNat := by
    rw [UInt32.toNat_mul]
    simp only [UInt32.toNat_ofNat]
    omega
  have hlen : slot.frame.payload.length = 2 * slot.numSamples.toNat := by
    simp only [RelaySlot.frame, List.length_take, Vector.length_toList, htwo]
    simp only [slotSamples]
    omega
  refine ⟨⟨slot.numSamples.toNat, h1, by omega, hlen⟩, ?_⟩
  rw [encodePayload, hlen, Nat.mul_div_cancel_left _ (by norm_num), UInt32.ofNat_toNat]
  rfl

/-- However the bytes are cut into pieces: from the frames of a list of slots the daemon feeds
exactly their payloads, in order, and reads every byte; from any stream at all it feeds the
payloads of the longest run of whole good frames the stream starts with. -/
theorem tcpReader_feeds (pieces : Socket) (h : ∀ p ∈ pieces, p ≠ []) :
    (∀ slots : List RelaySlot,
        (∀ slot ∈ slots, 1 ≤ slot.numSamples.toNat ∧ slot.numSamples.toNat ≤ 16384) →
        pieces.flatten = slots.flatMap (fun slot => slot.frame.bytes e) →
        (tcpReader e pieces).fed = slots.map (fun slot => slot.frame.payload)
          ∧ (tcpReader e pieces).exit = .headerRead
          ∧ (tcpReader e pieces).sock.flatten = [])
      ∧ ∃ rest, (iqFraming e).IsLongest pieces.flatten (tcpReader e pieces).fed rest := by
  obtain ⟨r, hr, hexit⟩ := tcpReader_parses e pieces h
  refine ⟨fun slots hslots hflat => ?_, r, hr.longest⟩
  have henc : ∀ slot ∈ slots, ValidPayload slot.frame.payload
      ∧ slot.frame.bytes e = encodePayload e slot.frame.payload :=
    fun slot hs => payload_valid e (hslots slot hs)
  have hstream : pieces.flatten
      = (slots.map fun slot => slot.frame.payload).flatMap (encodePayload e) := by
    rw [hflat, List.flatMap_map]
    exact List.flatMap_congr fun slot hs => (henc slot hs).2
  have hall := Framing.parses_encode (F := iqFraming e) rfl
    (slots.map fun slot => slot.frame.payload) (by
      simp only [List.mem_map]
      rintro p ⟨slot, hs, rfl⟩
      exact (henc slot hs).1)
  rw [hstream] at hr
  obtain ⟨hfed, rfl⟩ := hr.unique hall
  exact ⟨hfed, hexit (by simp)⟩

theorem tcpReader_feeds_two_pieces :
    (tcpReader .little [[0x49, 0x51, 0x50], [0x43, 0, 0, 0, 1, 7, 0, 7, 0]]).fed = [[7, 7]] := by
  have h := ((tcpReader_feeds .little [[0x49, 0x51, 0x50], [0x43, 0, 0, 0, 1, 7, 0, 7, 0]]
    (by decide)).1 [⟨Vector.replicate _ 7, 1, true⟩] (by decide) rfl).1
  exact h.trans rfl

end AetherGuard

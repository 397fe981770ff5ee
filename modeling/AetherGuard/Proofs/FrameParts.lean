import AetherGuard.Proofs.Wire

/-!
# Reading a part of a stream of good frames

What has come in on a connection is a part of what was sent, cut off anywhere. The reader takes the
frames that are whole off it (`fed_head`), and what stops it is that there is no more: the headers
it sees are those of the frames sent (`exit_of_part`).
-/

namespace AetherGuard

variable (e : Endian)

theorem tcpReader_empty : (tcpReader e [[]]).fed = [] ∧ (tcpReader e [[]]).exit = .headerRead := by
  have hempty : (recvExact [[]] 8).ok = false := by
    rw [recvExact]
    rfl
  rw [tcpReader, if_pos hempty]
  exact ⟨rfl, rfl⟩

/-- The first payload read from what has come in is that of the first frame. -/
theorem nextPayload_of_fed {l : List UInt8} {p : List Int16} {ps : List (List Int16)}
    (h : (tcpReader e [l]).fed = p :: ps) : ∃ r, nextPayload e l = some (p, r) := by
  by_cases hl : l = []
  · rw [hl, (tcpReader_empty e).1] at h
    exact absurd h (by simp)
  · obtain ⟨r, hr, -⟩ := tcpReader_parses e [l] (by simpa using hl)
    rw [h, List.flatten_singleton] at hr
    cases hr with
    | frame hnext _ => exact ⟨_, hnext⟩

theorem length_encodePayload (p : List Int16) : (encodePayload e p).length = 8 + 2 * p.length := by
  simp only [encodePayload, Frame.bytes_eq, List.length_append, be32_length,
    e.flatMap_bytes16_length]

/-- Eight bytes of a stream of good frames are the header of its first frame. -/
theorem header_of_part {l t : List UInt8} {qs : List (List Int16)} (h8 : 8 ≤ l.length)
    (hq : ∀ q ∈ qs, ValidPayload q) (hl : l ++ t = qs.flatMap (encodePayload e)) :
    ∃ q qs', qs = q :: qs' ∧ ofBe32 (l.take 4) = iqHeaderMagic
      ∧ q.length = 2 * (ofBe32 ((l.drop 4).take 4)).toNat
      ∧ 1 ≤ (ofBe32 ((l.drop 4).take 4)).toNat
      ∧ (ofBe32 ((l.drop 4).take 4)).toNat ≤ 65536 := by
  rcases qs with _ | ⟨q, qs'⟩
  · have hnil := congrArg List.length hl
    rw [List.length_append, List.flatMap_nil, List.length_nil] at hnil
    omega
  · obtain ⟨count, h1, h2, hlen⟩ := hq q List.mem_cons_self
    rw [List.flatMap_cons, encodePayload, Frame.bytes_eq, List.append_assoc,
      List.append_assoc] at hl
    have hmagic : l.take 4 = be32 0x49515043 := by
      rw [← List.take_append_of_le_length (by omega), hl, List.take_left' (be32_length _)]
    have hcount : (l.drop 4).take 4 = be32 (UInt32.ofNat (q.length / 2)) := by
      have hdrop := congrArg (List.drop 4) hl
      rw [List.drop_append_of_le_length (by omega), List.drop_left' (be32_length _)] at hdrop
      rw [← List.take_append_of_le_length (by rw [List.length_drop]; omega), hdrop,
        List.take_left' (be32_length _)]
    have hnat : (UInt32.ofNat (q.length / 2)).toNat = count := by
      rw [UInt32.toNat_ofNat']
      omega
    refine ⟨q, qs', rfl, ?_⟩
    rw [hmagic, hcount, ofBe32_be32, ofBe32_be32, hnat]
    exact ⟨rfl, hlen, h1, h2⟩

/-- On a part of a stream of good frames the reader finds nothing wrong with a header. -/
theorem exit_of_part (sock : Socket) (h : ∀ p ∈ sock, p ≠ []) {qs : List (List Int16)}
    (hq : ∀ q ∈ qs, ValidPayload q) {t : List UInt8}
    (hl : sock.flatten ++ t = qs.flatMap (encodePayload e)) :
    (tcpReader e sock).exit = .headerRead ∨ (tcpReader e sock).exit = .payloadRead := by
  fun_induction tcpReader e sock generalizing qs
  case case1 => exact .inl rfl
  case case2 hok hmagic =>
    obtain ⟨h8, hm, -, -⟩ := recvExact_header e h (by simpa using hok)
    obtain ⟨q, qs', -, hmagic', -⟩ := header_of_part e h8 hq hl
    exact absurd (hm.trans hmagic') hmagic
  case case3 hok _ hcount =>
    obtain ⟨h8, -, hn, -⟩ := recvExact_header e h (by simpa using hok)
    obtain ⟨q, qs', -, -, -, h1, h2⟩ := header_of_part e h8 hq hl
    rw [← hn] at h1 h2
    rcases hcount with h0 | hgt
    · exact absurd (congrArg UInt32.toNat h0) (Nat.ne_of_gt h1)
    · exact absurd (UInt32.lt_iff_toNat_lt.1 hgt) (not_lt.2 h2)
  case case4 => exact .inr rfl
  case case5 sock header _ numSamples hok _ hcount payload hp _ ih =>
    have hheader : header.ok = true := by simpa using hok
    have hpayload : payload.ok = true := by simpa using hp
    obtain ⟨h8, -, hn, hsock⟩ := recvExact_header e h hheader
    obtain ⟨q, qs', rfl, -, hlen, -⟩ := header_of_part e h8 hq hl
    obtain ⟨-, -, h4⟩ := count_range hcount
    have hpieces := recvExact_pieces sock 8 h
    have hle : (numSamples * 2).toNat * 2 ≤ header.sock.flatten.length :=
      (recvExact_ok header.sock _ hpieces).1 hpayload
    have hrest : payload.sock.flatten = header.sock.flatten.drop ((numSamples * 2).toNat * 2) :=
      (recvExact_split hpayload).2
    have hsock' : header.sock.flatten = sock.flatten.drop 8 := hsock
    rw [← show numSamples = _ from hn] at hlen
    rw [h4, hsock', List.length_drop] at hle
    rw [h4, hsock', List.drop_drop] at hrest
    have hskip : 8 + 4 * numSamples.toNat = 8 + 2 * q.length := by omega
    refine ih (recvExact_pieces _ _ hpieces) (fun p hp' => hq p (List.mem_cons_of_mem _ hp')) ?_
    have hdrop := congrArg (List.drop (8 + 2 * q.length)) hl
    rw [List.flatMap_cons, List.drop_left' (length_encodePayload e q),
      List.drop_append_of_le_length (by omega)] at hdrop
    rw [hrest, hskip, hdrop]

/-- From a part of a stream of good frames, a first payload is that of its first frame. -/
theorem fed_head {l : List UInt8} {p : List Int16} {ps qs : List (List Int16)}
    (hq : ∀ q ∈ qs, ValidPayload q) (hl : l <+: qs.flatMap (encodePayload e))
    (h : (tcpReader e [l]).fed = p :: ps) : ∃ qs', qs = p :: qs' := by
  obtain ⟨r, hr⟩ := nextPayload_of_fed e h
  obtain ⟨hvalid, rfl⟩ := of_nextPayload e hr
  obtain ⟨t, ht⟩ := hl
  rw [List.append_assoc] at ht
  rcases qs with _ | ⟨q, qs⟩
  · have hnil := congrArg (nextPayload e) ht
    rw [nextPayload_encode e _ hvalid] at hnil
    exact absurd hnil (by simp [nextPayload])
  · have hnext := congrArg (nextPayload e) ht
    rw [nextPayload_encode e _ hvalid, List.flatMap_cons,
      nextPayload_encode e _ (hq q List.mem_cons_self)] at hnext
    simp only [Option.some.injEq, Prod.mk.injEq] at hnext
    exact ⟨qs, by rw [hnext.1]⟩

theorem fed_encodePayload {p : List Int16} (h : ValidPayload p) :
    (tcpReader e [encodePayload e p]).fed = [p] := by
  have hne : encodePayload e p ≠ [] := by
    intro hnil
    have hlen := length_encodePayload e p
    rw [hnil, List.length_nil] at hlen
    omega
  obtain ⟨r, hr, -⟩ := tcpReader_parses e [encodePayload e p] (by simpa using hne)
  have hall := Framing.parses_encode (F := iqFraming e) rfl [p]
    fun q hq => (List.mem_singleton.1 hq) ▸ h
  rw [List.flatten_singleton] at hr
  rw [List.flatMap_singleton] at hall
  exact (hr.unique hall).1

end AetherGuard

import AetherGuard.WavReader

/-!
# What the WAV reader returns

Everything `read_wav` does is decided by three fields at fixed places and by the length of the file.
The number of samples is never negative where it is used, since the divisor is then two at least.
The division and the reads are another matter: they are safe exactly when the two fields of the
divisor are there and large enough, and a file that passes for 16-bit sound has all the samples its
header announces.
-/

namespace AetherGuard

namespace WavReader

variable {junk : Junk} {content : Bytes} {h : Header}

/-! ### The three ways through -/

theorem field16_toNat (b : ℕ → UInt8) (i : ℕ) :
    (field16 b i).toNat = (b i).toNat + 2 ^ 8 * (b (i + 1)).toNat :=
  Endian.int16_toUInt16_toNat _ _

theorem field32_toNat (b : ℕ → UInt8) (i : ℕ) :
    (field32 b i).toNat = (b i).toNat + 2 ^ 8 * (b (i + 1)).toNat + 2 ^ 16 * (b (i + 2)).toNat
      + 2 ^ 24 * (b (i + 3)).toNat :=
  Endian.word32_toNat _ _ _ _

/-- The number of frames the header announces, for 16-bit sound. -/
def announced (h : Header) : ℕ := h.dataSize.toNat / (2 * h.channels.toNat)

theorem numSamples_eq_none_iff :
    numSamples h = none ↔ h.channels = 0 ∨ h.bitsPerSample.toNat < 8 := by
  have hzero : h.channels.toNat = 0 ↔ h.channels = 0 := by
    rw [← UInt16.toNat_inj]
    rfl
  unfold numSamples
  simp only [ite_eq_left_iff, reduceCtorEq, imp_false, not_not, Nat.mul_eq_zero, hzero,
    Nat.div_eq_zero_iff, OfNat.ofNat_ne_zero, false_or]

/-- With 16 bits per sample the divisor is two at least, so the count fits an `int`. -/
theorem numSamples_of_16 (hc : h.channels ≠ 0) (hb : h.bitsPerSample = 16) :
    numSamples h = some (announced h : ℤ) := by
  have hpos : 0 < h.channels.toNat := by
    rw [Nat.pos_iff_ne_zero]
    exact fun hz => hc (UInt16.toNat_inj.1 hz)
  have hdiv : h.channels.toNat * (h.bitsPerSample.toNat / 8) = 2 * h.channels.toNat := by
    rw [hb]
    show h.channels.toNat * 2 = _
    omega
  have hlt : announced h < 2 ^ 31 := by
    have hsize := h.dataSize.toNat_lt
    refine Nat.div_lt_of_lt_mul ?_
    calc h.dataSize.toNat < 2 * 1 * 2 ^ 31 := hsize
      _ ≤ 2 * h.channels.toNat * 2 ^ 31 := by gcongr; omega
  unfold numSamples
  simp only [hdiv]
  rw [if_neg (by omega), Option.some.injEq]
  have hnonneg : (0 : ℤ) ≤ announced h := Int.natCast_nonneg _
  exact Int.bmod_eq_of_le (le_trans (by norm_num) hnonneg) (by exact_mod_cast hlt)

/-- The header as it is read from a file. -/
def headerOf (junk : ℕ → UInt8) (content : Bytes) : Header :=
  wavHeader (overlay (content.take 44) junk)

theorem readWav_eq (junk : Junk) (content : Bytes) :
    readWav junk (some content) =
      match numSamples (headerOf junk.header content) with
      | none => .divisionByZero
      | some n =>
        if (headerOf junk.header content).bitsPerSample ≠ 16 then .failed
        else if n < 0 then .badSize n
        else .read (readSamples junk.sample ((headerOf junk.header content).channels == 2) n.toNat 0
          ⟨content.drop 44, 44 ≤ content.length⟩) := rfl

theorem readWav_divisionByZero (hz : (headerOf junk.header content).channels = 0
    ∨ (headerOf junk.header content).bitsPerSample.toNat < 8) :
    readWav junk (some content) = .divisionByZero := by
  rw [readWav_eq, numSamples_eq_none_iff.2 hz]

theorem readWav_failed (hc : (headerOf junk.header content).channels ≠ 0)
    (hb : 8 ≤ (headerOf junk.header content).bitsPerSample.toNat)
    (hne : (headerOf junk.header content).bitsPerSample ≠ 16) :
    readWav junk (some content) = .failed := by
  have hsome : numSamples (headerOf junk.header content) ≠ none := by
    rw [Ne, numSamples_eq_none_iff]
    rintro (hz | hlt)
    · exact hc hz
    · omega
  obtain ⟨n, hn⟩ := Option.ne_none_iff_exists'.1 hsome
  rw [readWav_eq, hn]
  exact if_pos hne

theorem readWav_read (hc : (headerOf junk.header content).channels ≠ 0)
    (hb : (headerOf junk.header content).bitsPerSample = 16) :
    readWav junk (some content) =
      .read (readSamples junk.sample ((headerOf junk.header content).channels == 2)
        (announced (headerOf junk.header content)) 0 ⟨content.drop 44, 44 ≤ content.length⟩) := by
  rw [readWav_eq, numSamples_of_16 hc hb]
  simp [hb]

theorem readWav_ne_badSize (junk : Junk) (content : Bytes) (n : ℤ) :
    readWav junk (some content) ≠ .badSize n := by
  by_cases hz : (headerOf junk.header content).channels = 0
      ∨ (headerOf junk.header content).bitsPerSample.toNat < 8
  · simp [readWav_divisionByZero hz]
  · obtain ⟨hc, hb⟩ := not_or.1 hz
    by_cases h16 : (headerOf junk.header content).bitsPerSample = 16
    · simp [readWav_read hc h16]
    · simp [readWav_failed hc (not_lt.1 hb) h16]

/-! ### Reads past the end -/

/-- The bytes of a frame, as far as the reader goes. -/
def stride (stereo : Bool) : ℕ := if stereo then 4 else 2

theorem read_good (l : Bytes) (n : ℕ) :
    Stream.read ⟨l, true⟩ n = (l.take n, ⟨l.drop n, n ≤ l.length⟩) := rfl

theorem read_bad (l : Bytes) (n : ℕ) : Stream.read ⟨l, false⟩ n = ([], ⟨l, false⟩) := rfl

/-- The stream after a sample, and the skipped one, of a good stream. -/
theorem after_frame {l : Bytes} (stereo : Bool) (hl : 2 ≤ l.length) :
    (if stereo then (Stream.read (Stream.read ⟨l, true⟩ 2).2 2).2 else (Stream.read ⟨l, true⟩ 2).2)
      = ⟨l.drop (stride stereo), stride stereo ≤ l.length⟩ := by
  cases stereo with
  | false => simp [read_good, stride]
  | true =>
    have hgood : decide (2 ≤ l.length) = true := by simpa using hl
    simp only [if_true, read_good, hgood, stride, List.drop_drop, List.length_drop]
    congr 2
    simp only [eq_iff_iff]
    omega

theorem readSamples_bad_iff (junk : ℕ → ℕ → UInt8) (stereo : Bool) (n i : ℕ) (l : Bytes) :
    (∀ x ∈ readSamples junk stereo n i ⟨l, false⟩, x.fromFile = true) ↔ n = 0 := by
  cases n with
  | zero => simp [readSamples]
  | succ n => simp [readSamples, read_bad]

/-- Behind a whole frame there is room up to the last sample, or no sample is left. -/
theorem room_after_frame_iff {k n len : ℕ} (hlong : 2 ≤ len) (hmore : k ≤ len) :
    k * n + 2 ≤ len ↔ n = 0 ∨ k * (n - 1) + 2 ≤ len - k := by
  cases n with
  | zero => simpa using hlong
  | succ n =>
    rw [Nat.mul_succ, Nat.add_sub_cancel]
    omega

/-- Without a whole frame there is room for its first sample only. -/
theorem room_in_last_frame_iff {k n len : ℕ} (hlong : 2 ≤ len) (hlast : len < k) :
    k * n + 2 ≤ len ↔ n = 0 := by
  cases n with
  | zero => simpa using hlong
  | succ n =>
    rw [Nat.mul_succ]
    omega

/-- All samples are read from the file exactly when the last one lies within it. -/
theorem readSamples_fromFile_iff (junk : ℕ → ℕ → UInt8) (stereo : Bool) (n : ℕ) :
    ∀ (i : ℕ) (l : Bytes),
    (∀ x ∈ readSamples junk stereo n i ⟨l, true⟩, x.fromFile = true) ↔
      n = 0 ∨ stride stereo * (n - 1) + 2 ≤ l.length := by
  induction n with
  | zero => simp [readSamples]
  | succ n ih =>
    intro i l
    have hfirst : ((Stream.read ⟨l, true⟩ 2).1.length == 2) = true ↔ 2 ≤ l.length := by
      simp [read_good]
    rw [readSamples, List.forall_mem_cons, hfirst, or_iff_right (Nat.succ_ne_zero n),
      Nat.add_sub_cancel]
    rcases Nat.lt_or_ge l.length 2 with hshort | hlong
    · exact iff_of_false (fun hall => by omega) (by omega)
    rw [after_frame stereo hlong, and_iff_right hlong]
    rcases Nat.lt_or_ge l.length (stride stereo) with hlast | hmore
    · -- the file ends in the skipped sample: only the first frame can be read
      have hbad : decide (stride stereo ≤ l.length) = false := by simpa using hlast
      rw [hbad, readSamples_bad_iff, room_in_last_frame_iff hlong hlast]
    · have hgood : decide (stride stereo ≤ l.length) = true := by simpa using hmore
      rw [hgood, ih, List.length_drop, room_after_frame_iff hlong hmore]

/-! ### Safety on any content -/

/-- No division by zero, no negative size, and no sample that was not read. -/
def Outcome.Safe : Outcome → Prop
  | .divisionByZero => False
  | .failed => True
  | .badSize _ => False
  | .read samples => ∀ x ∈ samples, x.fromFile = true

def noJunk : Junk := ⟨fun _ => 0, fun _ _ => 0⟩

/-- The header with zeros for the bytes that the file does not have. -/
def zeroFilled (content : Bytes) : Header := headerOf noJunk.header content

/-- The divisor's fields are there and large enough, and a file of 16 bits per sample has a whole
header and all the samples it announces. -/
def SafeContent (content : Bytes) : Prop :=
  (zeroFilled content).channels ≠ 0 ∧ 8 ≤ (zeroFilled content).bitsPerSample.toNat ∧
  ((zeroFilled content).bitsPerSample = 16 → 44 ≤ content.length ∧
    (announced (zeroFilled content) = 0 ∨
      44 + stride ((zeroFilled content).channels == 2) * (announced (zeroFilled content) - 1) + 2
        ≤ content.length))

instance (content : Bytes) : Decidable (SafeContent content) :=
  inferInstanceAs (Decidable (_ ∧ _ ∧ (_ → _)))

/-- A byte of the zero-filled header is the one that is read, or zero. -/
theorem overlay_zero_or (got : Bytes) (junk : ℕ → UInt8) (j : ℕ) :
    overlay got noJunk.header j = overlay got junk j ∨ overlay got noJunk.header j = 0 := by
  unfold overlay
  cases got[j]? <;> simp [noJunk]

theorem headerOf_eq_zeroFilled (hl : 44 ≤ content.length) (junk : ℕ → UInt8) :
    headerOf junk content = zeroFilled content := by
  have hbyte : ∀ j, j < 44 → overlay (content.take 44) junk j
      = overlay (content.take 44) noJunk.header j := by
    intro j hj
    simp [overlay, List.getElem?_eq_getElem (show j < (content.take 44).length by simp; omega)]
  simp only [headerOf, zeroFilled, wavHeader, field16, field32]
  simp (disch := omega) only [hbyte]

/-- Bytes the file does not have can only make a field larger, and one that is eight at least
without them is not made 16 by them. -/
theorem field16_zeroFilled (got : Bytes) (junk : ℕ → UInt8) (i : ℕ) :
    (field16 (overlay got noJunk.header) i).toNat ≤ (field16 (overlay got junk) i).toNat ∧
    (8 ≤ (field16 (overlay got noJunk.header) i).toNat → (field16 (overlay got junk) i).toNat = 16 →
      (field16 (overlay got noJunk.header) i).toNat = 16) := by
  have hzero : (0 : UInt8).toNat = 0 := rfl
  simp only [field16_toNat]
  rcases overlay_zero_or got junk i with hlow | hlow <;>
    rcases overlay_zero_or got junk (i + 1) with hhigh | hhigh <;>
    rw [hlow, hhigh] <;> omega

theorem channels_ne_zero_of_zeroFilled (hc : (zeroFilled content).channels ≠ 0) (junk : ℕ → UInt8) :
    (headerOf junk content).channels ≠ 0 := by
  have hle := (field16_zeroFilled (content.take 44) junk 22).1
  intro hz
  refine hc (UInt16.toNat_inj.1 (Nat.le_zero.1 (hle.trans ?_)))
  exact (congrArg UInt16.toNat hz).le

theorem toNat_eq_16_iff {x : UInt16} : x.toNat = 16 ↔ x = 16 := by
  rw [← UInt16.toNat_inj]
  rfl

theorem safe_of_safeContent (hs : SafeContent content) (junk : Junk) :
    (readWav junk (some content)).Safe := by
  obtain ⟨hc, hb, hdata⟩ := hs
  obtain ⟨hle, h16⟩ := field16_zeroFilled (content.take 44) junk.header 34
  have hc' := channels_ne_zero_of_zeroFilled hc junk.header
  by_cases hbits : (headerOf junk.header content).bitsPerSample = 16
  · obtain ⟨hl, hlast⟩ := hdata (toNat_eq_16_iff.1 (h16 hb (toNat_eq_16_iff.2 hbits)))
    have hgood : decide (44 ≤ content.length) = true := by simpa using hl
    rw [readWav_read hc' hbits, headerOf_eq_zeroFilled hl, hgood]
    refine (readSamples_fromFile_iff _ _ _ _ _).2 (hlast.imp_right fun hlen => ?_)
    rw [List.length_drop]
    omega
  · rw [readWav_failed hc' (hb.trans hle) hbits]
    trivial

/-- Junk that makes the size of the data as large as can be, and nothing else. -/
def largeSize : Junk := ⟨fun j => if j < 40 then 0 else 255, fun _ _ => 0⟩

/-- A header that ends before its last byte may announce any number of samples, and none can
be read. -/
theorem not_safe_of_short (hc : (zeroFilled content).channels ≠ 0)
    (hb : (zeroFilled content).bitsPerSample = 16) (hl : content.length < 44) :
    ¬ (readWav largeSize (some content)).Safe := by
  have hsame : ∀ j, j < 40 → overlay (content.take 44) largeSize.header j
      = overlay (content.take 44) noJunk.header j := by
    intro j hj
    simp [overlay, largeSize, noJunk, hj]
  have hchannels : (headerOf largeSize.header content).channels
      = (zeroFilled content).channels := by
    simp only [headerOf, zeroFilled, wavHeader, field16]
    simp (disch := omega) only [hsame]
  have hbits : (headerOf largeSize.header content).bitsPerSample = 16 := by
    rw [← hb]
    simp only [headerOf, zeroFilled, wavHeader, field16]
    simp (disch := omega) only [hsame]
  have hsize : 2 ^ 24 * 255 ≤ (headerOf largeSize.header content).dataSize.toNat := by
    have hlast : (overlay (content.take 44) largeSize.header (40 + 3)).toNat = 255 := by
      rw [overlay, List.getElem?_eq_none (by simp; omega)]
      rfl
    simp only [headerOf, wavHeader, field32_toNat]
    omega
  have hpos : announced (headerOf largeSize.header content) ≠ 0 := by
    have hlt := (headerOf largeSize.header content).channels.toNat_lt
    have hcpos : 0 < (headerOf largeSize.header content).channels.toNat := by
      rw [hchannels, Nat.pos_iff_ne_zero]
      exact fun hz => hc (UInt16.toNat_inj.1 hz)
    refine (Nat.div_pos ?_ (by omega)).ne'
    omega
  rw [readWav_read (hchannels ▸ hc) hbits]
  have hbad : decide (44 ≤ content.length) = false := by simpa using hl
  rw [hbad]
  exact fun hsafe => hpos ((readSamples_bad_iff _ _ _ _ _).1 hsafe)

theorem safeContent_of_safe (hs : ∀ junk, (readWav junk (some content)).Safe) :
    SafeContent content := by
  have hzero := hs noJunk
  have hdiv :
      ¬ ((zeroFilled content).channels = 0 ∨ (zeroFilled content).bitsPerSample.toNat < 8) := by
    intro hz
    have hcrash : readWav noJunk (some content) = .divisionByZero := readWav_divisionByZero hz
    rw [hcrash] at hzero
    exact hzero
  obtain ⟨hc, hb⟩ := not_or.1 hdiv
  refine ⟨hc, not_lt.1 hb, fun h16 => ?_⟩
  have hl : 44 ≤ content.length := by
    by_contra hshort
    exact not_safe_of_short hc h16 (not_le.1 hshort) (hs largeSize)
  have hgood : decide (44 ≤ content.length) = true := by simpa using hl
  have hread : readWav noJunk (some content) =
      .read (readSamples noJunk.sample ((zeroFilled content).channels == 2)
        (announced (zeroFilled content)) 0 ⟨content.drop 44, 44 ≤ content.length⟩) :=
          readWav_read hc h16
  rw [hread, hgood] at hzero
  have hlast := (readSamples_fromFile_iff _ _ _ _ _).1 hzero
  refine ⟨hl, hlast.imp_right fun hlen => ?_⟩
  rw [List.length_drop] at hlen
  omega

/-- `read_wav` never uses a negative size. It is safe in the other two respects exactly on the
contents that have the fields of the divisor and, with 16 bits per sample, all the samples
they announce. -/
theorem readWav_safe_iff (content : Bytes) :
    ((∀ junk, (readWav junk (some content)).Safe) ↔ SafeContent content) ∧
    ∀ junk n, readWav junk (some content) ≠ .badSize n :=
  ⟨⟨safeContent_of_safe, fun hs junk => safe_of_safeContent hs junk⟩,
    fun junk n => readWav_ne_badSize junk content n⟩

/-- The empty file may divide by zero, and a header without its data gives a sample that was
not read. -/
theorem unread_header_and_sample :
    readWav noJunk (some []) = .divisionByZero ∧
    readWav noJunk
      (some (List.replicate 22 0 ++ Riff.word16 1 ++ List.replicate 10 0 ++ Riff.word16 16
      ++ List.replicate 4 0 ++ Riff.word32 2)) = .read [⟨0, false⟩] := by
  decide +kernel

end WavReader

end AetherGuard

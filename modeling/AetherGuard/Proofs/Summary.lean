import AetherGuard.Summary

/-!
# What the summary writes and decodes

The tokens of the prompt go to the entries from 0 on, at positions from 0 on, so both limits are
kept exactly when there are 2048 of them at most; with no token at all the mark on the last entry
goes to entry -1. After that only entry 0 is written, and the position grows by one with each
decode. The loop's own test lets position 2048 through, which is one past the context: the limits
are kept exactly when the model ends the text, or a decode fails, before that. The loop itself ends
in any case.
-/

namespace AetherGuard

namespace Summary

variable {s : State}

/-! ### The prompt -/

/-- The entries of the batch are at the positions 0, 1, and so on. -/
def InOrder (s : State) : Prop := ∀ j : ℕ, j < s.nTokens → (s.entries j).pos = j

theorem InOrder.batchPositions (h : InOrder s) : s.batchPositions = List.range s.nTokens := by
  have hmap : s.batchPositions = (List.range s.nTokens).map id :=
    List.map_congr_left fun j hj => h j (List.mem_range.1 hj)
  rw [hmap, List.map_id]

theorem InOrder.add (h : InOrder s) (token : ℕ) : InOrder (add s s.nTokens token) := by
  intro j hj
  show (Function.update s.entries (s.nTokens : ℤ) _ (j : ℤ)).pos = j
  rcases Nat.lt_succ_iff_lt_or_eq.1 hj with hlt | rfl
  · rw [Function.update_of_ne (by omega)]
    exact h j hlt
  · rw [Function.update_self]

theorem fill_inOrder (tokens : List ℕ) :
    ∀ s : State, InOrder s → InOrder (fill s s.nTokens tokens) := by
  induction tokens with
  | nil => exact fun s hs => hs
  | cons token tokens ih => exact fun s hs => ih _ (hs.add token)

@[simp] theorem fill_nTokens (tokens : List ℕ) :
    ∀ (s : State) (i : ℕ), (fill s i tokens).nTokens = s.nTokens + tokens.length := by
  induction tokens with
  | nil => exact fun s i => rfl
  | cons token tokens ih =>
    intro s i
    rw [fill, ih, List.length_cons]
    show s.nTokens + 1 + _ = _
    omega

@[simp] theorem fill_positions (tokens : List ℕ) :
    ∀ (s : State) (i : ℕ), (fill s i tokens).positions = s.positions := by
  induction tokens with
  | nil => exact fun s i => rfl
  | cons token tokens ih => exact fun s i => ih (add s i token) (i + 1)

@[simp] theorem fill_decodes (tokens : List ℕ) :
    ∀ (s : State) (i : ℕ), (fill s i tokens).decodes = s.decodes := by
  induction tokens with
  | nil => exact fun s i => rfl
  | cons token tokens ih => exact fun s i => ih (add s i token) (i + 1)

/-- The loop over the tokens writes the entries from the batch's end on, one after the other. -/
@[simp] theorem fill_writes (tokens : List ℕ) : ∀ (s : State) (i : ℕ),
    (fill s i tokens).writes = s.writes ++ (List.range' s.nTokens tokens.length).map Nat.cast := by
  induction tokens with
  | nil => exact fun s i => by simp [fill]
  | cons token tokens ih =>
    intro s i
    rw [fill, ih, List.length_cons, List.range'_succ, List.map_cons]
    simp [add, State.write]

variable {F : Type*} {llama : Llama F} {transcript : Bytes}

/-- Whether or not the first buffer was large enough, `tokens_list` holds the prompt's tokens. -/
theorem tokensList_eq (llama : Llama F) (prompt : Bytes) :
    tokensList llama prompt = llama.tokens prompt := by
  unfold tokensList llamaTokenize
  by_cases hfits : (llama.tokens prompt).length ≤ prompt.length + 8
  · simp [hfits]
  · have hsome : llama.tokens prompt ≠ [] := by
      intro hnil
      simp [hnil] at hfits
    simp [hfits, hsome]

/-- The number of tokens of the prompt. -/
def promptTokens (llama : Llama F) (transcript : Bytes) : ℕ :=
  (llama.tokens (fullPrompt transcript)).length

theorem promptBatch_nTokens (llama : Llama F) (transcript : Bytes) :
    (promptBatch llama transcript).nTokens = promptTokens llama transcript := by
  simp [promptBatch, markLast, State.write, tokensList_eq, emptyBatch, promptTokens]

theorem promptBatch_positions (llama : Llama F) (transcript : Bytes) :
    (promptBatch llama transcript).llamaDecode.positions
      = List.range (promptTokens llama transcript) := by
  have horder : InOrder (promptBatch llama transcript) := by
    intro j hj
    have hfill : InOrder (fill (emptyBatch llama) 0 (tokensList llama (fullPrompt transcript))) :=
      fill_inOrder _ (emptyBatch llama) (fun j hj => absurd hj (Nat.not_lt_zero j))
    have hpos := hfill j hj
    -- the mark changes the last entry but not its position
    simp only [promptBatch, markLast, State.write, Function.update_apply]
    split_ifs with hlast
    · rw [← hlast]
      exact hpos
    · exact hpos
  simp only [State.llamaDecode, horder.batchPositions, promptBatch_nTokens]
  simp [promptBatch, markLast, State.write, emptyBatch]

theorem promptBatch_writes (llama : Llama F) (transcript : Bytes) :
    (promptBatch llama transcript).llamaDecode.writes
      = (List.range (promptTokens llama transcript)).map Nat.cast
        ++ [(promptTokens llama transcript : ℤ) - 1] := by
  simp [promptBatch, markLast, State.write, State.llamaDecode, tokensList_eq, emptyBatch,
    promptTokens, List.range_eq_range']

/-- The prompt's own writes and positions stay within the limits exactly from 1 to 2048 tokens. -/
theorem promptBatch_within (llama : Llama F) (transcript : Bytes) :
    (promptBatch llama transcript).llamaDecode.Within ↔
      1 ≤ promptTokens llama transcript ∧ promptTokens llama transcript ≤ 2048 := by
  simp only [State.Within, promptBatch_positions, promptBatch_writes, List.mem_append, List.mem_map,
    List.mem_range, List.mem_singleton, batchSize, nCtx]
  generalize promptTokens llama transcript = n
  constructor
  · rintro ⟨hwrites, -⟩
    have hlast := hwrites (n - 1) (.inr rfl)
    omega
  · rintro ⟨hpos, hle⟩
    refine ⟨?_, fun p hp => by omega⟩
    rintro i (⟨j, hj, rfl⟩ | rfl) <;> omega

/-! ### The generation loop -/

theorem single_positions (s : State) (token nCur : ℕ) :
    (single s token nCur).llamaDecode.positions = s.positions ++ [nCur] := by
  simp [State.llamaDecode, State.batchPositions, single, State.write]

theorem within_single {token nCur : ℕ} :
    (single s token nCur).llamaDecode.Within ↔ s.Within ∧ nCur < nCtx := by
  have hwrites : (single s token nCur).llamaDecode.writes = s.writes ++ [0] := rfl
  have hzero : (0 : ℤ) < batchSize := by decide
  simp only [State.Within, single_positions, hwrites, List.mem_append, List.mem_singleton, or_imp,
    forall_and, forall_eq, le_refl, hzero, and_true, true_and, and_assoc]

variable [LT F] [DecidableLT F] {lowest : F}

/-- From position `nCur` and after `d` decodes, the model ends the text or a decode fails before a
token at position 2048 is decoded. -/
def Stops (llama : Llama F) (lowest : F) (nCur d : ℕ) : Prop :=
  ∃ k, nCur + k ≤ 2048 ∧
    (llama.isEog (newTokenId lowest (llama.logits (d + k))) = true
      ∨ nCur + k < 2048 ∧ llama.decode (d + k) ≠ 0)

theorem stops_of_eog {nCur d : ℕ} (hle : nCur ≤ 2048)
    (heog : llama.isEog (newTokenId lowest (llama.logits d)) = true) : Stops llama lowest nCur d :=
  ⟨0, hle, .inl heog⟩

/-- A round that does not end the text stops the loop by a failed decode, or leaves it to the rounds
after it. -/
theorem stops_iff_of_not_eog {nCur d : ℕ}
    (heog : llama.isEog (newTokenId lowest (llama.logits d)) = false) :
    Stops llama lowest nCur d ↔
      nCur < 2048 ∧ (llama.decode d ≠ 0 ∨ Stops llama lowest (nCur + 1) (d + 1)) := by
  constructor
  · rintro ⟨k, hk, hwhy⟩
    cases k with
    | zero =>
      rcases hwhy with he | ⟨hlt, hd⟩
      · rw [Nat.add_zero, heog] at he
        cases he
      · exact ⟨hlt, .inl hd⟩
    | succ k =>
      refine ⟨by omega, .inr ⟨k, by omega, ?_⟩⟩
      have hshift : d + (k + 1) = d + 1 + k := by omega
      have hshift' : nCur + (k + 1) = nCur + 1 + k := by omega
      rwa [hshift, hshift'] at hwhy
  · rintro ⟨hlt, hd | ⟨k, hk, hwhy⟩⟩
    · exact ⟨0, by omega, .inr ⟨hlt, hd⟩⟩
    · refine ⟨k + 1, by omega, ?_⟩
      have hshift : d + (k + 1) = d + 1 + k := by omega
      have hshift' : nCur + (k + 1) = nCur + 1 + k := by omega
      rwa [hshift, hshift']

section Rounds

variable {nCur : ℕ} {result : Bytes} (fuel : ℕ)

theorem generate_past (hpast : 2048 < nCur) :
    generate llama lowest (fuel + 1) s nCur result = some (result, s) := by
  rw [generate, if_neg (by omega)]

theorem generate_eog (hin : nCur ≤ 2048)
    (heog : llama.isEog (newTokenId lowest (llama.logits s.decodes)) = true) :
    generate llama lowest (fuel + 1) s nCur result = some (result, s) := by
  simp [generate, hin, heog]

/-- A round that does not end the text decodes its token at `nCur`. -/
theorem generate_decode (llama : Llama F) (lowest : F) (s : State) (result : Bytes)
    (hin : nCur ≤ 2048) (heog : llama.isEog (newTokenId lowest (llama.logits s.decodes)) = false) :
    ∃ (result' : Bytes) (next : State),
      next = (single s (newTokenId lowest (llama.logits s.decodes)) nCur).llamaDecode ∧
      ∀ fuel, generate llama lowest (fuel + 1) s nCur result =
        if llama.decode s.decodes ≠ 0 then some (result', next)
        else generate llama lowest fuel next (nCur + 1) result' := by
  refine ⟨result ++ (llama.piece (newTokenId lowest (llama.logits s.decodes))).getD [], _, rfl,
    fun fuel => ?_⟩
  rw [generate, if_pos hin]
  simp only [heog, Bool.false_eq_true, if_false]

end Rounds

/-- The loop ends after `2049 - nCur` rounds at the latest, and keeps the limits exactly when it
stops before position 2048, or is not entered at all. -/
theorem exists_generate (llama : Llama F) (lowest : F) : ∀ (rounds nCur : ℕ) (s : State)
    (result : Bytes), 2049 ≤ nCur + rounds →
    ∃ out : Bytes × State,
      (∀ fuel, rounds ≤ fuel → generate llama lowest (fuel + 1) s nCur result = some out)
      ∧ (out.2.Within ↔ s.Within ∧ (2048 < nCur ∨ Stops llama lowest nCur s.decodes)) := by
  intro rounds
  induction rounds with
  | zero =>
    intro nCur s result hrounds
    have hpast : 2048 < nCur := by omega
    exact ⟨(result, s), fun fuel _ => generate_past fuel hpast, by simp [hpast]⟩
  | succ rounds ih =>
    intro nCur s result hrounds
    rcases lt_or_ge 2048 nCur with hpast | hin
    · exact ⟨(result, s), fun fuel _ => generate_past fuel hpast, by simp [hpast]⟩
    have hnot : ¬ 2048 < nCur := by omega
    cases heog : llama.isEog (newTokenId lowest (llama.logits s.decodes)) with
    | true =>
      exact ⟨(result, s), fun fuel _ => generate_eog fuel hin heog, by simp [stops_of_eog hin heog]⟩
    | false =>
      obtain ⟨result', next, hnext, hround⟩ := generate_decode llama lowest s result hin heog
      have hwithin : next.Within ↔ s.Within ∧ nCur < 2048 := by
        rw [hnext]
        exact within_single
      have hdecodes : next.decodes = s.decodes + 1 := by rw [hnext]; rfl
      rw [stops_iff_of_not_eog heog]
      by_cases hd : llama.decode s.decodes = 0
      · obtain ⟨out, hout, hiff⟩ := ih (nCur + 1) next result' (by omega)
        refine ⟨out, fun fuel hfuel => ?_, ?_⟩
        · rw [hround, if_neg (not_not.2 hd)]
          obtain ⟨fuel, rfl⟩ := Nat.exists_eq_add_of_le' (show 1 ≤ fuel by omega)
          exact hout fuel (by omega)
        · rw [hiff, hwithin, hdecodes]
          constructor
          · rintro ⟨⟨hs, hlt⟩, hpast | hstops⟩
            · omega
            · exact ⟨hs, .inr ⟨hlt, .inr hstops⟩⟩
          · rintro ⟨hs, hpast | ⟨hlt, hfail | hstops⟩⟩
            · omega
            · exact absurd hd hfail
            · exact ⟨⟨hs, hlt⟩, .inr hstops⟩
      · refine ⟨(result', next), fun fuel _ => ?_, ?_⟩
        · rw [hround, if_pos hd]
        · rw [hwithin]
          simp [hnot, hd]

theorem generateSummary_of_decoded (hloads : llama.loads = true) (hd : llama.decode 0 = 0)
    (fuel : ℕ) :
    generateSummary llama lowest fuel transcript =
      generate llama lowest fuel (promptBatch llama transcript).llamaDecode
        (promptTokens llama transcript) [] := by
  rw [generateSummary, if_pos hloads]
  simp [hd, promptBatch_nTokens]

/-- The prompt has a token and 2048 at most, and generation stops before position 2048. -/
def FitsContext (llama : Llama F) (lowest : F) (n : ℕ) : Prop :=
  1 ≤ n ∧ n ≤ 2048 ∧ (llama.decode 0 ≠ 0 ∨ Stops llama lowest n 1)

/-- `GenerateSummary` always returns. It stays within the batch and the context exactly when the
prompt fits and generation stops in time, or the model does not load. -/
theorem generateSummary_within_iff (llama : Llama F) (lowest : F) (transcript : Bytes) :
    ∃ out : Bytes × State,
      (∀ fuel, 2050 ≤ fuel → generateSummary llama lowest fuel transcript = some out) ∧
      (out.2.Within ↔ llama.loads = true → FitsContext llama lowest
        (promptTokens llama transcript)) := by
  cases hloads : llama.loads with
  | false =>
    refine ⟨(literal "[Error] Failed to load Phi-3 model.", emptyBatch llama), fun fuel _ => ?_, ?_⟩
    · simp [generateSummary, hloads]
    · simp [State.Within, emptyBatch]
  | true =>
    have hprompt := promptBatch_within llama transcript
    by_cases hd : llama.decode 0 = 0
    · obtain ⟨out, hout, hiff⟩ := exists_generate llama lowest 2049
        (promptTokens llama transcript) (promptBatch llama transcript).llamaDecode [] (by omega)
      have hfirst : (promptBatch llama transcript).llamaDecode.decodes = 1 := by
        simp [promptBatch, markLast, State.write, State.llamaDecode, emptyBatch]
      refine ⟨out, fun fuel hfuel => ?_, ?_⟩
      · obtain ⟨fuel, rfl⟩ := Nat.exists_eq_add_of_le' (show 1 ≤ fuel by omega)
        rw [generateSummary_of_decoded hloads hd]
        exact hout fuel (by omega)
      · rw [hiff, hprompt, hfirst]
        constructor
        · rintro ⟨⟨hpos, hle⟩, hpast | hstops⟩ -
          · omega
          · exact ⟨hpos, hle, .inr hstops⟩
        · intro h
          obtain ⟨hpos, hle, hfail | hstops⟩ := h rfl
          · exact absurd hd hfail
          · exact ⟨⟨hpos, hle⟩, .inr hstops⟩
    · refine ⟨(literal "[Error] Engine decode failed.", (promptBatch llama transcript).llamaDecode),
        fun fuel _ => ?_, ?_⟩
      · simp [generateSummary, hloads, hd]
      · simp [hprompt, FitsContext, hd]

/-- A model under which every text has `n` tokens, and which goes on for as long as it is asked. -/
def endless (n : ℕ) : Llama ℕ where
  loads := true
  tokens _ := List.replicate n 0
  fresh _ := ⟨0, 0, 0, 0, false⟩
  decode _ := 0
  logits _ := []
  isEog _ := false
  piece _ := none

/-- One token too many is written to entry 2048. With 2048 tokens the prompt fits, and the first
token of the answer is decoded at position 2048. -/
theorem summary_leaves_its_buffers :
    (∃ out, generateSummary (endless 2049) 0 2050 [] = some out ∧ (2048 : ℤ) ∈ out.2.writes) ∧
    ∃ out, generateSummary (endless 2048) 0 2050 [] = some out ∧ 2048 ∈ out.2.positions := by
  have htokens : ∀ n, promptTokens (endless n) [] = n := fun n => List.length_replicate
  constructor
  · refine ⟨([], (promptBatch (endless 2049) []).llamaDecode), ?_, ?_⟩
    · rw [generateSummary_of_decoded rfl rfl, htokens]
      exact generate_past 2049 (by decide)
    · rw [promptBatch_writes, htokens]
      simp
  · obtain ⟨result, next, hnext, hround⟩ := generate_decode (endless 2048) 0
      (promptBatch (endless 2048) []).llamaDecode [] (le_refl 2048) rfl
    have hok : (endless 2048).decode (promptBatch (endless 2048) []).llamaDecode.decodes = 0 := rfl
    refine ⟨(result, next), ?_, ?_⟩
    · rw [generateSummary_of_decoded rfl rfl, htokens, hround, if_neg (not_not.2 hok)]
      exact generate_past 2048 (by decide)
    · show 2048 ∈ next.positions
      rw [hnext, single_positions]
      exact List.mem_append_right _ List.mem_cons_self

end Summary

end AetherGuard

import AetherGuard.SearchDispatch

/-!
# Queries that are taken for a number

A query is taken for a frequency as soon as it starts like a number, so a name that begins with
digits, or with `inf` or `nan`, is never searched for as a name; and a number out of range is
searched for as a name. Every other query goes where it should.
-/

namespace AetherGuard

namespace LogStore

open Strtod (NumberStart Literal strtod)

variable {inRange : ℚ → Bool} {q : Text}

/-- The query as a whole is a decimal number, blanks around it aside. -/
def IsLiteral (q : Text) : Prop := ∃ d : Literal, d.text = q

/-- The number at the start of the query, if there is one, is in range. -/
def InRange (inRange : ℚ → Bool) (q : Text) : Prop :=
  ∀ x, strtod (cStr q) = some (.finite x) → inRange x = true

theorem isSome_stod_iff :
    (stod inRange q).isSome = true ↔ NumberStart (cStr q) ∧ InRange inRange q := by
  rw [← Strtod.isSome_strtod_iff, stod, InRange]
  rcases strtod (cStr q) with _ | (x | negative | _)
  · simp
  · cases hx : inRange x <;> simp [hx]
  · simp
  · simp

theorem searchBranch_eq_frequency_iff (hq : q ≠ []) :
    (∃ freq, searchBranch inRange q = .frequency freq) ↔ (stod inRange q).isSome = true := by
  have hne : q.isEmpty = false := by simpa using hq
  cases h : stod inRange q <;> simp [searchBranch, hne, h]

theorem searchBranch_eq_text_iff (hq : q ≠ []) :
    searchBranch inRange q = .text ↔ ¬ ∃ freq, searchBranch inRange q = .frequency freq := by
  have hne : q.isEmpty = false := by simpa using hq
  cases h : stod inRange q <;> simp [searchBranch, hne, h]

/-- No character of a literal ends the C string. -/
theorem cStr_text (d : Literal) : cStr d.text = d.text := by
  refine List.takeWhile_eq_self_iff.2 fun c hc => ?_
  have hmem := d.mem_alphabet c hc
  have hnul : nul ∉ Strtod.alphabet := by decide
  simpa using fun heq : c = nul => hnul (heq ▸ hmem)

theorem numberStart_text (d : Literal) : NumberStart (cStr d.text) := by
  rw [← Strtod.isSome_strtod_iff, cStr_text, d.strtod_text]
  rfl

theorem inRange_text (d : Literal) : InRange inRange d.text ↔ inRange d.value = true := by
  rw [InRange, cStr_text, d.strtod_text]
  simp

/-- Where `std::stod` throws or finds a finite number, the handler searches as the log
store does. -/
theorem apiSearch_eq_search (t : RadioLogs) (parsed : Text → Option ℚ)
    (h : stod inRange q = (parsed q).map .finite) : apiSearch inRange t q = search parsed t q := by
  unfold apiSearch searchBranch search
  split_ifs with hq
  · rfl
  · cases hp : parsed q <;> simp [h, hp]

/-- A query is taken for a frequency exactly when it starts like a number that is not out of
range. That is right exactly if a literal is in range, and a query that starts like a number in
range is a literal. -/
theorem search_dispatch (inRange : ℚ → Bool) (q : Text) (hq : q ≠ []) :
    (searchBranch inRange q = .text ↔ ¬ ∃ freq, searchBranch inRange q = .frequency freq) ∧
    ((∃ freq, searchBranch inRange q = .frequency freq) ↔
      NumberStart (cStr q) ∧ InRange inRange q) ∧
    (((∃ freq, searchBranch inRange q = .frequency freq) ↔ IsLiteral q) ↔
      (∀ d : Literal, d.text = q → inRange d.value = true) ∧
        (NumberStart (cStr q) → InRange inRange q → IsLiteral q)) := by
  have hfreq : (∃ freq, searchBranch inRange q = .frequency freq) ↔ _ :=
    (searchBranch_eq_frequency_iff hq).trans isSome_stod_iff
  refine ⟨searchBranch_eq_text_iff hq, hfreq, ?_⟩
  rw [hfreq]
  constructor
  · intro hiff
    refine ⟨?_, fun hstart hrange => hiff.1 ⟨hstart, hrange⟩⟩
    rintro d rfl
    exact (inRange_text d).1 (hiff.2 ⟨d, rfl⟩).2
  · rintro ⟨hlit, hname⟩
    refine ⟨fun h => hname h.1 h.2, ?_⟩
    rintro ⟨d, rfl⟩
    exact ⟨numberStart_text d, (inRange_text d).2 (hlit d rfl)⟩

/-- The query `FM 95` is searched for as a name. -/
theorem search_dispatch_name :
    "FM 95".toList ≠ [] ∧ ¬ NumberStart (cStr "FM 95".toList) ∧
      searchBranch (fun _ => true) "FM 95".toList = .text := by
  have hname : ¬ NumberStart (cStr "FM 95".toList) := by decide
  have h := search_dispatch (fun _ => true) "FM 95".toList (by decide)
  exact ⟨by decide, hname, h.1.2 fun hf => hname (h.2.1.1 hf).1⟩

/-- Names that begin like a number are taken for one, and a number out of range for a name. -/
theorem names_taken_for_numbers :
    (searchBranch (fun _ => true) "911 Dispatch".toList = .frequency (.finite 911) ∧
      ¬ IsLiteral "911 Dispatch".toList) ∧
    (searchBranch (fun _ => true) "Infinity Radio".toList = .frequency (.inf false) ∧
      ¬ IsLiteral "Infinity Radio".toList) ∧
    (searchBranch (fun _ => true) "0x1F".toList = .frequency (.finite 31) ∧
      ¬ IsLiteral "0x1F".toList) ∧
    (searchBranch (fun x => |x| < 2 ^ 1024) "1e999".toList = .text ∧ IsLiteral "1e999".toList) := by
  have hnot : ∀ (q : Text) (c : Char), c ∈ q → c ∉ Strtod.alphabet → ¬ IsLiteral q := by
    rintro q c hc hno ⟨d, rfl⟩
    exact hno (d.mem_alphabet c hc)
  refine ⟨⟨by decide +kernel, hnot _ 'D' (by decide) (by decide)⟩,
    ⟨by decide +kernel, hnot _ 'I' (by decide) (by decide)⟩,
    ⟨by decide +kernel, hnot _ 'x' (by decide) (by decide)⟩, by decide +kernel, ?_⟩
  exact ⟨⟨[], [], ['1'], false, [],
    some ⟨'e', [], ['9', '9', '9'], by simp, by simp, by simp, by simp⟩,
    [], by simp, by simp, by simp, by simp, by simp, by simp, by simp⟩, rfl⟩

end LogStore

end AetherGuard

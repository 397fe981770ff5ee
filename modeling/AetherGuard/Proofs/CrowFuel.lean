import AetherGuard.CrowJson

/-!
# The reader's fuel and its depth

Every value takes a character at least, so that three calls for a character are enough: with more
fuel the reader makes the same of a text. Every list and object that it takes adds two to the depth,
which has a limit, so what it takes is not nested deeper than 5000.
-/

namespace AetherGuard

namespace Crow

/-! ### What is left is shorter -/

theorem length_wsSkip_le (data : Bytes) : (wsSkip data).length ≤ data.length :=
  (List.dropWhile_sublist _).length_le

theorem length_of_consume {c : UInt8} {data rest : Bytes} (h : consume c data = some rest) :
    data.length = rest.length + 1 := by
  cases data with
  | nil => cases h
  | cons c' data =>
    rw [consume] at h
    split_ifs at h
    cases h
    rfl

/-- The text of a string ends with the quote. -/
theorem eq_of_decodeChars {hasEscaping esc : Bool} {data text rest : Bytes}
    (h : decodeChars hasEscaping data = some (text, esc, rest)) : data = text ++ quote :: rest := by
  fun_induction decodeChars hasEscaping data generalizing text esc rest with
  | case1 => cases h
  | case2 hasEscaping c data hc ih =>
    obtain ⟨⟨t, e, r⟩, ht, heq⟩ := Option.map_eq_some_iff.1 h
    cases heq
    rw [List.cons_append, ← ih ht]
  | case3 hasEscaping data =>
    cases h
    rfl
  | case4 => cases h
  | case5 hasEscaping c1 c2 c3 c4 data hhex hc hq ih =>
    obtain ⟨⟨t, e, r⟩, ht, heq⟩ := Option.map_eq_some_iff.1 h
    cases heq
    simp only [List.cons_append, ← ih ht]
  | case6 => cases h
  | case7 => cases h
  | case8 hasEscaping u data hu hmem hc hq ih =>
    obtain ⟨⟨t, e, r⟩, ht, heq⟩ := Option.map_eq_some_iff.1 h
    cases heq
    simp only [List.cons_append, ← ih ht]
  | case9 => cases h
  | case10 => cases h

theorem length_of_decodeString {data rest : Bytes} {s : Bytes × Bool}
    (h : decodeString data = some (s, rest)) : rest.length < data.length := by
  rw [decodeString] at h
  obtain ⟨data', hdata, h⟩ := Option.bind_eq_some_iff.1 h
  obtain ⟨⟨t, e, r⟩, ht, heq⟩ := Option.map_eq_some_iff.1 h
  cases heq
  have hlen := length_of_consume hdata
  have heq := congrArg List.length (eq_of_decodeChars ht)
  rw [List.length_append, List.length_cons] at heq
  omega

/-- A number takes its text, and has none only where it may end as it starts. -/
theorem eq_of_decodeNumber {state : NumberParsingState} {inner : Bool} {data text rest : Bytes}
    (h : decodeNumber state inner data = some (text, rest)) :
    data = text ++ rest ∧ (text = [] → inner = false → state.accepts = true) := by
  fun_induction decodeNumber state inner data generalizing text rest with
  | case1 state inner hacc =>
    cases h
    exact ⟨rfl, fun _ _ => hacc⟩
  | case2 => cases h
  | case3 state inner c data hin ih =>
    obtain ⟨⟨t, r⟩, ht, heq⟩ := Option.map_eq_some_iff.1 h
    cases heq
    exact ⟨by rw [List.cons_append, ← (ih ht).1], nofun⟩
  | case4 => cases h
  | case5 state inner c data hin next hc hnext ih =>
    obtain ⟨⟨t, r⟩, ht, heq⟩ := Option.map_eq_some_iff.1 h
    cases heq
    exact ⟨by rw [List.cons_append, ← (ih ht).1], nofun⟩
  | case6 state inner c data hin hc hacc =>
    cases h
    exact ⟨rfl, fun _ _ => hacc⟩
  | case7 => cases h

theorem length_of_decodeNumber {data text rest : Bytes}
    (h : decodeNumber .minus false data = some (text, rest)) : rest.length < data.length := by
  obtain ⟨rfl, hne⟩ := eq_of_decodeNumber h
  cases text with
  | nil => exact absurd (hne rfl rfl) (by decide)
  | cons c text =>
    rw [List.length_append, List.length_cons]
    omega

theorem length_of_decodeWord {word : String} {v v' : RValue} {data rest : Bytes}
    (hword : 0 < (bytes word).length) (h : decodeWord word v data = some (v', rest)) :
    rest.length < data.length := by
  rw [decodeWord] at h
  split_ifs at h with htake
  cases h
  have hlen : (bytes word).length = word.length := by
    rw [bytes, List.length_map, String.length_toList]
  have htake := congrArg List.length htake
  rw [List.length_take] at htake
  rw [List.length_drop]
  omega

/-- `rest` is a tail of what is left behind white space. -/
theorem length_tail_wsSkip_lt {data : Bytes} {c : UInt8} (h : (wsSkip data).headD 0 = c)
    (hc : c ≠ 0) :
    (wsSkip data).tail.length < data.length := by
  have hle := length_wsSkip_le data
  cases hskip : wsSkip data with
  | nil =>
    rw [hskip] at h
    exact absurd h.symm hc
  | cons a l =>
    rw [hskip, List.length_cons] at hle
    exact hle

/-- Every value takes a character at least, and so does everything that is made of values. -/
theorem length_of_decode (fuel : ℕ) :
    (∀ depth data v rest, decodeValue fuel depth data = some (v, rest) → rest.length < data.length)
      ∧ (∀ depth data v rest, decodeList fuel depth data = some (v, rest) →
        rest.length < data.length)
      ∧ (∀ depth data l rest, decodeElements fuel depth data = some (l, rest) →
        rest.length < data.length)
      ∧ (∀ depth data v rest, decodeObject fuel depth data = some (v, rest) →
        rest.length < data.length)
      ∧ ∀ depth data l rest, decodeMembers fuel depth data = some (l, rest) →
        rest.length < data.length := by
  induction fuel with
  | zero =>
    simp [decodeValue, decodeList, decodeElements, decodeObject, decodeMembers]
  | succ fuel ih =>
    obtain ⟨ihv, ihl, ihe, iho, ihm⟩ := ih
    refine ⟨fun depth data v rest h => ?_, fun depth data v rest h => ?_,
      fun depth data l rest h => ?_, fun depth data v rest h => ?_, fun depth data l rest h => ?_⟩
    · simp only [decodeValue] at h
      split_ifs at h
      · exact ihl _ _ _ _ h
      · exact iho _ _ _ _ h
      · obtain ⟨⟨s, r⟩, hs, heq⟩ := Option.map_eq_some_iff.1 h
        cases heq
        exact length_of_decodeString hs
      · exact length_of_decodeWord (by decide) h
      · exact length_of_decodeWord (by decide) h
      · exact length_of_decodeWord (by decide) h
      · obtain ⟨⟨s, r⟩, hs, heq⟩ := Option.map_eq_some_iff.1 h
        cases heq
        exact length_of_decodeNumber hs
    · rw [decodeList] at h
      obtain ⟨data1, h1, h⟩ := Option.bind_eq_some_iff.1 h
      have hlen := length_of_consume h1
      simp only at h
      split_ifs at h with hdepth hclose
      · cases h
        have := length_tail_wsSkip_lt hclose (by decide)
        omega
      · obtain ⟨⟨l, r⟩, hl, heq⟩ := Option.map_eq_some_iff.1 h
        obtain rfl : r = rest := congrArg Prod.snd heq
        have := ihe _ _ _ _ hl
        have := length_wsSkip_le data1
        omega
    · rw [decodeElements] at h
      obtain ⟨⟨v, data1⟩, h1, h⟩ := Option.bind_eq_some_iff.1 h
      have hlen := ihv _ _ _ _ h1
      simp only at h
      split_ifs at h with hclose
      · cases h
        have := length_tail_wsSkip_lt hclose (by decide)
        omega
      · obtain ⟨data2, h2, h⟩ := Option.bind_eq_some_iff.1 h
        obtain ⟨⟨l, r⟩, hl, heq⟩ := Option.map_eq_some_iff.1 h
        obtain rfl : r = rest := congrArg Prod.snd heq
        have := ihe _ _ _ _ hl
        have := length_wsSkip_le data1
        have := length_wsSkip_le data2
        have := length_of_consume h2
        omega
    · rw [decodeObject] at h
      obtain ⟨data1, h1, h⟩ := Option.bind_eq_some_iff.1 h
      have hlen := length_of_consume h1
      simp only at h
      split_ifs at h with hdepth hclose
      · cases h
        have := length_tail_wsSkip_lt hclose (by decide)
        omega
      · obtain ⟨⟨l, r⟩, hl, heq⟩ := Option.map_eq_some_iff.1 h
        obtain rfl : r = rest := congrArg Prod.snd heq
        have := ihm _ _ _ _ hl
        have := length_wsSkip_le data1
        omega
    · rw [decodeMembers] at h
      obtain ⟨⟨⟨t, e⟩, data1⟩, h1, h⟩ := Option.bind_eq_some_iff.1 h
      obtain ⟨data2, h2, h⟩ := Option.bind_eq_some_iff.1 h
      obtain ⟨⟨v, data3⟩, h3, h⟩ := Option.bind_eq_some_iff.1 h
      have hlen1 := length_of_decodeString h1
      have hlen2 := length_of_consume h2
      have hlen3 := ihv _ _ _ _ h3
      have hle1 := length_wsSkip_le data1
      have hle2 := length_wsSkip_le data2
      simp only at h
      split_ifs at h with hclose
      · cases h
        have := length_tail_wsSkip_lt hclose (by decide)
        omega
      · obtain ⟨data4, h4, h⟩ := Option.bind_eq_some_iff.1 h
        obtain ⟨⟨l, r⟩, hl, heq⟩ := Option.map_eq_some_iff.1 h
        obtain rfl : r = rest := congrArg Prod.snd heq
        have := ihm _ _ _ _ hl
        have := length_wsSkip_le data3
        have := length_wsSkip_le data4
        have := length_of_consume h4
        omega

/-! ### Enough of it -/

/-- Where there is enough fuel for a text, one more changes nothing. -/
theorem decode_succ (fuel : ℕ) :
    (∀ depth data, 3 * data.length + 1 ≤ fuel →
        decodeValue (fuel + 1) depth data = decodeValue fuel depth data)
      ∧ (∀ depth data, 3 * data.length ≤ fuel →
        decodeList (fuel + 1) depth data = decodeList fuel depth data)
      ∧ (∀ depth data, 3 * data.length + 2 ≤ fuel →
        decodeElements (fuel + 1) depth data = decodeElements fuel depth data)
      ∧ (∀ depth data, 3 * data.length ≤ fuel →
        decodeObject (fuel + 1) depth data = decodeObject fuel depth data)
      ∧ ∀ depth data, 3 * data.length + 2 ≤ fuel →
        decodeMembers (fuel + 1) depth data = decodeMembers fuel depth data := by
  induction fuel with
  | zero =>
    have hnil : ∀ data : Bytes, 3 * data.length ≤ 0 → data = [] := by
      intro data h
      exact List.length_eq_zero_iff.1 (by omega)
    refine ⟨fun _ _ h => absurd h (by omega), fun depth data h => ?_,
      fun _ _ h => absurd h (by omega), fun depth data h => ?_, fun _ _ h => absurd h (by omega)⟩
    · rw [hnil data h, decodeList, decodeList]
      rfl
    · rw [hnil data h, decodeObject, decodeObject]
      rfl
  | succ fuel ih =>
    obtain ⟨ihv, ihl, ihe, iho, ihm⟩ := ih
    have hvalue := (length_of_decode fuel).1
    refine ⟨fun depth data h => ?_, fun depth data h => ?_, fun depth data h => ?_,
      fun depth data h => ?_, fun depth data h => ?_⟩
    · rw [decodeValue, decodeValue, ihl _ _ (by omega), iho _ _ (by omega)]
    · rw [decodeList, decodeList]
      refine Option.bind_congr fun data1 h1 => ?_
      have hlen := length_of_consume h1
      have hle := length_wsSkip_le data1
      simp only [ihe depth (wsSkip data1) (by omega)]
    · rw [decodeElements, decodeElements, ihv _ _ (by omega)]
      refine Option.bind_congr fun (v, data1) h1 => ?_
      have hlen1 := hvalue _ _ _ _ h1
      have hle1 := length_wsSkip_le data1
      refine if_congr Iff.rfl rfl (Option.bind_congr fun data2 h2 => ?_)
      have hlen2 := length_of_consume h2
      have hle2 := length_wsSkip_le data2
      rw [ihe depth (wsSkip data2) (by omega)]
    · rw [decodeObject, decodeObject]
      refine Option.bind_congr fun data1 h1 => ?_
      have hlen := length_of_consume h1
      have hle := length_wsSkip_le data1
      simp only [ihm depth (wsSkip data1) (by omega)]
    · rw [decodeMembers, decodeMembers]
      refine Option.bind_congr fun ((t, e), data1) h1 => Option.bind_congr fun data2 h2 => ?_
      have hlen1 := length_of_decodeString h1
      have hle1 := length_wsSkip_le data1
      have hlen2 := length_of_consume h2
      have hle2 := length_wsSkip_le data2
      rw [ihv _ (wsSkip data2) (by omega)]
      refine Option.bind_congr fun (v, data3) h3 => ?_
      have hlen3 := hvalue _ _ _ _ h3
      have hle3 := length_wsSkip_le data3
      refine if_congr Iff.rfl rfl (Option.bind_congr fun data4 h4 => ?_)
      have hlen4 := length_of_consume h4
      have hle4 := length_wsSkip_le data4
      rw [ihm depth (wsSkip data4) (by omega)]

/-- `load` does not depend on the fuel it has. -/
theorem load_eq_of_le {data : Bytes} {fuel : ℕ} (h : 3 * data.length + 1 ≤ fuel) :
    load data = (decodeValue fuel 0 (wsSkip data)).bind fun (ret, data) =>
      if (wsSkip data).headD 0 = 0 then some ret else none := by
  obtain ⟨k, rfl⟩ := Nat.exists_eq_add_of_le h
  have hle := length_wsSkip_le data
  have hmore : decodeValue (3 * data.length + 1 + k) 0 (wsSkip data)
      = decodeValue (3 * data.length + 1) 0 (wsSkip data) := by
    induction k with
    | zero => rfl
    | succ k ih =>
      rw [← add_assoc, (decode_succ _).1 _ _ (by omega), ih (by omega)]
  rw [load, hmore]

/-! ### Depth -/

namespace RValue

mutual

/-- How deep lists and objects are nested. -/
def height : RValue → ℕ
  | .null | .bool _ | .number _ | .string _ _ => 0
  | .list l => heightElements l + 1
  | .object l => heightMembers l + 1

def heightElements : List RValue → ℕ
  | [] => 0
  | v :: l => max v.height (heightElements l)

def heightMembers : List (Bytes × RValue) → ℕ
  | [] => 0
  | (_, v) :: l => max v.height (heightMembers l)

end

end RValue

theorem decodeWord_height {word : String} {v v' : RValue} {data rest : Bytes} (hv : v.height = 0)
    (h : decodeWord word v data = some (v', rest)) : v'.height = 0 := by
  rw [decodeWord] at h
  split_ifs at h
  cases h
  exact hv

theorem depth_of_decode (fuel : ℕ) :
    (∀ depth data v rest, decodeValue fuel depth data = some (v, rest) →
        v.height = 0 ∨ depth + 2 * v.height ≤ maxDepth + 1)
      ∧ (∀ depth data v rest, decodeList fuel depth data = some (v, rest) →
        depth + 2 * v.height ≤ maxDepth + 2)
      ∧ (∀ depth data l rest, decodeElements fuel depth data = some (l, rest) →
        RValue.heightElements l = 0 ∨ depth + 2 * RValue.heightElements l ≤ maxDepth)
      ∧ (∀ depth data v rest, decodeObject fuel depth data = some (v, rest) →
        depth + 2 * v.height ≤ maxDepth + 2)
      ∧ ∀ depth data l rest, decodeMembers fuel depth data = some (l, rest) →
        RValue.heightMembers l = 0 ∨ depth + 2 * RValue.heightMembers l ≤ maxDepth := by
  induction fuel with
  | zero => simp [decodeValue, decodeList, decodeElements, decodeObject, decodeMembers]
  | succ fuel ih =>
    obtain ⟨ihv, ihl, ihe, iho, ihm⟩ := ih
    refine ⟨fun depth data v rest h => ?_, fun depth data v rest h => ?_,
      fun depth data l rest h => ?_, fun depth data v rest h => ?_, fun depth data l rest h => ?_⟩
    · simp only [decodeValue] at h
      split_ifs at h
      · have := ihl _ _ _ _ h
        omega
      · have := iho _ _ _ _ h
        omega
      · obtain ⟨⟨s, r⟩, hs, heq⟩ := Option.map_eq_some_iff.1 h
        cases heq
        exact .inl (by rw [RValue.height])
      · exact .inl (decodeWord_height (by rw [RValue.height]) h)
      · exact .inl (decodeWord_height (by rw [RValue.height]) h)
      · exact .inl (decodeWord_height (by rw [RValue.height]) h)
      · obtain ⟨⟨s, r⟩, hs, heq⟩ := Option.map_eq_some_iff.1 h
        cases heq
        exact .inl (by rw [RValue.height])
    · rw [decodeList] at h
      obtain ⟨data1, h1, h⟩ := Option.bind_eq_some_iff.1 h
      simp only at h
      split_ifs at h with hdepth hclose
      · cases h
        rw [RValue.height, RValue.heightElements]
        omega
      · obtain ⟨⟨l, r⟩, hl, heq⟩ := Option.map_eq_some_iff.1 h
        cases heq
        dsimp only
        have := ihe _ _ _ _ hl
        rw [RValue.height]
        omega
    · rw [decodeElements] at h
      obtain ⟨⟨v, data1⟩, h1, h⟩ := Option.bind_eq_some_iff.1 h
      have hv := ihv _ _ _ _ h1
      simp only at h
      split_ifs at h with hclose
      · cases h
        rw [RValue.heightElements, RValue.heightElements]
        omega
      · obtain ⟨data2, h2, h⟩ := Option.bind_eq_some_iff.1 h
        obtain ⟨⟨l, r⟩, hl, heq⟩ := Option.map_eq_some_iff.1 h
        cases heq
        dsimp only
        have := ihe _ _ _ _ hl
        rw [RValue.heightElements]
        omega
    · rw [decodeObject] at h
      obtain ⟨data1, h1, h⟩ := Option.bind_eq_some_iff.1 h
      simp only at h
      split_ifs at h with hdepth hclose
      · cases h
        rw [RValue.height, RValue.heightMembers]
        omega
      · obtain ⟨⟨l, r⟩, hl, heq⟩ := Option.map_eq_some_iff.1 h
        cases heq
        dsimp only
        have := ihm _ _ _ _ hl
        rw [RValue.height]
        omega
    · rw [decodeMembers] at h
      obtain ⟨⟨⟨t, e⟩, data1⟩, h1, h⟩ := Option.bind_eq_some_iff.1 h
      obtain ⟨data2, h2, h⟩ := Option.bind_eq_some_iff.1 h
      obtain ⟨⟨v, data3⟩, h3, h⟩ := Option.bind_eq_some_iff.1 h
      have hv := ihv _ _ _ _ h3
      simp only at h
      split_ifs at h with hclose
      · cases h
        rw [RValue.heightMembers, RValue.heightMembers]
        omega
      · obtain ⟨data4, h4, h⟩ := Option.bind_eq_some_iff.1 h
        obtain ⟨⟨l, r⟩, hl, heq⟩ := Option.map_eq_some_iff.1 h
        cases heq
        dsimp only
        have := ihm _ _ _ _ hl
        rw [RValue.heightMembers]
        omega

/-- Whatever the text, a document that is taken is not nested deeper than 5000. -/
theorem load_height_le {data : Bytes} {v : RValue} (h : load data = some v) : v.height ≤ 5000 := by
  rw [load] at h
  obtain ⟨⟨ret, rest⟩, hret, h⟩ := Option.bind_eq_some_iff.1 h
  simp only at h
  split_ifs at h
  cases h
  have hdepth := (depth_of_decode _).1 _ _ _ _ hret
  rw [maxDepth] at hdepth
  omega

theorem load_height_le_pair : ∃ v, load (bytes "[[],[]]") = some v ∧ v.height ≤ 5000 := by
  obtain ⟨v, hv⟩ := Option.isSome_iff_exists.1
    (show (load (bytes "[[],[]]")).isSome = true by decide +kernel)
  exact ⟨v, hv, load_height_le hv⟩

end Crow

end AetherGuard

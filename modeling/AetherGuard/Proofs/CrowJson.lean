import AetherGuard.Proofs.CrowText

/-!
# What is written is read back

`decode_value` on the text of a document, with anything behind it that does not go on with a number,
gives the document and leaves the rest: scalars by what `CrowText` says, lists and objects by their
loops, where a comma or a bracket follows each value. Every list and object takes two of the depth,
so that a document is read exactly if it is nested 5000 deep at most (`load_dump`). No text has a
control character in it (`le_of_mem_dump`).
-/

namespace AetherGuard

namespace Crow

variable {F : Type*} (fmt : Format F)

namespace WValue

/-- A floating-point number as it is read back. -/
def loadedFloat : Option Decimal → RValue
  | none => .null
  | some outbuf => .number outbuf.trimmed.text

mutual

/-- The document as it is read back. -/
def loaded : WValue F → RValue
  | .null => .null
  | .bool b => .bool b
  | .double d => loadedFloat (fmt.general d)
  | .float d => loadedFloat (fmt.fixed d)
  | .signed si => .number (Decimal.ofInt si).text
  | .unsigned ui => .number (Decimal.ofInt ui).text
  | .string s => .string (escape s) (hasEscapes s)
  | .list l => .list (loadedElements l)
  | .object o => .object (loadedMembers o)

def loadedElements : List (WValue F) → List RValue
  | [] => []
  | x :: l => loaded x :: loadedElements l

def loadedMembers : List (Bytes × WValue F) → List (Bytes × RValue)
  | [] => []
  | (key, x) :: o => (key, loaded x) :: loadedMembers o

end

mutual

/-- How deep lists and objects are nested. -/
def height : WValue F → ℕ
  | .null | .bool _ | .double _ | .float _ | .signed _ | .unsigned _ | .string _ => 0
  | .list l => heightElements l + 1
  | .object o => heightMembers o + 1

def heightElements : List (WValue F) → ℕ
  | [] => 0
  | x :: l => max (height x) (heightElements l)

def heightMembers : List (Bytes × WValue F) → ℕ
  | [] => 0
  | (_, x) :: o => max (height x) (heightMembers o)

end

end WValue

open WValue

theorem decodeWord_bytes (word : String) (v : RValue) (rest : Bytes) :
    decodeWord word v (bytes word ++ rest) = some (v, rest) := by
  have hlen : (bytes word).length = word.length := by
    rw [bytes, List.length_map, String.length_toList]
  rw [decodeWord, ← hlen, List.take_left, List.drop_left, if_pos rfl]

theorem decodeValue_true {fuel depth : ℕ} (rest : Bytes) :
    decodeValue (fuel + 1) depth (bytes "true" ++ rest) = some (.bool true, rest) := by
  have hhead : (bytes "true" ++ rest).headD 0 = ch 't' := rfl
  simp only [decodeValue, hhead, decodeWord_bytes]
  rfl

theorem decodeValue_false {fuel depth : ℕ} (rest : Bytes) :
    decodeValue (fuel + 1) depth (bytes "false" ++ rest) = some (.bool false, rest) := by
  have hhead : (bytes "false" ++ rest).headD 0 = ch 'f' := rfl
  simp only [decodeValue, hhead, decodeWord_bytes]
  rfl

theorem decodeValue_null {fuel depth : ℕ} (rest : Bytes) :
    decodeValue (fuel + 1) depth (bytes "null" ++ rest) = some (.null, rest) := by
  have hhead : (bytes "null" ++ rest).headD 0 = ch 'n' := rfl
  simp only [decodeValue, hhead, decodeWord_bytes]
  rfl

/-- A number starts with a digit or a minus. -/
theorem Decimal.exists_head (x : Decimal) : ∃ c text, x.text = c :: text
    ∧ (c = ch '-' ∨ ∃ d, c = Decimal.digit d) := by
  obtain ⟨neg, int, frac, exp, hint, hexp⟩ := x
  cases neg with
  | true => exact ⟨_, _, rfl, .inl rfl⟩
  | false =>
    rcases hint with rfl | ⟨d, ds, rfl, -⟩
    · exact ⟨_, _, rfl, .inr ⟨0, rfl⟩⟩
    · exact ⟨_, _, rfl, .inr ⟨d, rfl⟩⟩

theorem number_head_ne {c : UInt8} (h : c = ch '-' ∨ ∃ d, c = Decimal.digit d) :
    c ∉ [ch '[', openBrace, quote, ch 't', ch 'f', ch 'n', ch ']', ch ' ', 9, 13, 10] := by
  rcases h with rfl | ⟨d, rfl⟩
  · decide
  · revert d
    decide

theorem decodeValue_number {fuel depth : ℕ} (x : Decimal) {rest : Bytes} (hrest : Stops rest) :
    decodeValue (fuel + 1) depth (x.text ++ rest) = some (.number x.text, rest) := by
  obtain ⟨c, text, htext, hc⟩ := x.exists_head
  have hhead : (x.text ++ rest).headD 0 = c := by rw [htext]; rfl
  have hne := number_head_ne hc
  simp only [List.mem_cons, not_or] at hne
  simp only [decodeValue, hhead, hne, if_false, decodeNumber_text x hrest, Option.map_some]

theorem decodeValue_string {fuel depth : ℕ} (s rest : Bytes) :
    decodeValue (fuel + 1) depth (dumpString s ++ rest)
      = some (.string (escape s) (hasEscapes s), rest) := by
  have hhead : (dumpString s ++ rest).headD 0 = quote := rfl
  have h1 : quote ≠ ch '[' := by decide
  have h2 : quote ≠ openBrace := by decide
  simp only [decodeValue, hhead, h1, h2, if_false, if_true, decodeString_dumpString,
    Option.map_some]

theorem decodeValue_float {fuel depth : ℕ} (outbuf : Option Decimal) {rest : Bytes}
    (hrest : Stops rest) :
    decodeValue (fuel + 1) depth (dumpFloat outbuf ++ rest) = some (loadedFloat outbuf, rest) := by
  cases outbuf with
  | none => exact decodeValue_null rest
  | some x => rw [dumpFloat, x.trim_text, decodeValue_number _ hrest, loadedFloat]

theorem wsSkip_cons {c : UInt8} (h : c ∉ [ch ' ', 9, 13, 10]) (data : Bytes) :
    wsSkip (c :: data) = c :: data := by
  rw [wsSkip, List.dropWhile_cons_of_neg (by simpa using h)]

/-- What a value's text does not start with. -/
def HeadOk (c : UInt8) : Prop := c ∉ [ch ' ', 9, 13, 10] ∧ c ≠ ch ']'

theorem headOk_bytes : HeadOk (ch 'n') ∧ HeadOk (ch 't') ∧ HeadOk (ch 'f') ∧ HeadOk quote
    ∧ HeadOk (ch '[') ∧ HeadOk openBrace := by
  unfold HeadOk
  decide

theorem Decimal.exists_headOk (x : Decimal) : ∃ c text, x.text = c :: text ∧ HeadOk c := by
  obtain ⟨c, text, htext, hc⟩ := x.exists_head
  have hne := number_head_ne hc
  simp only [List.mem_cons, not_or] at hne
  exact ⟨c, text, htext, by simp [hne], by simp [hne]⟩

theorem dumpFloat_head (outbuf : Option Decimal) :
    ∃ c text, dumpFloat outbuf = c :: text ∧ HeadOk c := by
  cases outbuf with
  | none => exact ⟨_, _, rfl, headOk_bytes.1⟩
  | some x => rw [dumpFloat, x.trim_text]; exact x.trimmed.exists_headOk

theorem dump_head (v : WValue F) : ∃ c text, v.dump fmt = c :: text ∧ HeadOk c := by
  obtain ⟨hn, ht, hf, hq, hl, ho⟩ := headOk_bytes
  cases v with
  | null => exact ⟨_, _, rfl, hn⟩
  | bool b => cases b; exacts [⟨_, _, rfl, hf⟩, ⟨_, _, rfl, ht⟩]
  | double d => rw [dump]; exact dumpFloat_head _
  | float d => rw [dump]; exact dumpFloat_head _
  | signed si => rw [dump]; exact Decimal.exists_headOk _
  | unsigned ui => rw [dump]; exact Decimal.exists_headOk _
  | string s => rw [dump]; exact ⟨_, _, rfl, hq⟩
  | list l => rw [dump]; exact ⟨_, _, rfl, hl⟩
  | object o => rw [dump]; exact ⟨_, _, rfl, ho⟩

theorem stops_cons {c : UInt8} (h : c ∈ [ch ',', ch ']', closeBrace]) (rest : Bytes) :
    Stops (c :: rest) := by
  intro c' hc'
  cases hc'
  simp only [List.mem_cons, List.not_mem_nil, or_false] at h
  rcases h with rfl | rfl | rfl <;> rfl

theorem dumpElements_false (x : WValue F) (l : List (WValue F)) :
    dumpElements fmt false (x :: l) = ch ',' :: dumpElements fmt true (x :: l) := by
  simp [dumpElements]

theorem dumpMembers_false (kx : Bytes × WValue F) (o : List (Bytes × WValue F)) :
    dumpMembers fmt false (kx :: o) = ch ',' :: dumpMembers fmt true (kx :: o) := by
  obtain ⟨key, x⟩ := kx
  simp [dumpMembers]

/-- What `decode_value` makes of the text of `v` at a depth. -/
def back (depth : ℕ) (v : WValue F) : Option RValue :=
  if depth + 2 * v.height ≤ maxDepth + 1 then some (v.loaded fmt) else none

def backElements (depth : ℕ) (l : List (WValue F)) : Option (List RValue) :=
  if depth + 2 * heightElements l ≤ maxDepth + 1 then some (loadedElements fmt l) else none

def backMembers (depth : ℕ) (o : List (Bytes × WValue F)) : Option (List (Bytes × RValue)) :=
  if depth + 2 * heightMembers o ≤ maxDepth + 1 then some (loadedMembers fmt o) else none

section Containers

variable {fuel depth : ℕ} {rest : Bytes}

/-- The depth of a list or an object, and those of what is in it. -/
theorem nested_eq {α β : Type*} (h : ℕ) (a : α) (g : α → β) :
    (if depth + 1 > maxDepth then none
      else (if depth + 2 + 2 * h ≤ maxDepth + 1 then some a else none).map g)
      = if depth + 2 * (h + 1) ≤ maxDepth + 1 then some (g a) else none := by
  by_cases hdeep : depth + 1 > maxDepth
  · rw [if_pos hdeep, if_neg (by omega)]
  · by_cases hfit : depth + 2 + 2 * h ≤ maxDepth + 1
    · rw [if_neg hdeep, if_pos hfit, if_pos (by omega), Option.map_some]
    · rw [if_neg hdeep, if_neg hfit, if_neg (by omega), Option.map_none]

theorem loop_eq {α : Type*} {r : Option (α × Bytes)} {b : Option α} (g : α → RValue)
    (h : depth + 1 ≤ maxDepth → r = b.map (·, rest)) :
    (if depth + 1 > maxDepth then none else r.map fun (l, rest) => (g l, rest))
      = if depth + 1 > maxDepth then none else b.map fun l => (g l, rest) := by
  split_ifs with hdeep
  · rfl
  · rw [h (by omega), Option.map_map]
    rfl

theorem decodeValue_list_nil :
    decodeValue (fuel + 2) depth ((WValue.list (F := F) []).dump fmt ++ rest)
      = (back fmt depth (.list [])).map (·, rest) := by
  have hdump : (WValue.list (F := F) []).dump fmt ++ rest = ch '[' :: ch ']' :: rest := by
    simp [dump, dumpElements]
  rw [hdump, decodeValue, back, height, heightElements]
  simp only [List.headD_cons, if_true, decodeList, consume, Option.bind_some]
  rw [wsSkip_cons (by decide), List.headD_cons, if_pos rfl, List.tail_cons]
  split_ifs with h1 h2 <;> first | rfl | omega

/-- A list with elements is its bracket and the loop. -/
theorem decodeValue_list_cons (x : WValue F) (l : List (WValue F))
    (h : depth + 1 ≤ maxDepth →
      decodeElements fuel (depth + 1) (dumpElements fmt true (x :: l) ++ ch ']' :: rest)
        = (backElements fmt (depth + 2) (x :: l)).map (·, rest)) :
    decodeValue (fuel + 2) depth ((WValue.list (x :: l)).dump fmt ++ rest)
      = (back fmt depth (.list (x :: l))).map (·, rest) := by
  have hdump : (WValue.list (x :: l)).dump fmt ++ rest
      = ch '[' :: (dumpElements fmt true (x :: l) ++ ch ']' :: rest) := by
    simp [dump]
  obtain ⟨c, text, htext, hws, hc⟩ := dump_head fmt x
  have hhead : dumpElements fmt true (x :: l) ++ ch ']' :: rest
      = c :: (text ++ (dumpElements fmt false l ++ ch ']' :: rest)) := by
    simp [dumpElements, htext]
  rw [hdump, decodeValue]
  simp only [List.headD_cons, if_true, decodeList, consume, Option.bind_some]
  have hws : wsSkip (dumpElements fmt true (x :: l) ++ ch ']' :: rest)
      = dumpElements fmt true (x :: l) ++ ch ']' :: rest := by
    rw [hhead, wsSkip_cons hws]
  have hne : (dumpElements fmt true (x :: l) ++ ch ']' :: rest).headD 0 ≠ ch ']' := by
    rw [hhead]
    exact hc
  rw [hws, if_neg hne, back, height]
  rw [loop_eq RValue.list h, backElements, nested_eq]
  split_ifs <;> rfl

/-- The last element. -/
theorem decodeElements_one {x : WValue F} {r : Option RValue}
    (h : decodeValue fuel (depth + 1) (x.dump fmt ++ ch ']' :: rest) = r.map (·, ch ']' :: rest)) :
    decodeElements (fuel + 1) depth (dumpElements fmt true [x] ++ ch ']' :: rest)
      = r.map fun v => ([v], rest) := by
  have hdump : dumpElements fmt true [x] ++ ch ']' :: rest = x.dump fmt ++ ch ']' :: rest := by
    simp [dumpElements]
  rw [hdump, decodeElements, h]
  cases r with
  | none => rfl
  | some v =>
    simp only [Option.map_some, Option.bind_some]
    rw [wsSkip_cons (by decide), List.headD_cons, if_pos rfl, List.tail_cons]

/-- An element that another follows. -/
theorem decodeElements_more {x y : WValue F} {l : List (WValue F)} {r : Option RValue}
    {rl : Option (List RValue)}
    (h : decodeValue fuel (depth + 1)
        (x.dump fmt ++ ch ',' :: (dumpElements fmt true (y :: l) ++ ch ']' :: rest))
      = r.map (·, ch ',' :: (dumpElements fmt true (y :: l) ++ ch ']' :: rest)))
    (hl : decodeElements fuel depth (dumpElements fmt true (y :: l) ++ ch ']' :: rest)
      = rl.map (·, rest)) :
    decodeElements (fuel + 1) depth (dumpElements fmt true (x :: y :: l) ++ ch ']' :: rest)
      = r.bind fun v => rl.map fun l => (v :: l, rest) := by
  have hdump : dumpElements fmt true (x :: y :: l) ++ ch ']' :: rest
      = x.dump fmt ++ ch ',' :: (dumpElements fmt true (y :: l) ++ ch ']' :: rest) := by
    rw [dumpElements, dumpElements_false]
    simp
  obtain ⟨c, text, htext, hws, -⟩ := dump_head fmt y
  have hws : wsSkip (dumpElements fmt true (y :: l) ++ ch ']' :: rest)
      = dumpElements fmt true (y :: l) ++ ch ']' :: rest := by
    have hhead : dumpElements fmt true (y :: l) ++ ch ']' :: rest
        = c :: (text ++ (dumpElements fmt false l ++ ch ']' :: rest)) := by
      simp [dumpElements, htext]
    rw [hhead, wsSkip_cons hws]
  rw [hdump, decodeElements, h]
  cases r with
  | none => rfl
  | some v =>
    simp only [Option.map_some, Option.bind_some]
    rw [wsSkip_cons (by decide), List.headD_cons, if_neg (by decide), consume, if_pos rfl,
      Option.bind_some, hws, hl, Option.map_map]
    rfl

theorem decodeValue_object_nil :
    decodeValue (fuel + 2) depth ((WValue.object (F := F) []).dump fmt ++ rest)
      = (back fmt depth (.object [])).map (·, rest) := by
  have hdump : (WValue.object (F := F) []).dump fmt ++ rest = openBrace :: closeBrace :: rest := by
    simp [dump, dumpMembers]
  have hne : openBrace ≠ ch '[' := by decide
  rw [hdump, decodeValue, back, height, heightMembers]
  simp only [List.headD_cons, if_neg hne, if_true, decodeObject, consume, Option.bind_some]
  rw [wsSkip_cons (by decide), List.headD_cons, if_pos rfl, List.tail_cons]
  split_ifs with h1 h2 <;> first | rfl | omega

theorem dumpMembers_head (kx : Bytes × WValue F) (o : List (Bytes × WValue F)) (data : Bytes) :
    ∃ text, dumpMembers fmt true (kx :: o) ++ data = quote :: text := by
  obtain ⟨key, x⟩ := kx
  exact ⟨_, by simp only [dumpMembers, dumpString, if_true, List.nil_append, List.cons_append]; rfl⟩

theorem wsSkip_members (kx : Bytes × WValue F) (o : List (Bytes × WValue F)) (data : Bytes) :
    wsSkip (dumpMembers fmt true (kx :: o) ++ data) = dumpMembers fmt true (kx :: o) ++ data := by
  obtain ⟨text, htext⟩ := dumpMembers_head fmt kx o data
  rw [htext, wsSkip_cons (by decide)]

/-- An object with members is its brace and the loop. -/
theorem decodeValue_object_cons (kx : Bytes × WValue F) (o : List (Bytes × WValue F))
    (h : depth + 1 ≤ maxDepth →
      decodeMembers fuel (depth + 1) (dumpMembers fmt true (kx :: o) ++ closeBrace :: rest)
        = (backMembers fmt (depth + 2) (kx :: o)).map (·, rest)) :
    decodeValue (fuel + 2) depth ((WValue.object (kx :: o)).dump fmt ++ rest)
      = (back fmt depth (.object (kx :: o))).map (·, rest) := by
  have hdump : (WValue.object (kx :: o)).dump fmt ++ rest
      = openBrace :: (dumpMembers fmt true (kx :: o) ++ closeBrace :: rest) := by
    simp [dump]
  have hbrace : openBrace ≠ ch '[' := by decide
  have hne : (dumpMembers fmt true (kx :: o) ++ closeBrace :: rest).headD 0 ≠ closeBrace := by
    obtain ⟨text, htext⟩ := dumpMembers_head fmt kx o (closeBrace :: rest)
    rw [htext]
    show quote ≠ closeBrace
    decide
  rw [hdump, decodeValue]
  simp only [List.headD_cons, if_neg hbrace, if_true, decodeObject, consume, Option.bind_some]
  rw [wsSkip_members, if_neg hne, back, height]
  rw [loop_eq RValue.object h, backMembers, nested_eq]
  split_ifs <;> rfl

/-- The text of a member, up to its value. -/
theorem dumpMembers_cons (key : Bytes) (x : WValue F) (o : List (Bytes × WValue F)) (data : Bytes) :
    dumpMembers fmt true ((key, x) :: o) ++ data
      = dumpString key ++ ch ':' :: (x.dump fmt ++ (dumpMembers fmt false o ++ data)) := by
  simp [dumpMembers]

/-- A member up to what follows its value. -/
theorem decodeMembers_value {key : Bytes} {x : WValue F} {data : Bytes} {r : Option RValue}
    (h : decodeValue fuel (depth + 1) (x.dump fmt ++ data) = r.map (·, data)) :
    decodeMembers (fuel + 1) depth (dumpString key ++ ch ':' :: (x.dump fmt ++ data))
      = r.bind fun v =>
        if (wsSkip data).headD 0 = closeBrace then some ([(key, v)], (wsSkip data).tail)
        else (consume (ch ',') (wsSkip data)).bind fun data =>
          (decodeMembers fuel depth (wsSkip data)).map fun (l, rest) => ((key, v) :: l, rest) := by
  obtain ⟨c, text, htext, hws, -⟩ := dump_head fmt x
  have hskip : wsSkip (x.dump fmt ++ data) = x.dump fmt ++ data := by
    rw [htext, List.cons_append, wsSkip_cons hws]
  simp only [decodeMembers, decodeString_dumpString, Option.bind_some]
  rw [wsSkip_cons (by decide), consume, if_pos rfl, Option.bind_some, hskip, h]
  cases r with
  | none => rfl
  | some v =>
    simp only [Option.map_some, Option.bind_some]
    rw [stringValue_escape]

theorem decodeMembers_one {key : Bytes} {x : WValue F} {r : Option RValue}
    (h : decodeValue fuel (depth + 1) (x.dump fmt ++ closeBrace :: rest)
      = r.map (·, closeBrace :: rest)) :
    decodeMembers (fuel + 1) depth (dumpMembers fmt true [(key, x)] ++ closeBrace :: rest)
      = r.map fun v => ([(key, v)], rest) := by
  rw [dumpMembers_cons, dumpMembers, List.nil_append, decodeMembers_value fmt h]
  cases r with
  | none => rfl
  | some v =>
    rw [Option.bind_some, wsSkip_cons (by decide), List.headD_cons, if_pos rfl, List.tail_cons]
    rfl

theorem decodeMembers_more {key : Bytes} {x : WValue F} {kx : Bytes × WValue F}
    {o : List (Bytes × WValue F)} {r : Option RValue} {ro : Option (List (Bytes × RValue))}
    (h : decodeValue fuel (depth + 1)
        (x.dump fmt ++ ch ',' :: (dumpMembers fmt true (kx :: o) ++ closeBrace :: rest))
      = r.map (·, ch ',' :: (dumpMembers fmt true (kx :: o) ++ closeBrace :: rest)))
    (ho : decodeMembers fuel depth (dumpMembers fmt true (kx :: o) ++ closeBrace :: rest)
      = ro.map (·, rest)) :
    decodeMembers (fuel + 1) depth
      (dumpMembers fmt true ((key, x) :: kx :: o) ++ closeBrace :: rest)
      = r.bind fun v => ro.map fun o => ((key, v) :: o, rest) := by
  rw [dumpMembers_cons, dumpMembers_false, List.cons_append, decodeMembers_value fmt h]
  cases r with
  | none => rfl
  | some v =>
    rw [Option.bind_some, wsSkip_cons (by decide), List.headD_cons, if_neg (by decide), consume,
      if_pos rfl, Option.bind_some, wsSkip_members, ho, Option.map_map]
    rfl

end Containers

theorem back_scalar {v : WValue F} (hv : v.height = 0) {depth : ℕ} (hdepth : depth ≤ maxDepth + 1) :
    back fmt depth v = some (v.loaded fmt) := by
  rw [back, hv, if_pos (by omega)]

theorem backElements_nil {depth : ℕ} (hdepth : depth ≤ maxDepth + 1) :
    backElements fmt depth ([] : List (WValue F)) = some [] := by
  rw [backElements, heightElements, if_pos (by omega), loadedElements]

theorem backMembers_nil {depth : ℕ} (hdepth : depth ≤ maxDepth + 1) :
    backMembers fmt depth ([] : List (Bytes × WValue F)) = some [] := by
  rw [backMembers, heightMembers, if_pos (by omega), loadedMembers]

theorem backElements_cons (depth : ℕ) (x : WValue F) (l : List (WValue F)) :
    ((back fmt depth x).bind fun v => (backElements fmt depth l).map fun l => v :: l)
      = backElements fmt depth (x :: l) := by
  rw [back, backElements, backElements, heightElements, loadedElements]
  split_ifs <;> first | rfl | omega

theorem backMembers_cons (depth : ℕ) (key : Bytes) (x : WValue F) (o : List (Bytes × WValue F)) :
    ((back fmt depth x).bind fun v => (backMembers fmt depth o).map fun o => (key, v) :: o)
      = backMembers fmt depth ((key, x) :: o) := by
  rw [back, backMembers, backMembers, heightMembers, loadedMembers]
  split_ifs <;> first | rfl | omega

mutual

theorem decodeValue_dump : ∀ (v : WValue F) (fuel depth : ℕ) (rest : Bytes), Stops rest →
    depth ≤ maxDepth + 1 → 3 * (v.dump fmt).length + 1 ≤ fuel →
      decodeValue fuel depth (v.dump fmt ++ rest) = (back fmt depth v).map (·, rest)
  | .null, fuel + 1, _, rest, _, hd, _ => by
    rw [back_scalar fmt (by rw [height]) hd]; exact decodeValue_null rest
  | .bool true, fuel + 1, _, rest, _, hd, _ => by
    rw [back_scalar fmt (by rw [height]) hd]; exact decodeValue_true rest
  | .bool false, fuel + 1, _, rest, _, hd, _ => by
    rw [back_scalar fmt (by rw [height]) hd]; exact decodeValue_false rest
  | .double d, fuel + 1, _, rest, hrest, hd, _ => by
    rw [back_scalar fmt (by rw [height]) hd, dump, loaded]; exact decodeValue_float _ hrest
  | .float d, fuel + 1, _, rest, hrest, hd, _ => by
    rw [back_scalar fmt (by rw [height]) hd, dump, loaded]; exact decodeValue_float _ hrest
  | .signed si, fuel + 1, _, rest, hrest, hd, _ => by
    rw [back_scalar fmt (by rw [height]) hd, dump, loaded]; exact decodeValue_number _ hrest
  | .unsigned ui, fuel + 1, _, rest, hrest, hd, _ => by
    rw [back_scalar fmt (by rw [height]) hd, dump, loaded]; exact decodeValue_number _ hrest
  | .string s, fuel + 1, _, rest, _, hd, _ => by
    rw [back_scalar fmt (by rw [height]) hd, dump, loaded]; exact decodeValue_string s rest
  | .list [], fuel + 2, depth, rest, _, _, _ => decodeValue_list_nil fmt
  | .list (x :: l), fuel + 2, depth, rest, _, _, hfuel =>
    decodeValue_list_cons fmt x l fun hdeep =>
      decodeElements_dump x l fuel _ rest hdeep (by simp [dump] at hfuel; omega)
  | .object [], fuel + 2, depth, rest, _, _, _ => decodeValue_object_nil fmt
  | .object (kx :: o), fuel + 2, depth, rest, _, _, hfuel =>
    decodeValue_object_cons fmt kx o fun hdeep =>
      decodeMembers_dump kx o fuel _ rest hdeep (by simp [dump] at hfuel; omega)

theorem decodeElements_dump :
    ∀ (x : WValue F) (l : List (WValue F)) (fuel depth : ℕ) (rest : Bytes),
    depth ≤ maxDepth → 3 * (dumpElements fmt true (x :: l)).length + 2 ≤ fuel →
      decodeElements fuel depth (dumpElements fmt true (x :: l) ++ ch ']' :: rest)
        = (backElements fmt (depth + 1) (x :: l)).map (·, rest)
  | x, [], fuel + 1, depth, rest, hd, hfuel => by
    have hx := decodeValue_dump x fuel (depth + 1) (ch ']' :: rest) (stops_cons (by decide) rest)
      (by omega) (by simp [dumpElements] at hfuel; omega)
    rw [decodeElements_one fmt hx, ← backElements_cons, backElements_nil fmt (by omega)]
    cases back fmt (depth + 1) x <;> rfl
  | x, y :: l, fuel + 1, depth, rest, hd, hfuel => by
    rw [dumpElements, dumpElements_false] at hfuel
    simp only [if_true, List.nil_append, List.length_append, List.length_cons] at hfuel
    have hx := decodeValue_dump x fuel (depth + 1)
      (ch ',' :: (dumpElements fmt true (y :: l) ++ ch ']' :: rest)) (stops_cons (by decide) _)
      (by omega) (by omega)
    have hl := decodeElements_dump y l fuel depth rest hd (by omega)
    rw [decodeElements_more fmt hx hl, ← backElements_cons fmt _ x]
    cases back fmt (depth + 1) x with
    | none => rfl
    | some v => cases backElements fmt (depth + 1) (y :: l) <;> rfl

theorem decodeMembers_dump :
    ∀ (kx : Bytes × WValue F) (o : List (Bytes × WValue F)) (fuel depth : ℕ)
    (rest : Bytes), depth ≤ maxDepth → 3 * (dumpMembers fmt true (kx :: o)).length + 2 ≤ fuel →
      decodeMembers fuel depth (dumpMembers fmt true (kx :: o) ++ closeBrace :: rest)
        = (backMembers fmt (depth + 1) (kx :: o)).map (·, rest)
  | (key, x), [], fuel + 1, depth, rest, hd, hfuel => by
    have hx :=
      decodeValue_dump x fuel (depth + 1) (closeBrace :: rest) (stops_cons (by decide) rest)
      (by omega) (by simp [dumpMembers] at hfuel; omega)
    rw [decodeMembers_one fmt hx, ← backMembers_cons, backMembers_nil fmt (by omega)]
    cases back fmt (depth + 1) x <;> rfl
  | (key, x), kx :: o, fuel + 1, depth, rest, hd, hfuel => by
    rw [dumpMembers, dumpMembers_false] at hfuel
    simp only [if_true, List.nil_append, List.length_append, List.length_cons] at hfuel
    have hx := decodeValue_dump x fuel (depth + 1)
      (ch ',' :: (dumpMembers fmt true (kx :: o) ++ closeBrace :: rest)) (stops_cons (by decide) _)
      (by omega) (by omega)
    have ho := decodeMembers_dump kx o fuel depth rest hd (by omega)
    rw [decodeMembers_more fmt hx ho, ← backMembers_cons fmt _ key x]
    cases back fmt (depth + 1) x with
    | none => rfl
    | some v => cases backMembers fmt (depth + 1) (kx :: o) <;> rfl

end

theorem load_dump (v : WValue F) :
    load (v.dump fmt) = if v.height ≤ 5000 then some (v.loaded fmt) else none := by
  obtain ⟨c, text, htext, hws, -⟩ := dump_head fmt v
  have hskip : wsSkip (v.dump fmt) = v.dump fmt := by rw [htext, wsSkip_cons hws]
  have hvalue := decodeValue_dump fmt v (3 * (v.dump fmt).length + 1) 0 [] nofun (by omega) le_rfl
  rw [List.append_nil] at hvalue
  rw [load, hskip, hvalue, back]
  by_cases h : v.height ≤ 5000
  · rw [if_pos h, if_pos (by rw [maxDepth]; omega)]
    rfl
  · rw [if_neg h, if_neg (by rw [maxDepth]; omega)]
    rfl

section Json

variable {N : Type*} (read : Bytes → N)

theorem loadedFloat_toJson (outbuf : Option Decimal) :
    (loadedFloat outbuf).toJson read = floatToJson read outbuf := by
  cases outbuf with
  | none => rfl
  | some x => rw [loadedFloat, RValue.toJson, floatToJson, x.trim_text]

mutual

theorem loaded_toJson : ∀ v : WValue F, (v.loaded fmt).toJson read = v.toJson fmt read
  | .null => by rw [loaded, RValue.toJson, toJson]
  | .bool b => by rw [loaded, RValue.toJson, toJson]
  | .double d => by rw [loaded, loadedFloat_toJson, toJson]
  | .float d => by rw [loaded, loadedFloat_toJson, toJson]
  | .signed si => by rw [loaded, RValue.toJson, toJson]
  | .unsigned ui => by rw [loaded, RValue.toJson, toJson]
  | .string s => by rw [loaded, RValue.toJson, toJson, stringValue_escape]
  | .list l => by rw [loaded, RValue.toJson, toJson, loadedElements_toJson l]
  | .object o => by rw [loaded, RValue.toJson, toJson, loadedMembers_toJson o]

theorem loadedElements_toJson : ∀ l : List (WValue F),
    elementsToJson read (loadedElements fmt l) = WValue.elementsToJson fmt read l
  | [] => rfl
  | x :: l => by
    rw [loadedElements, elementsToJson, WValue.elementsToJson, loaded_toJson x,
      loadedElements_toJson l]

theorem loadedMembers_toJson : ∀ o : List (Bytes × WValue F),
    membersToJson read (loadedMembers fmt o) = WValue.membersToJson fmt read o
  | [] => rfl
  | (key, x) :: o => by
    rw [loadedMembers, membersToJson, WValue.membersToJson, loaded_toJson x, loadedMembers_toJson o]

end

end Json

/-- A number is read as one number, which is the one printed unless its text has a point and an
exponent that ends with a 0. -/
theorem double_read_iff {d : F} {x : Decimal} (h : fmt.general d = some x) :
    ∃ y : Decimal,
      (∀ z : Decimal, load ((WValue.double d).dump fmt) = some (.number z.text) ↔ z = y)
      ∧ (y.value = x.value ↔ x.frac = [] ∨ ∀ e ∈ x.exp, e.2.getLast? ≠ some 0) := by
  refine ⟨x.trimmed, fun z => ?_, x.trimmed_value_iff⟩
  have hload : load ((WValue.double d).dump fmt) = some (.number x.trimmed.text) := by
    rw [load_dump, height, if_pos (by omega), loaded, h, loadedFloat]
  rw [hload, Option.some.injEq, RValue.number.injEq]
  exact ⟨fun heq => (Decimal.text_injective heq).symm, fun heq => by rw [heq]⟩

/-- What `%.21g` prints of 1.5e30, 1.49999999999999988909e+30, arrives as
1.49999999999999988909e+3. -/
theorem double_read_iff_exponent :
    let x : Decimal := ⟨false, [1], [4, 9, 9, 9, 9, 9, 9, 9, 9, 9, 9, 9, 9, 9, 9, 8, 8, 9, 0, 9],
      some (false, [3, 0]), .inr ⟨1, [], rfl, by decide⟩, by decide⟩
    ∃ y : Decimal, load ((WValue.double ()).dump ⟨fun _ => some x, fun _ => none⟩)
      = some (.number y.text) ∧ y.value ≠ x.value := by
  intro x
  obtain ⟨y, hy, hvalue⟩ := double_read_iff ⟨fun _ : Unit => some x, fun _ => none⟩ rfl
  refine ⟨y, (hy y).2 rfl, fun heq => ?_⟩
  rcases hvalue.1 heq with h | h
  · cases h
  · exact h _ rfl rfl

/-! ### What a text does not hold -/

theorem le_of_all {l : Bytes} (h : l.all (0x20 ≤ ·) = true) {b : UInt8} (hb : b ∈ l) : 0x20 ≤ b :=
  of_decide_eq_true (List.all_eq_true.1 h b hb)

theorem le_of_mem_dumpFloat {outbuf : Option Decimal} {b : UInt8} (hb : b ∈ dumpFloat outbuf) :
    0x20 ≤ b := by
  cases outbuf with
  | none => exact le_of_all (by decide : (bytes "null").all (0x20 ≤ ·) = true) hb
  | some x =>
    rw [dumpFloat, x.trim_text] at hb
    exact Decimal.le_of_mem_text hb

mutual

/-- No control character stands in a text, so neither a newline nor a NUL. -/
theorem le_of_mem_dump : ∀ (v : WValue F) {b : UInt8}, b ∈ v.dump fmt → 0x20 ≤ b
  | .null, b, hb => by
    rw [dump] at hb
    exact le_of_all (by decide : (bytes "null").all (0x20 ≤ ·) = true) hb
  | .bool true, b, hb => by
    rw [dump] at hb
    exact le_of_all (by decide : (bytes "true").all (0x20 ≤ ·) = true) hb
  | .bool false, b, hb => by
    rw [dump] at hb
    exact le_of_all (by decide : (bytes "false").all (0x20 ≤ ·) = true) hb
  | .double d, b, hb => by
    rw [dump] at hb
    exact le_of_mem_dumpFloat hb
  | .float d, b, hb => by
    rw [dump] at hb
    exact le_of_mem_dumpFloat hb
  | .signed si, b, hb => by
    rw [dump] at hb
    exact Decimal.le_of_mem_text hb
  | .unsigned ui, b, hb => by
    rw [dump] at hb
    exact Decimal.le_of_mem_text hb
  | .string s, b, hb => by
    rw [dump] at hb
    exact le_of_mem_dumpString hb
  | .list l, b, hb => by
    simp only [dump, List.mem_cons, List.mem_append, List.not_mem_nil, or_false] at hb
    rcases hb with rfl | hb | rfl
    · decide
    · exact le_of_mem_dumpElements true l hb
    · decide
  | .object o, b, hb => by
    simp only [dump, List.mem_cons, List.mem_append, List.not_mem_nil, or_false] at hb
    rcases hb with rfl | hb | rfl
    · decide
    · exact le_of_mem_dumpMembers true o hb
    · decide

theorem le_of_mem_dumpElements : ∀ (first : Bool) (l : List (WValue F)) {b : UInt8},
    b ∈ dumpElements fmt first l → 0x20 ≤ b
  | _, [], b, hb => by cases hb
  | first, x :: l, b, hb => by
    simp only [dumpElements, List.mem_append] at hb
    rcases hb with (hb | hb) | hb
    · split_ifs at hb
      · cases hb
      · rw [List.mem_singleton.1 hb]
        decide
    · exact le_of_mem_dump x hb
    · exact le_of_mem_dumpElements false l hb

theorem le_of_mem_dumpMembers : ∀ (first : Bool) (o : List (Bytes × WValue F)) {b : UInt8},
    b ∈ dumpMembers fmt first o → 0x20 ≤ b
  | _, [], b, hb => by cases hb
  | first, (key, x) :: o, b, hb => by
    simp only [dumpMembers, List.mem_append] at hb
    rcases hb with (((hb | hb) | hb) | hb) | hb
    · split_ifs at hb
      · cases hb
      · rw [List.mem_singleton.1 hb]
        decide
    · exact le_of_mem_dumpString hb
    · rw [List.mem_singleton.1 hb]
      decide
    · exact le_of_mem_dump x hb
    · exact le_of_mem_dumpMembers false o hb

end

end Crow

end AetherGuard

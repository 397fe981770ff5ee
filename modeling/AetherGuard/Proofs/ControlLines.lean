import AetherGuard.ControlLines
import AetherGuard.Proofs.CrowJson
import AetherGuard.Proofs.Messages

/-!
# Framing by lines

The reader's lines are the segments of the whole stream, however `recv` cuts it, up to the first
whose handling ends the thread. On the sending side every call that returns true ends a line, so a
line is what was left behind by failed calls since the last such call, and then the message; the
message is parsed exactly if nothing was left behind.
-/

namespace AetherGuard

namespace ControlLines

open Lines

/-- The lines of a stream, without the empty ones. -/
def segments (stream : Bytes) : List Bytes := (terminated newline stream).filter (· ≠ [])

/-- The lines up to the first that ends the thread. -/
def through (throws : Bytes → Bool) : List Bytes → List Bytes
  | [] => []
  | line :: lines => if throws line then [line] else line :: through throws lines

section Reader

variable {throws : Bytes → Bool} {r : LineReader} {l rest : Bytes}

theorem segments_of_notMem (h : newline ∉ l) : segments l = [] := by
  rw [segments, terminated_of_notMem h]
  rfl

theorem segments_append_cons (h : newline ∉ l) :
    segments (l ++ newline :: rest) = if l = [] then segments rest else l :: segments rest := by
  rw [segments, terminated_append_cons h, List.filter_cons]
  split_ifs <;> simp_all [segments]

theorem segments_append (l rest : Bytes) :
    segments (l ++ rest) = segments l ++ segments (tail newline l ++ rest) := by
  rw [segments, terminated_append, List.filter_append]
  rfl

theorem idxOf?_append_cons (h : newline ∉ l) :
    (l ++ newline :: rest).idxOf? newline = some l.length := by
  refine List.idxOf?_eq_some_iff.2 ⟨by simp, by simp, fun j hj => ?_⟩
  rw [List.getElem_append_left hj]
  exact fun he => h (he ▸ List.getElem_mem hj)

theorem extract_of_notMem (h : newline ∉ r.lineBuf) : r.extract throws = r := by
  unfold LineReader.extract
  split
  · rfl
  · rename_i pos hpos
    rw [List.idxOf?_eq_none_iff.2 h] at hpos
    cases hpos

theorem extract_append_cons (h : newline ∉ l) (lines : List Bytes) (running : Bool) :
    LineReader.extract throws ⟨l ++ newline :: rest, lines, running⟩ =
      if l = [] then LineReader.extract throws ⟨rest, lines, running⟩
      else if throws l then ⟨rest, lines ++ [l], false⟩
      else LineReader.extract throws ⟨rest, lines ++ [l], running⟩ := by
  rw [LineReader.extract.eq_def]
  split
  · rename_i hnone
    rw [idxOf?_append_cons h] at hnone
    cases hnone
  · rename_i pos hpos
    rw [idxOf?_append_cons h] at hpos
    obtain rfl := Option.some.inj hpos
    simp

theorem through_eq_self {ls : List Bytes} (h : ∀ line ∈ ls, throws line = false) :
    through throws ls = ls := by
  induction ls with
  | nil => rfl
  | cons line ls ih =>
    rw [through, h line List.mem_cons_self, ih fun x hx => h x (List.mem_cons_of_mem _ hx)]
    rfl

theorem through_append {ls ls' : List Bytes} :
    through throws (ls ++ ls') =
      if ls.any throws then through throws ls else ls ++ through throws ls' := by
  induction ls with
  | nil => rfl
  | cons line ls ih =>
    rw [List.cons_append, through, ih, List.any_cons]
    cases hline : throws line <;> cases ls.any throws <;> simp [through, hline]

/-- The reader has come as far as `stream`: it has handed over its lines, up to the first that ends
the thread, and holds the tail. -/
structure HasRead (throws : Bytes → Bool) (r : LineReader) (stream : Bytes) : Prop where
  lines : r.lines = through throws (segments stream)
  running : r.running = !(segments stream).any throws
  lineBuf : r.running = true → r.lineBuf = tail newline stream

theorem extract_spec (throws : Bytes → Bool) (l : Bytes) (lines : List Bytes) :
    let r := LineReader.extract throws ⟨l, lines, true⟩
    r.lines = lines ++ through throws (segments l) ∧ r.running = !(segments l).any throws ∧
      (r.running = true → r.lineBuf = tail newline l) := by
  induction l using Lines.induction newline generalizing lines with
  | notMem l h =>
    rw [extract_of_notMem h, segments_of_notMem h]
    exact ⟨(List.append_nil lines).symm, rfl, fun _ => (tail_of_notMem h).symm⟩
  | line l rest h ih =>
    rw [extract_append_cons h, segments_append_cons h, tail_append_cons h]
    by_cases hl : l = []
    · rw [if_pos hl, if_pos hl]
      exact ih lines
    · rw [if_neg hl, if_neg hl, through]
      cases hthrows : throws l with
      | true => exact ⟨rfl, by simp [hthrows], nofun⟩
      | false =>
        have hrest := ih (lines ++ [l])
        rw [List.append_assoc] at hrest
        simpa [hthrows] using hrest

theorem recv_hasRead {stream : Bytes} (h : HasRead throws r stream) (chunk : Bytes) :
    HasRead throws (r.recv throws chunk) (stream ++ chunk) := by
  have hsegs := segments_append stream chunk
  unfold LineReader.recv
  split_ifs with hrun
  · have hnone : (segments stream).any throws = false := by
      simpa [hrun] using h.running
    obtain ⟨hlines, hrunning, hbuf⟩ :=
      extract_spec throws (r.lineBuf ++ chunk) r.lines
    rw [h.lineBuf hrun] at hlines hrunning hbuf ⊢
    rw [hrun]
    refine ⟨?_, ?_, fun hr => ?_⟩
    · rw [hlines, hsegs, through_append, hnone, h.lines, through_eq_self fun line hline => ?_]
      · rfl
      · simpa using List.any_eq_false.1 hnone line hline
    · rw [hrunning, hsegs, List.any_append, hnone, Bool.false_or]
    · rw [hbuf hr, ← tail_append]
  · have hsome : (segments stream).any throws = true := by
      simpa [hrun] using h.running
    refine ⟨?_, ?_, fun hr => absurd hr hrun⟩
    · rw [hsegs, through_append, hsome, h.lines]
      rfl
    · rw [hsegs, List.any_append, hsome, h.running, hsome]
      rfl

theorem readAll_hasRead (throws : Bytes → Bool) (chunks : List Bytes) :
    HasRead throws (.readAll throws chunks) chunks.flatten := by
  suffices h : ∀ (r : LineReader) (stream : Bytes), HasRead throws r stream →
      HasRead throws (chunks.foldl (LineReader.recv throws) r) (stream ++ chunks.flatten) from
    h ⟨[], [], true⟩ [] ⟨rfl, rfl, fun _ => rfl⟩
  induction chunks with
  | nil => exact fun r stream hr => by simpa using hr
  | cons chunk chunks ih =>
    intro r stream hr
    rw [List.foldl_cons, List.flatten_cons, ← List.append_assoc]
    exact ih _ _ (recv_hasRead hr chunk)

end Reader

/-- The reader has all the lines and the tail exactly if no line ended it. -/
theorem HasRead.eq_iff {throws : Bytes → Bool} {r : LineReader} {stream : Bytes}
    (h : HasRead throws r stream) : r = ⟨tail newline stream, segments stream, true⟩ ↔
      ∀ line ∈ segments stream, throws line = false := by
  have hany : (segments stream).any throws = false ↔
      ∀ line ∈ segments stream, throws line = false := by simp
  rw [← hany]
  constructor
  · intro hr
    have hrunning := h.running
    rw [hr] at hrunning
    simpa using hrunning.symm
  · intro hnone
    have hrun : r.running = true := by rw [h.running, hnone]; rfl
    have hlines := h.lines.trans (through_eq_self (hany.1 hnone))
    rw [← hlines, ← h.lineBuf hrun, ← hrun]

/-! ### Both ends -/

/-- `ctrlReaderThread` handles the line without an exception. -/
def Readable {F : Type*} (load : Bytes → Option (Json F)) (line : Bytes) : Prop :=
  ∀ json, load line = some json → Daemon.ReadableEvent json

section Ends

variable {F : Type*} {load : Bytes → Option (Json F)} {chunks : List Bytes}

theorem throws_eq_false_iff {line : Bytes} :
    ((load line).any fun json => (Daemon.eventOf json).isNone) = false ↔ Readable load line := by
  unfold Readable
  cases load line with
  | none => simp
  | some json =>
    simp only [Option.any_some, Option.some.injEq, forall_eq', ← Daemon.eventOf_isSome_iff]
    cases Daemon.eventOf json <;> simp

theorem controlServerThread_eq (chunks : List Bytes) :
    controlServerThread chunks =
      ⟨tail newline chunks.flatten, segments chunks.flatten, true⟩ :=
  (readAll_hasRead (fun _ => false) chunks).eq_iff.2 fun _ _ => rfl

theorem ctrlReaderThread_eq_iff : ctrlReaderThread load chunks = controlServerThread chunks ↔
    ∀ line ∈ segments chunks.flatten, Readable load line := by
  rw [controlServerThread_eq, ctrlReaderThread, (readAll_hasRead _ chunks).eq_iff]
  simp only [throws_eq_false_iff]

theorem through_eq_self_iff {throws : Bytes → Bool} {ls : List Bytes} :
    through throws ls = ls ↔ ∀ line ∈ ls.dropLast, throws line = false := by
  induction ls with
  | nil => simp [through]
  | cons line ls ih =>
    cases ls with
    | nil => simp [through]
    | cons line' ls =>
      rw [through]
      cases hline : throws line with
      | true => simp [hline]
      | false => simpa [hline] using ih

theorem segments_flatMap {msgs : List Bytes} (h : ∀ m ∈ msgs, m ≠ [] ∧ newline ∉ m) :
    segments (msgs.flatMap fun m => m ++ [newline]) = msgs := by
  rw [segments, terminated_flatMap fun m hm => (h m hm).2]
  exact List.filter_eq_self.2 fun m hm => by simpa using (h m hm).1

/-- However the stream is cut, the relay hands over its lines and keeps the tail, and the daemon
does the same exactly if it can handle every line; messages sent whole are recovered, by the daemon
exactly if it can handle every one but the last. -/
theorem control_lines_framed (load : Bytes → Option (Json F)) (chunks : List Bytes) :
    controlServerThread chunks = ⟨tail newline chunks.flatten, segments chunks.flatten, true⟩ ∧
    (ctrlReaderThread load chunks = controlServerThread chunks ↔
      ∀ line ∈ segments chunks.flatten, Readable load line) ∧
    ∀ msgs : List Bytes, (∀ m ∈ msgs, m ≠ [] ∧ newline ∉ m) →
      chunks.flatten = (msgs.flatMap fun m => m ++ [newline]) →
        (controlServerThread chunks).lines = msgs ∧
        ((ctrlReaderThread load chunks).lines = msgs ↔ ∀ m ∈ msgs.dropLast, Readable load m) := by
  refine ⟨controlServerThread_eq chunks, ctrlReaderThread_eq_iff, fun msgs hmsgs hflat => ?_⟩
  have hsegs : segments chunks.flatten = msgs := by rw [hflat, segments_flatMap hmsgs]
  constructor
  · rw [controlServerThread_eq, hsegs]
  · rw [ctrlReaderThread, (readAll_hasRead _ chunks).lines, hsegs, through_eq_self_iff]
    simp only [throws_eq_false_iff]

/-- The lines `1` and `2`: the relay takes both, and the number ends the daemon's thread. -/
theorem daemon_stops_at_number :
    let load : Bytes → Option (Json ℕ) := fun text => if text = [49] then some (.number 1) else none
    (controlServerThread [[49, 10, 50, 10]]).lines = [[49], [50]] ∧
    (ctrlReaderThread load [[49, 10, 50, 10]]).lines = [[49]] ∧
    (ctrlReaderThread load [[49, 10, 50, 10]]).running = false := by
  intro load
  have hsegs : segments ([[49, 10, 50, 10]] : List Bytes).flatten = [[49], [50]] := by decide
  have hread := readAll_hasRead
    (fun line => (load line).any fun json => (Daemon.eventOf json).isNone) [[49, 10, 50, 10]]
  rw [controlServerThread_eq, hsegs, ctrlReaderThread, hread.lines, hread.running, hsegs]
  simp [load, through, Daemon.eventOf, Json.has]

theorem control_lines_framed_two_messages :
    (∀ m ∈ [[65], [66, 67]], m ≠ [] ∧ newline ∉ m) ∧
    (controlServerThread [[65, 10, 66], [], [67, 10]]).lines = [[65], [66, 67]] := by
  have hmsgs : ∀ m ∈ [[65], [66, 67]], m ≠ [] ∧ newline ∉ m := by decide
  obtain ⟨-, -, hrecover⟩ := control_lines_framed (fun _ => (none : Option (Json ℕ)))
    [[65, 10, 66], [], [67, 10]]
  exact ⟨hmsgs, (hrecover _ hmsgs rfl).1⟩

end Ends

/-! ### Sends that fail -/

section Sends

variable {M : Type*} {c : Codec M} {s : Send c} {sends : List (Send c)} {left : Bytes}

/-- The call failed and put something on the connection. -/
def Send.LeftBehind (s : Send c) : Prop := s.ok = false ∧ s.bytes ≠ []

/-- No call succeeds after one that left something behind. -/
def Clean (sends : List (Send c)) : Prop :=
  sends.Pairwise fun s s' => s.LeftBehind → s'.ok = false

/-- No text parses that begins as one of the messages and has another whole one at its end. -/
def Codec.Unfused (c : Codec M) : Prop :=
  ∀ (left : Bytes) (m m' : M), left ≠ [] → left.head? = (c.dump m').head? →
    c.parse (left ++ c.dump m) = none

theorem Send.bytes_of_ok (h : s.ok = true) : s.bytes = c.dump s.cmd ++ [newline] := by
  have hsent : s.sent = some (c.dump s.cmd ++ [newline]).length := by
    simpa [Send.ok, sendCtrlCommand] using h
  simp only [Send.bytes, sendCtrlCommand, hsent, Option.getD_some, List.take_length]

theorem Send.bytes_of_not_ok (h : s.ok = false) :
    s.bytes = (c.dump s.cmd).take (s.sent.getD 0) := by
  have hle : s.sent.getD 0 ≤ (c.dump s.cmd).length := by
    cases hsent : s.sent with
    | none => exact Nat.zero_le _
    | some n =>
      have hne : n ≠ (c.dump s.cmd).length + 1 := by
        simpa [Send.ok, sendCtrlCommand, hsent] using h
      have hlt := s.sent_le n hsent
      rw [Option.getD_some]
      omega
  exact List.take_append_of_le_length hle

theorem Send.newline_notMem_bytes (h : s.ok = false) : newline ∉ s.bytes := by
  rw [s.bytes_of_not_ok h]
  exact fun hmem => c.newline_notMem s.cmd (List.mem_of_mem_take hmem)

/-- The calls that succeeded, each with what had been left behind since the last; `left` was left
before the first call. -/
def attempts : Bytes → List (Send c) → List (Bytes × M)
  | _, [] => []
  | left, s :: sends =>
    if s.ok then (left, s.cmd) :: attempts [] sends else attempts (left ++ s.bytes) sends

theorem segments_wire (hleft : newline ∉ left) (sends : List (Send c)) :
    segments (left ++ wire sends) = (attempts left sends).map fun p => p.1 ++ c.dump p.2 := by
  induction sends generalizing left with
  | nil => simpa [wire, attempts] using segments_of_notMem hleft
  | cons s sends ih =>
    rw [wire, List.flatMap_cons, attempts]
    cases hok : s.ok with
    | true =>
      have hmem : newline ∉ left ++ c.dump s.cmd := by
        simpa [hleft] using c.newline_notMem s.cmd
      have hne : left ++ c.dump s.cmd ≠ [] := by simp [c.dump_ne_nil]
      have hcut : left ++ (c.dump s.cmd ++ [newline] ++ wire sends) =
          left ++ c.dump s.cmd ++ newline :: wire sends := by simp
      have hrest := ih (List.not_mem_nil : newline ∉ [])
      rw [s.bytes_of_ok hok, show sends.flatMap Send.bytes = wire sends from rfl, hcut,
        segments_append_cons hmem, if_neg hne, if_pos rfl, List.map_cons]
      exact congrArg _ hrest
    | false =>
      rw [← List.append_assoc]
      exact ih (by simpa [hleft] using s.newline_notMem_bytes hok)

theorem map_snd_attempts (left : Bytes) (sends : List (Send c)) :
    (attempts left sends).map Prod.snd = succeeded sends := by
  induction sends generalizing left with
  | nil => rfl
  | cons s sends ih =>
    rw [attempts, succeeded, List.filter_cons]
    split_ifs with hok
    · simp [ih, succeeded]
    · simp [ih, succeeded]

/-- Nothing was left behind in front of a success. -/
theorem attempts_clean_iff : (∀ p ∈ attempts left sends, p.1 = []) ↔
    (left ≠ [] → ∀ s ∈ sends, s.ok = false) ∧ Clean sends := by
  induction sends generalizing left with
  | nil => simp [attempts, Clean]
  | cons s sends ih =>
    rw [attempts, Clean, List.pairwise_cons]
    cases hok : s.ok with
    | true =>
      have hnot : ¬ s.LeftBehind := fun h => by simp [h.1] at hok
      rw [if_pos rfl, List.forall_mem_cons, ih]
      simp [hok, hnot, Clean]
    | false =>
      have hbehind : s.LeftBehind ↔ s.bytes ≠ [] := and_iff_right hok
      simp only [if_neg Bool.false_ne_true, ih, hbehind, List.forall_mem_cons, hok, true_and,
        ne_eq, List.append_eq_nil_iff, not_and_or, Clean]
      tauto

/-- What is left in front of a success begins as a message does. -/
theorem head?_attempts (hleft : left ≠ [] → ∃ m, left.head? = (c.dump m).head?) :
    ∀ p ∈ attempts left sends, p.1 ≠ [] → ∃ m, p.1.head? = (c.dump m).head? := by
  induction sends generalizing left with
  | nil => simp [attempts]
  | cons s sends ih =>
    rw [attempts]
    split_ifs with hok
    · rw [List.forall_mem_cons]
      exact ⟨hleft, ih (by simp)⟩
    · refine ih fun hne => ?_
      by_cases hl : left = []
      · have hbytes := s.bytes_of_not_ok (by simpa using hok)
        rw [hl, List.nil_append] at hne ⊢
        have hpos : s.sent.getD 0 ≠ 0 := by
          intro h0
          rw [hbytes, h0, List.take_zero] at hne
          exact hne rfl
        exact ⟨s.cmd, by rw [hbytes, List.head?_take, if_neg hpos]⟩
      · obtain ⟨m, hm⟩ := hleft hl
        exact ⟨m, by rw [List.head?_append_of_ne_nil _ hl, hm]⟩

theorem parsed_eq (sends : List (Send c)) {chunks : List Bytes} (h : chunks.flatten = wire sends) :
    parsed c chunks = (attempts [] sends).filterMap fun p => c.parse (p.1 ++ c.dump p.2) := by
  have hsegs := segments_wire (List.not_mem_nil : newline ∉ []) sends
  rw [List.nil_append, ← h] at hsegs
  rw [parsed, controlServerThread_eq, hsegs, List.filterMap_map]
  rfl

theorem parsed_of_clean {chunks : List Bytes} (h : chunks.flatten = wire sends)
    (hclean : Clean sends) : parsed c chunks = succeeded sends := by
  have hempty : ∀ p ∈ attempts [] sends, p.1 = [] := attempts_clean_iff.2 ⟨by simp, hclean⟩
  rw [parsed_eq sends h, ← map_snd_attempts [], ← List.filterMap_eq_map]
  refine List.filterMap_congr fun p hp => ?_
  rw [hempty p hp, List.nil_append, c.parse_dump]
  rfl

/-- The relay parses exactly the commands that were sent successfully, if none of them was sent
after a short one; with texts that do not parse when they are fused, only then. -/
theorem parsed_eq_succeeded (c : Codec M) (sends : List (Send c)) (chunks : List Bytes)
    (h : chunks.flatten = wire sends) :
    (Clean sends → parsed c chunks = succeeded sends) ∧
    (c.Unfused → parsed c chunks = succeeded sends → Clean sends) := by
  refine ⟨parsed_of_clean h, fun hunfused heq => ?_⟩
  suffices hempty : ∀ p ∈ attempts [] sends, p.1 = [] from (attempts_clean_iff.1 hempty).2
  by_contra hsome
  push Not at hsome
  obtain ⟨p, hp, hne⟩ := hsome
  obtain ⟨m, hm⟩ := head?_attempts (by simp) p hp hne
  have hlt : (parsed c chunks).length < (attempts [] sends).length := by
    rw [parsed_eq sends h, List.length_filterMap_lt_length_iff_exists]
    exact ⟨p, hp, hunfused p.1 p.2 m hne hm⟩
  rw [heq, ← map_snd_attempts [], List.length_map] at hlt
  exact lt_irrefl _ hlt

/-- The one message `\x7b"command":"SCAN"\x7d`. -/
def scanCodec : Codec Unit where
  dump _ := "\x7b\"command\":\"SCAN\"\x7d".toList.map fun ch => UInt8.ofNat ch.toNat
  parse text :=
    if text = "\x7b\"command\":\"SCAN\"\x7d".toList.map (fun ch => UInt8.ofNat ch.toNat)
    then some () else none
  parse_dump _ := if_pos rfl
  dump_ne_nil _ := by decide
  newline_notMem _ := by decide

/-- The first send stops short of the newline; the second succeeds and is lost. -/
theorem short_send_loses_next :
    let sends : List (Send scanCodec) := [⟨(), some 18, by decide⟩, ⟨(), some 19, by decide⟩]
    succeeded sends = [()] ∧ parsed scanCodec [wire sends] = [] := by
  intro sends
  refine ⟨by decide, ?_⟩
  rw [parsed_eq sends (by simp)]
  decide

theorem parsed_eq_succeeded_second_fails :
    let sends : List (Send scanCodec) := [⟨(), some 19, by decide⟩, ⟨(), some 5, by decide⟩]
    Clean sends ∧ parsed scanCodec [wire sends] = succeeded sends := by
  intro sends
  have hclean : Clean sends := List.pairwise_pair.2 fun h => absurd h.1 (by decide)
  exact ⟨hclean, (parsed_eq_succeeded scanCodec sends [wire sends] (by simp)).1 hclean⟩

end Sends

/-! ### What the daemon writes -/

section Dumps

open Crow

variable {F : Type*}

/-- No text that the daemon's JSON library writes is empty or has a newline in it, whatever is in
its strings: written one to a line the documents come out of the relay's reader one by one, however
the connection is cut, and nothing is left over. -/
theorem dumps_are_lines (fmt : Format F) (docs : List (WValue F)) (chunks : List Bytes)
    (hchunks : chunks.flatten = docs.flatMap fun v => v.dump fmt ++ [newline]) :
    controlServerThread chunks = ⟨[], docs.map (·.dump fmt), true⟩ := by
  have hline : ∀ m ∈ docs.map (·.dump fmt), m ≠ [] ∧ newline ∉ m := by
    intro m hm
    obtain ⟨v, -, rfl⟩ := List.mem_map.1 hm
    obtain ⟨c, text, htext, -⟩ := dump_head fmt v
    refine ⟨by rw [htext]; exact List.cons_ne_nil c text, fun hnewline => ?_⟩
    exact absurd (le_of_mem_dump fmt v hnewline) (by decide)
  have hsegments := segments_flatMap hline
  have htail := tail_flatMap fun m hm => (hline m hm).2
  rw [List.flatMap_map] at hsegments htail
  rw [controlServerThread_eq, hchunks, hsegments, htail]

/-- Two documents, cut in the middle of the second. -/
theorem dumps_are_lines_cut :
    controlServerThread [bytes "[]\nnu", bytes "ll\n"]
    = ⟨[], [bytes "[]", bytes "null"], true⟩ := by
  have hflat : [bytes "[]\nnu", bytes "ll\n"].flatten
      = [WValue.list [], .null].flatMap fun v =>
        v.dump (⟨fun _ => none, fun _ => none⟩ : Format ℕ) ++ [newline] := by
    simp only [List.flatMap_cons, List.flatMap_nil, WValue.dump, WValue.dumpElements]
    decide
  rw [dumps_are_lines ⟨fun _ => none, fun _ => none⟩ [WValue.list [], .null]
    [bytes "[]\nnu", bytes "ll\n"] hflat]
  simp only [List.map_cons, List.map_nil, WValue.dump, WValue.dumpElements]
  rfl

end Dumps

end ControlLines

end AetherGuard

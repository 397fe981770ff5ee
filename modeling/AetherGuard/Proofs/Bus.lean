import AetherGuard.Bus
import AetherGuard.Proofs.ControlLines
import AetherGuard.Proofs.CrowJson

/-!
# Commands arrive as they were meant

A message holds strings and numbers under different keys, so whatever order its members are written
in, the reader finds under every key what the handler put there (`busLoad_dump`). A handler's
message then says to `commandListener` what the gateway's command says (`tells_of_cmd`), and the
gateway with texts follows the one without them step by step (`Sim.step`). The worker's messages are
read in the same way; the text in one is the text of the request, byte by byte.
-/

namespace AetherGuard

open Crow Daemon Api

variable {F : Type*} {shuffle : Shuffle F} {fmt : Format F} {read : Bytes → F}

/-! ### A message and its members -/

/-- With no key twice, a member is the one that is found under its key. -/
theorem lookup_eq_some_iff {β : Type*} {l : List (String × β)} (hnd : (l.map Prod.fst).Nodup)
    {key : String} {v : β} : l.lookup key = some v ↔ (key, v) ∈ l := by
  induction l with
  | nil => simp
  | cons kv l ih =>
    obtain ⟨k, w⟩ := kv
    rw [List.map_cons, List.nodup_cons] at hnd
    by_cases hk : key = k
    · subst hk
      have hnot : (key, v) ∉ l := fun h => hnd.1 (List.mem_map.2 ⟨_, h, rfl⟩)
      simp [hnot, eq_comm]
    · have hbeq : (key == k) = false := beq_eq_false_iff_ne.2 hk
      simp [List.lookup_cons, hbeq, hk, ih hnd.2]

/-- So the order of the members does not matter. -/
theorem lookup_of_perm {β : Type*} {l l' : List (String × β)} (h : l.Perm l')
    (hnd : (l'.map Prod.fst).Nodup) (key : String) : l.lookup key = l'.lookup key := by
  have hnd' : (l.map Prod.fst).Nodup := (h.map Prod.fst).nodup_iff.2 hnd
  ext v
  rw [lookup_eq_some_iff hnd, lookup_eq_some_iff hnd', h.mem_iff]

theorem membersToJson_eq {N : Type*} (number : Bytes → N) (o : Members F) :
    WValue.membersToJson fmt number o
      = o.map fun kx => (latin1 kx.1, kx.2.toJson fmt number) := by
  induction o with
  | nil => rfl
  | cons kx o ih =>
    obtain ⟨key, x⟩ := kx
    rw [WValue.membersToJson, ih, List.map_cons]

/-- The members are strings and numbers. -/
def Flat (o : Members F) : Prop := ∀ kx ∈ o, kx.2.height = 0

theorem heightMembers_eq_zero {o : Members F} (h : Flat o) : WValue.heightMembers o = 0 := by
  induction o with
  | nil => rfl
  | cons kx o ih =>
    obtain ⟨key, x⟩ := kx
    have hx : x.height = 0 := h (key, x) List.mem_cons_self
    rw [WValue.heightMembers, hx, ih fun kx hkx => h kx (List.mem_cons_of_mem _ hkx)]
    rfl

theorem cBytes_dump (v : WValue F) : cBytes (v.dump fmt) = v.dump fmt := by
  refine List.takeWhile_eq_self_iff.2 fun c hc => ?_
  have hle := le_of_mem_dump fmt v hc
  have hne : c ≠ 0 := by
    rintro rfl
    exact absurd hle (by decide)
  simpa using hne

variable (shuffle fmt read) in
/-- What is read of a message are the members that were put into it. -/
theorem busLoad_dump {o : Members F} (hflat : Flat o)
    (hnd : (o.map fun kx => latin1 kx.1).Nodup) : ∃ fields,
      busLoad read (cBytes (shuffle.dump fmt o)) = some (.object fields)
        ∧ ∀ key, fields.lookup key
          = (o.map fun kx => (latin1 kx.1, kx.2.toJson fmt read)).lookup key := by
  have hflat' : Flat (shuffle.order o) := fun kx hkx => hflat kx ((shuffle.perm o).mem_iff.1 hkx)
  refine ⟨(shuffle.order o).map fun kx => (latin1 kx.1, kx.2.toJson fmt read), ?_, fun key => ?_⟩
  · rw [Shuffle.dump, cBytes_dump, busLoad, load_dump, WValue.height, heightMembers_eq_zero hflat',
      if_pos (by omega), Option.map_some, loaded_toJson, WValue.toJson, membersToJson_eq]
  · refine lookup_of_perm ((shuffle.perm o).map _) ?_ key
    rwa [List.map_map]

/-! ### Commands for the daemon -/

variable (fmt read) in
/-- The number is read back as itself. -/
def Reads (f : F) : Prop := floatToJson read (fmt.general f) = .number f

variable {stod : String → Option F} {s : Control F}

theorem takeMessage_eq {o : Members F} (hflat : Flat o) (hnd : (o.map fun kx => latin1 kx.1).Nodup)
    {c : Command F} (hc : parseCommand stod
      (.object (o.map fun kx => (latin1 kx.1, kx.2.toJson fmt read))) = some c) :
    s.takeMessage (busLoad read) stod (shuffle.dump fmt o) = some (s.receive c) := by
  obtain ⟨fields, hload, hlookup⟩ := busLoad_dump shuffle fmt read hflat hnd
  have hparse : parseCommand stod (.object fields) = some c := by
    rw [← hc]
    simp only [parseCommand, freqField, Json.get, Json.has, hlookup]
  simp only [Control.takeMessage, hload, hparse, Option.map_some]

/-- A command without a frequency. -/
theorem takeMessage_command (name : String) :
    s.takeMessage (busLoad read) stod (shuffle.dump fmt [Api.command name])
      = some (s.receive ⟨commandName (latin1 (bytes name)), .absent⟩) := by
  refine takeMessage_eq (fun kx hkx => ?_) ?_ ?_
  · rw [List.mem_singleton.1 hkx, Api.command, WValue.height]
  · exact List.nodup_singleton _
  · rw [List.map_singleton, Api.command, WValue.toJson]
    rfl

/-- A command with one. -/
theorem takeMessage_freq (name : String) {f : F} (hf : Reads fmt read f) :
    s.takeMessage (busLoad read) stod
      (shuffle.dump fmt [Api.command name, (bytes "freq", .double f)])
      = some (s.receive ⟨commandName (latin1 (bytes name)), .value f⟩) := by
  refine takeMessage_eq (fun kx hkx => ?_) ?_ ?_
  · rcases List.mem_pair.1 hkx with rfl | rfl
    · rw [Api.command, WValue.height]
    · rw [WValue.height]
  · show ["command", "freq"].Nodup
    decide
  · rw [List.map_cons, List.map_singleton, Api.command, WValue.toJson, WValue.toJson, hf]
    rfl

/-- The frequencies in the request are read back as themselves. -/
def BusGateway.Act.FreqOk (fmt : Format F) (read : Bytes → F) : BusGateway.Act F → Prop
  | .post route body => ∀ x f, route.document read body = some x →
      (x.get "freq").bind Json.d = some f → Reads fmt read f
  | _ => True

/-- The message says what the command says, to a listener in any state. -/
def Tells (read : Bytes → F) (stod : String → Option F) (msg : Bytes) (c : Command F) : Prop :=
  ∀ s : Control F, s.takeMessage (busLoad read) stod msg = some (s.receive c)

theorem tells_freq (name : String) {x : Json F}
    (hok : ∀ f, (x.get "freq").bind Json.d = some f → Reads fmt read f) :
    Option.Rel (fun o c => Tells read stod (shuffle.dump fmt o) c)
      ((Api.freq x).map fun f => [Api.command name, f])
      (((x.get "freq").bind Json.d).map fun f =>
        ⟨commandName (latin1 (bytes name)), .value f⟩) := by
  cases hf : (x.get "freq").bind Json.d with
  | none =>
    rw [Api.freq, hf]
    exact .none
  | some f =>
    rw [Api.freq, hf]
    exact .some fun s => takeMessage_freq name (hok f hf)

variable (shuffle stod) in
/-- A handler publishes where the gateway does, and its message says the gateway's command. -/
theorem tells_of_cmd (route : ScanRoute) {x : Json F}
    (hok : ∀ f, (x.get "freq").bind Json.d = some f → Reads fmt read f) :
    Option.Rel (fun o c => Tells read stod (shuffle.dump fmt o) c) (route.cmd x)
      (route.command x) := by
  cases route with
  | tune => exact tells_freq "TUNE" hok
  | record => exact tells_freq "RECORD" hok
  | wideband => exact .some fun s => takeMessage_command "SCAN"
  | live =>
    simp only [ScanRoute.cmd, ScanRoute.command]
    cases (x.get "action").bind Json.s with
    | none => exact .none
    | some action =>
      rw [Option.bind_some, Option.bind_some]
      by_cases hstart : action = "start"
      · rw [if_pos hstart, if_pos hstart]
        cases x.has "freq" with
        | none => exact .none
        | some hasFreq =>
          cases hasFreq with
          | true => exact tells_freq "LIVE_LISTEN" hok
          | false => exact .some fun s => takeMessage_command "LIVE_LISTEN"
      · rw [if_neg hstart, if_neg hstart]
        exact .some fun s => takeMessage_command "STOP_LIVE"

namespace BusGateway

/-- The gateway with the texts is the one without them, text for command. -/
def Sim (read : Bytes → F) (stod : String → Option F) (b : BusGateway F) (g : Gateway F) : Prop :=
  b.daemon = g.daemon ∧ List.Forall₂ (Tells read stod) b.sdrCommands g.sdrCommands

variable {b : BusGateway F} {g : Gateway F}

theorem Sim.post (h : Sim read stod b g) {route : ScanRoute} {body : Bytes}
    (hok : (Act.post route body).FreqOk fmt read) :
    Sim read stod (b.post shuffle fmt read route body)
      (abstractStep read g (.post route body)) := by
  simp only [BusGateway.post, abstractStep]
  cases hx : route.document read body with
  | none => exact h
  | some x =>
    rw [Option.bind_some, Option.bind_some]
    have hrel := tells_of_cmd shuffle stod route fun f => hok x f hx
    generalize route.cmd x = o, route.command x = c at hrel
    cases hrel with
    | none => exact h
    | some htells => exact ⟨h.1, List.rel_append h.2 (.cons htells .nil)⟩

theorem Sim.takeCommand (h : Sim read stod b g) :
    ∃ b', b.takeCommand read stod = some b' ∧ Sim read stod b' g.takeCommand := by
  obtain ⟨daemon, msgs⟩ := b
  obtain ⟨daemon', cmds⟩ := g
  obtain ⟨rfl, hqueue⟩ := h
  simp only [BusGateway.takeCommand, Gateway.takeCommand]
  cases hqueue with
  | nil => exact ⟨_, rfl, rfl, .nil⟩
  | cons htells hqueue =>
    cases hl : daemon.listener with
    | idle => exact ⟨⟨daemon.receive _, _⟩, congrArg (Option.map _) (htells daemon), rfl, hqueue⟩
    | _ => exact ⟨_, rfl, rfl, .cons htells hqueue⟩

variable (shuffle) in
theorem Sim.step (h : Sim read stod b g) {a : Act F} (hok : a.FreqOk fmt read) :
    ∃ b', b.step shuffle fmt read stod a = some b' ∧ Sim read stod b' (abstractStep read g a) := by
  cases a with
  | post route body => exact ⟨_, rfl, h.post hok⟩
  | takeCommand => exact h.takeCommand
  | daemon a =>
    obtain ⟨daemon, msgs⟩ := b
    obtain ⟨daemon', cmds⟩ := g
    obtain ⟨rfl, hqueue⟩ := h
    cases a with
    | command c => exact ⟨_, rfl, rfl, hqueue⟩
    | _ => exact ⟨_, rfl, rfl, hqueue⟩

end BusGateway

/-- Whatever the order of the members in the texts, the daemon never meets a message that it
cannot handle, and it is at every moment where it would be if the commands themselves had been
passed on. -/
theorem bus_refines_gateway (shuffle : Shuffle F) (fmt : Format F) (read : Bytes → F)
    (stod : String → Option F) (initial : F) (acts : List (BusGateway.Act F))
    (hok : ∀ a ∈ acts, a.FreqOk fmt read) :
    ∃ b, (BusGateway.init initial).run shuffle fmt read stod acts = some b
      ∧ b.daemon = (acts.foldl (BusGateway.abstractStep read) (Gateway.init initial)).daemon
      ∧ List.Forall₂ (Tells read stod) b.sdrCommands
        (acts.foldl (BusGateway.abstractStep read) (Gateway.init initial)).sdrCommands := by
  have hrun : ∀ (acts : List (BusGateway.Act F)) (b : BusGateway F) (g : Gateway F),
      b.Sim read stod g → (∀ a ∈ acts, a.FreqOk fmt read) →
      ∃ b', b.run shuffle fmt read stod acts = some b'
        ∧ b'.Sim read stod (acts.foldl (BusGateway.abstractStep read) g) := by
    intro acts
    induction acts with
    | nil => exact fun b g h _ => ⟨b, rfl, h⟩
    | cons a acts ih =>
      intro b g h hok
      obtain ⟨b1, hstep, h1⟩ := h.step shuffle (hok a List.mem_cons_self)
      obtain ⟨b2, hrun, h2⟩ := ih b1 _ h1 fun a ha => hok a (List.mem_cons_of_mem _ ha)
      exact ⟨b2, by rw [BusGateway.run, hstep, Option.bind_some, hrun], h2⟩
  exact hrun acts _ _ ⟨rfl, .nil⟩ hok

/-- One number, and its text. -/
def onAir : Format ℕ := ⟨fun _ => some (Decimal.ofInt 97), fun _ => none⟩

def onAirRead (text : Bytes) : ℕ := if text = bytes "97" then 97 else 0

theorem onAir_reads : Reads onAir onAirRead 97 := by
  have htext : (Decimal.ofInt 97).text = bytes "97" := by
    simp [Decimal.text, Decimal.ofInt, Decimal.natDigits, Decimal.fracText, Decimal.expText]
    decide
  have hread : onAirRead (trim (bytes "97")) = 97 := by decide
  show Json.number (onAirRead (trim (Decimal.ofInt 97).text)) = .number 97
  rw [htext, hread]

/-- A body with these members. -/
theorem busLoad_onAir {o : Members ℕ} (h : Flat o) :
    busLoad onAirRead ((WValue.object o).dump onAir)
      = some (.object (WValue.membersToJson onAir onAirRead o)) := by
  rw [busLoad, load_dump, WValue.height, heightMembers_eq_zero h, if_pos (by omega),
    Option.map_some, loaded_toJson, WValue.toJson]

/-- A request to tune, and the daemon that takes it. -/
theorem bus_refines_gateway_tune :
    ∃ b, (BusGateway.init 88).run ⟨id, fun _ => .refl _⟩ onAir onAirRead (fun _ => none)
        [.post .tune ((WValue.object [(bytes "freq", .double 97)]).dump onAir), .takeCommand]
        = some b
      ∧ b.daemon.gCurrentFreq = 97 := by
  have hdoc : ScanRoute.document onAirRead ((WValue.object [(bytes "freq", .double 97)]).dump onAir)
      .tune = some (.object [("freq", .number 97)]) := by
    refine (busLoad_onAir fun kx hkx => ?_).trans ?_
    · rw [List.mem_singleton.1 hkx, WValue.height]
    · rw [membersToJson_eq, List.map_singleton, WValue.toJson, onAir_reads]
      rfl
  obtain ⟨b, hrun, hdaemon, -⟩ := bus_refines_gateway ⟨id, fun _ => .refl _⟩ onAir onAirRead
    (fun _ => none) 88 [.post .tune ((WValue.object [(bytes "freq", .double 97)]).dump onAir),
      .takeCommand] (by
      intro a ha
      rcases List.mem_pair.1 ha with rfl | rfl
      · intro x f hx hf
        rw [hdoc] at hx
        cases hx
        cases hf
        exact onAir_reads
      · trivial)
  refine ⟨b, hrun, ?_⟩
  rw [hdaemon]
  simp only [List.foldl_cons, List.foldl_nil, BusGateway.abstractStep, hdoc, Option.bind_some]
  rfl

/-! ### Requests to the worker -/

theorem ch_ofNat (c : UInt8) : ch (Char.ofNat c.toNat) = c := by
  have hlt : c.toNat < 256 := c.toNat_lt
  have hvalid : c.toNat.isValidChar := .inl (by omega)
  have hval : (Char.ofNat c.toNat).val.toNat = c.toNat := by
    rw [Char.ofNat, dif_pos hvalid]
    rfl
  apply UInt8.toNat_inj.1
  rw [ch, Char.toUInt8, UInt32.toNat_toUInt8, hval]
  omega

theorem bytes_latin1 (b : Bytes) : bytes (latin1 b) = b := by
  rw [bytes, latin1, String.toList_ofList, List.map_map]
  have hid : ch ∘ (fun c : UInt8 => Char.ofNat c.toNat) = id := funext ch_ofNat
  rw [hid, List.map_id]

/-- A string that was read is what the writer makes of it again. -/
theorem latin1_bytes_of_toJson {r : RValue} {t : String} (h : (r.toJson read).s = some t) :
    latin1 (bytes t) = t := by
  cases r <;> simp only [RValue.toJson, Json.s, reduceCtorEq, Option.some.injEq] at h
  rw [← h, bytes_latin1]

theorem lookup_membersToJson {l : List (Bytes × RValue)} {key : String} {v : Json F}
    (h : (Crow.membersToJson read l).lookup key = some v) : ∃ r : RValue, v = r.toJson read := by
  induction l with
  | nil => cases h
  | cons kr l ih =>
    obtain ⟨k, r⟩ := kr
    rw [Crow.membersToJson, List.lookup_cons] at h
    cases hk : key == latin1 k with
    | true =>
      rw [hk] at h
      exact ⟨r, (Option.some.inj h).symm⟩
    | false =>
      rw [hk] at h
      exact ih h

theorem latin1_bytes_text {body : Bytes} {x : Json F} (hx : busLoad read body = some x) {t : String}
    (ht : (x.get "text").bind Json.s = some t) : latin1 (bytes t) = t := by
  obtain ⟨r, -, rfl⟩ := Option.map_eq_some_iff.1 hx
  obtain ⟨v, hv, ht⟩ := Option.bind_eq_some_iff.1 ht
  cases r with
  | object l =>
    rw [RValue.toJson] at hv
    obtain ⟨r, rfl⟩ := lookup_membersToJson hv
    exact latin1_bytes_of_toJson ht
  | _ => simp [RValue.toJson, Json.get] at hv

variable {engines : AiWorker.Engines}

/-- The worker sees the members, in whatever order. -/
theorem main_dump {o : Members F} (hflat : Flat o) (hnd : (o.map fun kx => latin1 kx.1).Nodup) :
    AiWorker.main (busLoad read) engines (shuffle.dump fmt o)
      = AiWorker.main
        (fun _ => some (.object (o.map fun kx => (latin1 kx.1, kx.2.toJson fmt read))))
        engines [] := by
  obtain ⟨fields, hload, hlookup⟩ := busLoad_dump shuffle fmt read hflat hnd
  simp only [AiWorker.main, hload, AiWorker.command, Json.get, hlookup]

theorem main_transcribe (name : String) {f : F} (hf : Reads fmt read f) :
    AiWorker.main (busLoad read) engines
        (shuffle.dump fmt [Api.command name, (bytes "freq", .double f)])
      = AiWorker.command engines (.object [("command", .string (latin1 (bytes name))),
          ("freq", .number f)]) (latin1 (bytes name)) f := by
  rw [main_dump (fun kx hkx => ?_)]
  · rw [List.map_cons, List.map_singleton, Api.command, WValue.toJson, WValue.toJson, hf]
    rfl
  · show ["command", "freq"].Nodup
    decide
  · rcases List.mem_pair.1 hkx with rfl | rfl
    · rw [Api.command, WValue.height]
    · rw [WValue.height]

theorem main_summarize (name : String) {f : F} (hf : Reads fmt read f) {t : String}
    (ht : latin1 (bytes t) = t) :
    AiWorker.main (busLoad read) engines
        (shuffle.dump fmt [Api.command name, (bytes "freq", .double f),
          (bytes "text", .string (bytes t))])
      = AiWorker.command engines (.object [("command", .string (latin1 (bytes name))),
          ("freq", .number f), ("text", .string t)]) (latin1 (bytes name)) f := by
  rw [main_dump (fun kx hkx => ?_)]
  · rw [List.map_cons, List.map_cons, List.map_singleton, Api.command, WValue.toJson, WValue.toJson,
      WValue.toJson, hf, ht]
    rfl
  · show ["command", "freq", "text"].Nodup
    decide
  · simp only [List.mem_cons, List.not_mem_nil, or_false] at hkx
    rcases hkx with rfl | rfl | rfl
    · rw [Api.command, WValue.height]
    · rw [WValue.height]
    · rw [WValue.height]

/-- Whatever a request to an AI endpoint is published as, the worker takes it and works on exactly
the frequency and the text of the request, if the frequency is printed so that it is read back. -/
theorem worker_gets_request (shuffle : Shuffle F) (fmt : Format F) (read : Bytes → F)
    (engines : AiWorker.Engines) (route : AiRoute) {body : Bytes} {x : Json F}
    (hx : busLoad read body = some x) {o : Members F} (ho : route.cmd x = some o)
    (hok : ∀ f, (x.get "freq").bind Json.d = some f → Reads fmt read f) :
    ∃ f, (x.get "freq").bind Json.d = some f
      ∧ AiWorker.main (busLoad read) engines (shuffle.dump fmt o)
        = some [route.event engines f (((x.get "text").bind Json.s).getD "")] := by
  cases hf : (x.get "freq").bind Json.d with
  | none => cases route <;> simp [AiRoute.cmd, Api.freq, hf] at ho
  | some f =>
    refine ⟨f, rfl, ?_⟩
    cases route with
    | transcribeLocal =>
      simp only [AiRoute.cmd, Api.freq, hf, Option.map_some, Option.some.injEq] at ho
      rw [← ho, main_transcribe _ (hok f hf)]
      rfl
    | transcribeOpenai =>
      simp only [AiRoute.cmd, Api.freq, hf, Option.map_some, Option.some.injEq] at ho
      rw [← ho, main_transcribe _ (hok f hf)]
      rfl
    | summarizeLocal =>
      cases ht : (x.get "text").bind Json.s with
      | none => simp [AiRoute.cmd, Api.freq, Api.text, hf, ht] at ho
      | some t =>
        simp only [AiRoute.cmd, Api.freq, Api.text, hf, ht, Option.map_some, Option.bind_some,
          Option.some.injEq] at ho
        rw [← ho, main_summarize _ (hok f hf) (latin1_bytes_text hx ht)]
        rfl
    | summarizeOpenai =>
      cases ht : (x.get "text").bind Json.s with
      | none => simp [AiRoute.cmd, Api.freq, Api.text, hf, ht] at ho
      | some t =>
        simp only [AiRoute.cmd, Api.freq, Api.text, hf, ht, Option.map_some, Option.bind_some,
          Option.some.injEq] at ho
        rw [← ho, main_summarize _ (hok f hf) (latin1_bytes_text hx ht)]
        rfl

theorem worker_gets_request_summarize :
    AiWorker.main (busLoad onAirRead) ⟨"", fun t => t, "", fun _ => ""⟩
        (Shuffle.dump ⟨id, fun _ => .refl _⟩ onAir [Api.command "SUMMARIZE_LOCAL",
          (bytes "freq", .double 97), (bytes "text", .string (bytes "a"))])
      = some [.summaryComplete "a" 97] := by
  have hload : busLoad onAirRead ((WValue.object [(bytes "freq", .double 97),
      (bytes "text", .string (bytes "a"))]).dump onAir)
      = some (.object [("freq", .number 97), ("text", .string "a")]) := by
    refine (busLoad_onAir fun kx hkx => ?_).trans ?_
    · rcases List.mem_pair.1 hkx with rfl | rfl
      · rw [WValue.height]
      · rw [WValue.height]
    · rw [membersToJson_eq, List.map_cons, List.map_singleton, WValue.toJson, WValue.toJson,
        onAir_reads]
      rfl
  obtain ⟨f, hf, hmain⟩ := worker_gets_request ⟨id, fun _ => .refl _⟩ onAir onAirRead
    ⟨"", fun t => t, "", fun _ => ""⟩ .summarizeLocal hload rfl (by
      intro f hf
      cases hf
      exact onAir_reads)
  cases hf
  exact hmain

end AetherGuard

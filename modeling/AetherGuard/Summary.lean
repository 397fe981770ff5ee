import AetherGuard.Messages

/-!
# The local summary

`GenerateSummary` puts the transcript into a prompt, lets llama.cpp split it into tokens, writes one
batch entry per token and has the batch decoded. Then it picks the most likely token, writes it to
entry 0 and has that decoded, until the model ends the text, a decode fails or `n_cur` has passed
2048.

What llama.cpp does during the call is a parameter. The results of its decodes and the logits after
each are sequences, so that they can be any function of what came before. The state logs every index
of the batch arrays that is written and every position that is decoded. The batch arrays have an
entry at each integer: the log says which of them lie in the memory that was allocated.
-/

namespace AetherGuard

namespace Summary

/-- One index of the arrays of a `llama_batch`. -/
structure Entry where
  token : ℕ
  pos : ℕ
  nSeqId : ℕ
  seqId : ℕ
  logits : Bool

/-- What llama.cpp does in one call of `GenerateSummary`. -/
structure Llama (F : Type*) where
  /-- The model is there, or its file loads. -/
  loads : Bool
  tokens : Bytes → List ℕ
  /-- The memory of a new batch. -/
  fresh : ℤ → Entry
  /-- The result of each `llama_decode`. -/
  decode : ℕ → ℤ
  /-- The logits of the vocabulary after that many decodes. -/
  logits : ℕ → List F
  isEog : ℕ → Bool
  /-- What `llama_token_to_piece` writes, where it returns a positive count. -/
  piece : ℕ → Option Bytes

structure State where
  nTokens : ℕ
  entries : ℤ → Entry
  decodes : ℕ
  writes : List ℤ
  positions : List ℕ

def nCtx : ℕ := 2048

/-- The entries `llama_batch_init` is asked for. -/
def batchSize : ℕ := 2048

/-- Every write so far went to the batch's own entries, and every position is one of the context. -/
def State.Within (s : State) : Prop :=
  (∀ i ∈ s.writes, 0 ≤ i ∧ i < batchSize) ∧ ∀ p ∈ s.positions, p < nCtx

def State.write (s : State) (i : ℤ) (entry : Entry) : State :=
  { s with entries := Function.update s.entries i entry, writes := s.writes ++ [i] }

/-- The positions of the batch's entries. -/
def State.batchPositions (s : State) : List ℕ :=
  (List.range s.nTokens).map fun j : ℕ => (s.entries j).pos

def State.llamaDecode (s : State) : State :=
  { s with decodes := s.decodes + 1, positions := s.positions ++ s.batchPositions }

/-- The prompt's token with index `i` becomes the next entry. -/
def add (s : State) (i token : ℕ) : State :=
  { s.write s.nTokens ⟨token, i, 1, 0, false⟩ with nTokens := s.nTokens + 1 }

/-- The loop over `tokens_list`, from index `i` on. -/
def fill (s : State) : ℕ → List ℕ → State
  | _, [] => s
  | i, token :: tokens => fill (add s i token) (i + 1) tokens

/-- `batch.logits[batch.n_tokens - 1] = true`. -/
def markLast (s : State) : State :=
  let last : ℤ := s.nTokens - 1
  s.write last { s.entries last with logits := true }

/-- Entry 0 becomes the token at position `nCur`, and the only one of the batch. -/
def single (s : State) (token nCur : ℕ) : State :=
  { s.write 0 ⟨token, nCur, 1, 0, true⟩ with nTokens := 1 }

def promptHead : String :=
  "<|user|>\n" ++
  "Analyze the following intercepted radio transcript. " ++
  "Categorize it using exactly one of these labels: " ++
  "[News, Sports, Music, Religion, Talk Radio, Emergency, Advertisement, Unknown]. " ++
  "Provide a strict 1-2 sentence summary of the core subject. " ++
  "Do not include conversational filler. Format your exact response like this: " ++
  "[Category] - [Summary].\n\n" ++
  "Transcript: "

def promptEnd : String := "<|end|>\n<|assistant|>\n"

/-- The bytes of an ASCII literal. -/
def literal (text : String) : Bytes := text.toList.map fun c => UInt8.ofNat c.toNat

def fullPrompt (transcript : Bytes) : Bytes := literal promptHead ++ transcript ++ literal promptEnd

section Generate

variable {F : Type*} (llama : Llama F)

/-- `llama_tokenize` into a buffer of the given capacity, filled with zeros: the buffer and the
returned count. -/
def llamaTokenize (text : Bytes) (capacity : ℕ) : List ℕ × ℤ :=
  let tokens := llama.tokens text
  if tokens.length ≤ capacity then
    (tokens ++ List.replicate (capacity - tokens.length) 0, tokens.length)
  else (List.replicate capacity 0, -tokens.length)

/-- `tokens_list` after its last `resize`. -/
def tokensList (prompt : Bytes) : List ℕ :=
  let (buffer, nTokens) := llamaTokenize llama prompt (prompt.length + 8)
  if nTokens < 0 then
    let (buffer, nTokens) := llamaTokenize llama prompt (-nTokens).toNat
    buffer.take nTokens.toNat
  else buffer.take nTokens.toNat

variable [LT F] [DecidableLT F] (lowest : F)

/-- The token with the highest logit, where one is above `lowest` (`-1e9`), and token 0 otherwise.
-/
def newTokenId (logits : List F) : ℕ :=
  (logits.zipIdx.foldl (fun best x => if best.1 < x.1 then x else best) (lowest, 0)).2

/-- The generation loop, for as many rounds as there is fuel. -/
def generate : ℕ → State → ℕ → Bytes → Option (Bytes × State)
  | 0, _, _, _ => none
  | fuel + 1, s, nCur, result =>
    if nCur ≤ 2048 then
      let token := newTokenId lowest (llama.logits s.decodes)
      if llama.isEog token then some (result, s)
      else
        let result := result ++ (llama.piece token).getD []
        let decoded := (single s token nCur).llamaDecode
        if llama.decode s.decodes ≠ 0 then some (result, decoded)
        else generate fuel decoded (nCur + 1) result
    else some (result, s)

def emptyBatch : State := ⟨0, llama.fresh, 0, [], []⟩

/-- The batch with the prompt in it. -/
def promptBatch (transcript : Bytes) : State :=
  markLast (fill (emptyBatch llama) 0 (tokensList llama (fullPrompt transcript)))

def generateSummary (fuel : ℕ) (transcript : Bytes) : Option (Bytes × State) :=
  if llama.loads then
    let s := promptBatch llama transcript
    if llama.decode 0 ≠ 0 then some (literal "[Error] Engine decode failed.", s.llamaDecode)
    else generate llama lowest fuel s.llamaDecode s.nTokens []
  else some (literal "[Error] Failed to load Phi-3 model.", emptyBatch llama)

end Generate

end Summary

end AetherGuard

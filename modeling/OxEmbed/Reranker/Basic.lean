import OxEmbed.Pooling.Tensors

/-!
# Scoring pairs with a cross-encoder

`RerankerModel` of `model_reranker/mod.rs`. A batch of token sequences, one for each pair of the
query and a document, is scored by one forward pass: on the static-shape pool for exactly this
batch size if there is one, padded to the full width, and else on the dynamic pool, padded to the
longest sequence.

The ONNX sessions are a parameter: the outcome of a pass on a pool, at one value of the cursor that
picks the session. The tokenizer is a parameter too.

## Main definitions

* `RerankerModel`, `SessionPool`, `Sessions` : the model, its pools and their sessions.
* `scorePass` : one forward pass; `scorePairs`, `scorePairsStatic`, `scorePairsDynamic`.
* `tokenizePairs`, `standaloneScore` : the worker's path from the texts to the scores.
* `Sessions.Local`, `Sessions.NeverFail` : a score depends on the tokens that the mask shows only,
  and no pass fails.

## Main results

* `scorePass_of_local` : the score of a row is a function of its first `maxLen` tokens.
* `scorePairs_of_local` : whichever pool a batch goes to.
-/

namespace OxEmbed.Reranker

open Pooling

variable {F : Type}

/-! ### The model -/

/-- The fields of `RerankerModel` that the scoring reads; the pools are given by their sizes. -/
structure RerankerModel where
  maxLen : ℕ
  padId : UInt32
  /-- `sessions.len()`. -/
  sessions : ℕ
  /-- `static_session_pools`, by batch size, with the cursors. -/
  staticSessionPools : ℕ → Option ℕ

/-- The pool of a forward pass. -/
inductive SessionPool
  | dynamic
  /-- The pool for one batch size. -/
  | fixed (batch : ℕ)
  deriving DecidableEq

/-- The start of the texts of the errors. -/
def SessionPool.lead : SessionPool → String
  | .dynamic => ""
  | .fixed _ => "static "

def SessionPool.lockName (idx : ℕ) : SessionPool → String
  | .dynamic => s!"session #{idx}"
  | .fixed batch => s!"static session b{batch}#{idx}"

def SessionPool.inferenceName : SessionPool → String
  | .dynamic => "reranker inference"
  | .fixed batch => s!"static reranker inference (b{batch})"

/-- The inputs of a session. -/
structure Inputs where
  inputIds : Array2 ℤ
  attentionMask : Array2 ℤ

/-- What happens to the inputs: a tensor cannot be built from one of them, the lock of the session
is poisoned, the inference fails, its output is no array of floats, or it gives the logits. -/
inductive Outcome (F : Type)
  | tensor (input error : String)
  | lock (error : String)
  | inference (error : String)
  | extract (error : String)
  | logits (raw : ArrayViewD F)

/-- The ONNX sessions: what happens in a pass on a pool, at a value of the pool's cursor. -/
abbrev Sessions (F : Type) := SessionPool → ℕ → Inputs → Outcome F

variable (M : RerankerModel) (sessions : Sessions F)

/-- `raw[[i, 0]]`. -/
def readScore (raw : ArrayViewD F) (i : ℕ) : Except Failure F :=
  match raw.get? [i, 0] with
  | some score => .ok score
  | none => .error .panic

/-- The scores from the logits, once their shape is checked. -/
def readScores (pool : SessionPool) (batch : ℕ) (raw : ArrayViewD F) : Except Failure (List F) :=
  if raw.shape.length ≠ 2 ∨ raw.shape[0]? ≠ some batch ∨ raw.shape[1]? ≠ some 1 then
    .error (.err
      s!"unexpected {pool.lead}reranker output shape: {raw.shape}, expected [{batch}, 1]")
  else (List.range batch).mapM (readScore raw)

/-- What becomes of the outcome of the session number `idx`. -/
def readOutcome (pool : SessionPool) (idx batch : ℕ) : Outcome F → Except Failure (List F)
  | .tensor input e => .error (.err s!"{pool.lead}{input} tensor: {e}")
  | .lock e => .error (.err s!"lock {pool.lockName idx}: {e}")
  | .inference e => .error (.err s!"{pool.inferenceName}: {e}")
  | .extract e => .error (.err s!"{pool.lead}extract logits: {e}")
  | .logits raw => readScores pool batch raw

/-- One forward pass over a batch padded to the width `maxSeq`, on a pool of `count` sessions whose
cursor stands at `cursor`. -/
def scorePass (pool : SessionPool) (count cursor : ℕ) (tokenIds : List (List UInt32))
    (maxSeq : ℕ) : Except Failure (List F) :=
  let batch := tokenIds.length
  let t := buildTensorsFromIds tokenIds batch maxSeq M.padId false
  match fromShapeVec (pool.lead ++ "ids") batch maxSeq t.1,
    fromShapeVec (pool.lead ++ "mask") batch maxSeq t.2.1 with
  | .error e, _ => .error e
  | .ok _, .error e => .error e
  | .ok idsArr, .ok maskArr =>
    -- `cursor % len` panics for an empty pool
    if count = 0 then .error .panic
    else readOutcome pool (cursor % count) batch (sessions pool cursor ⟨idsArr, maskArr⟩)

/-- `score_pairs_static`, on a pool of `count` sessions. -/
def scorePairsStatic (count cursor : ℕ) (tokenIds : List (List UInt32)) :
    Except Failure (List F) :=
  scorePass M sessions (.fixed tokenIds.length) count cursor tokenIds M.maxLen

/-- The dynamic path of `score_pairs`. -/
def scorePairsDynamic (cursor : ℕ) (tokenIds : List (List UInt32)) : Except Failure (List F) :=
  let maxSeq := min ((tokenIds.map List.length).foldl max 0) M.maxLen
  scorePass M sessions .dynamic M.sessions cursor tokenIds maxSeq

/-- `score_pairs`. -/
def scorePairs (cursor : ℕ) (tokenIds : List (List UInt32)) : Except Failure (List F) :=
  if tokenIds = [] then .ok []
  else
    match M.staticSessionPools tokenIds.length with
    | some count => scorePairsStatic M sessions count cursor tokenIds
    | none => scorePairsDynamic M sessions cursor tokenIds

/-! ### From the texts -/

/-- `Tokenizer::encode_batch` on the pairs, with the ids of each encoding. -/
abbrev EncodeBatch := List (String × String) → Except String (List (List UInt32))

/-- `tokenize_pairs`. -/
def tokenizePairs (encodeBatch : EncodeBatch) (query : String) (docs : List String) :
    Except String (List (List UInt32)) :=
  if docs = [] then .ok []
  else
    match encodeBatch (docs.map fun d => (query, d)) with
    | .error e => .error s!"tokenize_pairs: {e}"
    | .ok encodings => .ok (encodings.map fun ids => ids.take (min ids.length M.maxLen))

/-- `StandaloneReranker::score`. -/
def standaloneScore (encodeBatch : EncodeBatch) (cursor : ℕ) (query : String)
    (documents : List String) : Except Failure (List F) :=
  match tokenizePairs M encodeBatch query documents with
  | .error e => .error (.err e)
  | .ok tokenIds => scorePairs M sessions cursor tokenIds

/-! ### Local sessions -/

/-- Whenever the logits have the shape of the batch, the score of a row depends on the tokens that
its mask shows only; `score` gives it. -/
def Sessions.Local (score : List ℤ → F) : Prop :=
  ∀ pool cursor x raw, sessions pool cursor x = .logits raw →
    raw.shape = [x.inputIds.rows, 1] →
    ∀ i < x.inputIds.rows, ∀ n ≤ x.inputIds.cols, PrefixMask (x.attentionMask.row i) n →
      raw.get? [i, 0] = some (score ((x.inputIds.row i).take n))

/-- The inputs that a pool accepts: a static graph has one shape. -/
def SessionPool.Accepts : SessionPool → Inputs → Prop
  | .dynamic, _ => True
  | .fixed batch, x => x.inputIds.rows = batch ∧ x.inputIds.cols = M.maxLen

/-- Every pass on inputs that the pool accepts gives logits of the right shape. -/
def Sessions.NeverFail : Prop :=
  ∀ pool cursor x, pool.Accepts M x →
    ∃ raw, sessions pool cursor x = .logits raw ∧ raw.shape = [x.inputIds.rows, 1]

/-- No pool is empty. -/
structure RerankerModel.HasSessions : Prop where
  dynamic : M.sessions ≠ 0
  fixed : ∀ batch count, M.staticSessionPools batch = some count → count ≠ 0

/-- The score of a pair, from its first `maxLen` tokens. -/
def RerankerModel.pairScore (score : List ℤ → F) (tokens : List UInt32) : F :=
  score ((tokens.take M.maxLen).map fun t => (t.toNat : ℤ))

variable {M sessions} {score : List ℤ → F} {pool : SessionPool} {count cursor maxSeq : ℕ}
  {ts : List (List UInt32)} {out : List F}

variable (M sessions) in
/-- The inputs of a pass: the padded rows and their masks. -/
theorem scorePass_eq (pool : SessionPool) (count cursor : ℕ) (ts : List (List UInt32))
    (maxSeq : ℕ) : ∃ x : Inputs, x.inputIds.rows = ts.length ∧ x.inputIds.cols = maxSeq ∧
      x.inputIds.axisIter = ts.map (idsRow maxSeq M.padId) ∧ x.attentionMask.rows = ts.length ∧
      x.attentionMask.axisIter = ts.map (maskRow maxSeq) ∧
      scorePass M sessions pool count cursor ts maxSeq =
        if count = 0 then .error .panic
        else readOutcome pool (cursor % count) ts.length (sessions pool cursor x) := by
  obtain ⟨ids, hids, hrows, hcols, hidsIter⟩ :=
    exists_idsArr (pool.lead ++ "ids") ts maxSeq M.padId false
  obtain ⟨mask, hmask, hmaskRows, hmaskIter⟩ :=
    exists_maskArr (pool.lead ++ "mask") ts maxSeq M.padId false
  refine ⟨⟨ids, mask⟩, hrows, hcols, hidsIter, hmaskRows, hmaskIter, ?_⟩
  rw [scorePass]
  simp only [hids, hmask]

/-- The scores from logits of the right shape. -/
theorem readScores_of_local (hlocal : sessions.Local score) {x : Inputs} {raw : ArrayViewD F}
    (hrows : x.inputIds.rows = ts.length) (hcols : x.inputIds.cols = maxSeq)
    (hids : x.inputIds.axisIter = ts.map (idsRow maxSeq M.padId))
    (hmaskRows : x.attentionMask.rows = ts.length)
    (hmask : x.attentionMask.axisIter = ts.map (maskRow maxSeq))
    (hwidth : ∀ seq ∈ ts, seq.take maxSeq = seq.take M.maxLen)
    (hsession : sessions pool cursor x = .logits raw) (hshape : raw.shape = [ts.length, 1]) :
    readScores pool ts.length raw = .ok (ts.map (M.pairScore score)) := by
  rw [readScores, hshape, if_neg (by simp)]
  refine mapM_eq_pure (by simp) fun i j b hj hb => ?_
  rw [List.getElem?_map] at hb
  obtain ⟨seq, hseq, rfl⟩ := Option.map_eq_some_iff.1 hb
  obtain ⟨hi, -⟩ := List.getElem?_eq_some_iff.1 hseq
  rw [List.getElem?_range hi] at hj
  obtain rfl := Option.some.inj hj
  have hscore := hlocal pool cursor x raw hsession (by rw [hshape, hrows]) i (hrows.symm ▸ hi)
    (min seq.length maxSeq) (hcols ▸ Nat.min_le_right _ _)
  rw [row_eq_of_axisIter hmaskRows hmask hseq, row_eq_of_axisIter hrows hids hseq,
    take_idsRow, hwidth seq (List.mem_of_getElem? hseq)] at hscore
  rw [readScore, hscore (prefixMask_maskRow maxSeq seq)]
  rfl

/-- Scores are only read from logits of the right shape. -/
theorem shape_of_readScores {batch : ℕ} {raw : ArrayViewD F}
    (hout : readScores pool batch raw = .ok out) : raw.shape = [batch, 1] := by
  rw [readScores] at hout
  split at hout
  · cases hout
  rename_i hshape
  simp only [not_or, not_not] at hshape
  obtain ⟨hlen, hrows, hcols⟩ := hshape
  obtain ⟨a, b, hab⟩ := List.length_eq_two.1 hlen
  rw [hab] at hrows hcols ⊢
  rw [← Option.some.inj hrows, ← Option.some.inj hcols]

/-- **Under local sessions the score of a row is a function of its first tokens**, whatever the
other rows of the batch are and however wide it is. -/
theorem scorePass_of_local (hlocal : sessions.Local score)
    (hwidth : ∀ seq ∈ ts, seq.take maxSeq = seq.take M.maxLen)
    (hout : scorePass M sessions pool count cursor ts maxSeq = .ok out) :
    out = ts.map (M.pairScore score) := by
  obtain ⟨x, hrows, hcols, hids, hmaskRows, hmask, hpass⟩ :=
    scorePass_eq M sessions pool count cursor ts maxSeq
  rw [hpass] at hout
  split at hout
  · cases hout
  match hsession : sessions pool cursor x with
  | .logits raw =>
    rw [hsession, readOutcome] at hout
    have hshape := shape_of_readScores hout
    rw [readScores_of_local hlocal hrows hcols hids hmaskRows hmask hwidth hsession hshape] at hout
    exact (Except.ok.inj hout).symm
  | .tensor _ _ | .lock _ | .inference _ | .extract _ =>
    rw [hsession] at hout
    cases hout

/-- When no session fails, the pass gives the scores. -/
theorem scorePass_of_neverFail (hlocal : sessions.Local score) (hnever : sessions.NeverFail M)
    (hcount : count ≠ 0) (hpool : pool = .dynamic ∨ pool = .fixed ts.length ∧ maxSeq = M.maxLen)
    (hwidth : ∀ seq ∈ ts, seq.take maxSeq = seq.take M.maxLen) :
    scorePass M sessions pool count cursor ts maxSeq = .ok (ts.map (M.pairScore score)) := by
  obtain ⟨x, hrows, hcols, hids, hmaskRows, hmask, hpass⟩ :=
    scorePass_eq M sessions pool count cursor ts maxSeq
  have haccepts : pool.Accepts M x := by
    rcases hpool with rfl | ⟨rfl, rfl⟩
    · trivial
    · exact ⟨hrows, hcols⟩
  obtain ⟨raw, hsession, hshape⟩ := hnever pool cursor x haccepts
  rw [hpass, if_neg hcount, hsession, readOutcome,
    readScores_of_local hlocal hrows hcols hids hmaskRows hmask hwidth hsession
      (by rw [hshape, hrows])]

/-! ### The paths of a batch -/

/-- The width of the dynamic path cuts no sequence shorter than the model does. -/
theorem take_dynamicWidth (M : RerankerModel) {seq : List UInt32} (hseq : seq ∈ ts) :
    seq.take (min ((ts.map List.length).foldl max 0) M.maxLen) = seq.take M.maxLen := by
  have hmax : seq.length ≤ (ts.map List.length).foldl max 0 :=
    le_foldl_max (.inl (List.mem_map_of_mem hseq))
  rw [List.take_eq_take_iff]
  omega

theorem scorePairsDynamic_of_local (hlocal : sessions.Local score)
    (hout : scorePairsDynamic M sessions cursor ts = .ok out) :
    out = ts.map (M.pairScore score) :=
  scorePass_of_local hlocal (fun _ hseq => take_dynamicWidth M hseq) hout

theorem scorePairsStatic_of_local (hlocal : sessions.Local score)
    (hout : scorePairsStatic M sessions count cursor ts = .ok out) :
    out = ts.map (M.pairScore score) :=
  scorePass_of_local hlocal (fun _ _ => rfl) hout

/-- **Whichever pool a batch goes to, it gets the same scores.** -/
theorem scorePairs_of_local (hlocal : sessions.Local score)
    (hout : scorePairs M sessions cursor ts = .ok out) : out = ts.map (M.pairScore score) := by
  rw [scorePairs] at hout
  split at hout
  next hnil =>
    rw [hnil, ← Except.ok.inj hout]
    rfl
  · split at hout
    · exact scorePairsStatic_of_local hlocal hout
    · exact scorePairsDynamic_of_local hlocal hout

section NeverFail

variable (hlocal : sessions.Local score) (hnever : sessions.NeverFail M) (hM : M.HasSessions)

include hlocal hnever

theorem scorePairsStatic_of_neverFail (hcount : count ≠ 0) :
    scorePairsStatic M sessions count cursor ts = .ok (ts.map (M.pairScore score)) :=
  scorePass_of_neverFail hlocal hnever hcount (.inr ⟨rfl, rfl⟩) fun _ _ => rfl

include hM

theorem scorePairsDynamic_of_neverFail :
    scorePairsDynamic M sessions cursor ts = .ok (ts.map (M.pairScore score)) :=
  scorePass_of_neverFail hlocal hnever hM.dynamic (.inl rfl) fun _ hseq =>
    take_dynamicWidth M hseq

theorem scorePairs_of_neverFail :
    scorePairs M sessions cursor ts = .ok (ts.map (M.pairScore score)) := by
  rw [scorePairs]
  split
  next hnil => rw [hnil, List.map_nil]
  · split
    next count hcount =>
      exact scorePairsStatic_of_neverFail hlocal hnever (hM.fixed _ count hcount)
    · exact scorePairsDynamic_of_neverFail hlocal hnever hM

end NeverFail

end OxEmbed.Reranker

import Mathlib.Data.List.Sort
import OxEmbed.Pooling.Tensors

/-!
# Sparse vectors of a text

`SpladeModel` of `model_splade.rs`. One forward pass over the tokens of a text gives logits for
every position and every entry of the vocabulary. The weight of an entry is the largest
`ln (1 + x)` over its positive logits `x`, or zero; the entries whose weight is above a threshold
are the sparse vector, of which a number of the heaviest are kept, the heaviest first.

The ONNX sessions, the tokenizer, the operations on floats and `select_nth_unstable_by` are
parameters.

## Main definitions

* `SpladeModel`, `SpladeArith`, `SelectNth`, `Sessions` : the model and what it uses.
* `sweep` : the weights from the logits.
* `collect`, `topEntries` : the entries above a threshold, and the heaviest of them.
* `forwardPass`, `encodeSparse` : a pass, and the sparse vector of a text.
* `encode` : the worker's function `StandaloneSplade::encode`.
* `Sessions.Compute` : the sessions run one graph, with the shape that the model expects.
* `sortSelect` : a selection, for floats that are compared by keys.

## Main results

* `exists_sweep` : logits of the right shape give a weight for each entry of the vocabulary.
* `encodeSparse_of_compute` : the sparse vector of a text is a selection from its active entries.
-/

namespace OxEmbed.Splade

open Pooling

variable {F : Type}

/-! ### The model -/

/-- The operations on `f32`. -/
structure SpladeArith (F : Type) where
  zero : F
  one : F
  /-- The cast of an `i64`. -/
  ofInt : ℤ → F
  add : F → F → F
  mul : F → F → F
  ln : F → F
  /-- `x == 0.0` -/
  isZero : F → Bool
  /-- `x > y` -/
  gt : F → F → Bool
  totalCmp : F → F → Ordering

/-- The fields of `SpladeModel` that the encoding reads; the pool is given by its size. -/
structure SpladeModel where
  maxLen : ℕ
  vocabSize : UInt64
  /-- `sessions.len()`. -/
  sessions : ℕ

/-- The inputs of a session. -/
structure Inputs where
  inputIds : Array2 ℤ
  attentionMask : Array2 ℤ
  deriving DecidableEq

/-- What happens to the inputs: a tensor cannot be built from one of them, the lock of the session
is poisoned, the inference fails, its output is no array of floats, or it gives the logits. -/
inductive Outcome (F : Type)
  | tensor (input error : String)
  | lock (error : String)
  | inference (error : String)
  | extract (error : String)
  | logits (raw : ArrayViewD F)

/-- The ONNX sessions: what happens in a pass, at a value of the cursor that picks the session. -/
abbrev Sessions (F : Type) := ℕ → Inputs → Outcome F

/-- An entry of a sparse vector: a token and its weight. -/
abbrev Entry (F : Type) := UInt32 × F

/-- The comparison `b.1.total_cmp(&a.1)` puts `a` before `b`, or finds them equal. -/
def Heavier (A : SpladeArith F) (a b : Entry F) : Prop := (A.totalCmp b.2 a.2).isLE

instance (A : SpladeArith F) : DecidableRel (Heavier A) := fun a b =>
  inferInstanceAs (Decidable ((A.totalCmp b.2 a.2).isLE = true))

/-- `select_nth_unstable_by(nth, …)`: some reordering of the entries, which puts no heavier entry
after the place `nth` than before it. -/
structure SelectNth (A : SpladeArith F) where
  select : ℕ → List (Entry F) → List (Entry F)
  perm : ∀ nth entries, (select nth entries).Perm entries
  split : ∀ nth entries, nth < entries.length →
    ∀ a ∈ (select nth entries).take (nth + 1), ∀ b ∈ (select nth entries).drop (nth + 1),
      Heavier A a b

section Keys

variable {K : Type} [LinearOrder K] {A : SpladeArith F} {key : F → K}

/-- `total_cmp` compares the keys of two floats. -/
def SpladeArith.ComparesBy (A : SpladeArith F) (key : F → K) : Prop :=
  ∀ x y, A.totalCmp x y = compare (key x) (key y)

variable (hA : A.ComparesBy key)

include hA

theorem heavier_iff_key {a b : Entry F} : Heavier A a b ↔ key b.2 ≤ key a.2 := by
  rw [Heavier, hA, ← Ordering.ne_gt_iff_isLE]
  exact compare_le_iff_le

theorem pairwise_heavier (entries : List (Entry F)) :
    (entries.insertionSort (Heavier A)).Pairwise (Heavier A) := by
  have : Std.Total (Heavier A) := ⟨fun a b => by
    rw [heavier_iff_key hA, heavier_iff_key hA]
    exact le_total (key b.2) (key a.2)⟩
  have : IsTrans (Entry F) (Heavier A) := ⟨fun a b c hab hbc => by
    rw [heavier_iff_key hA] at *
    exact hbc.trans hab⟩
  exact List.pairwise_insertionSort (Heavier A) entries

/-- Sorting all entries is one way to select. -/
def sortSelect : SelectNth A where
  select _ entries := entries.insertionSort (Heavier A)
  perm _ entries := List.perm_insertionSort _ entries
  split nth entries _ a ha b hb := by
    have hsorted := pairwise_heavier hA entries
    rw [← List.take_append_drop (nth + 1) (entries.insertionSort _), List.pairwise_append]
      at hsorted
    exact hsorted.2.2 a ha b hb

end Keys

variable (A : SpladeArith F) (S : SelectNth A) (M : SpladeModel) (sessions : Sessions F)

/-! ### The weights -/

/-- The body of the inner loop: the weight of the entry `k` at the position `j`. -/
def sweepCell (raw : ArrayViewD F) (m : F) (j : ℕ) (sparse : List F) (k : ℕ) :
    Except Failure (List F) :=
  match raw.get? [0, j, k], sparse[k]? with
  | some lo, some best =>
    if A.gt lo A.zero then
      let w := A.mul (A.ln (A.add A.one lo)) m
      .ok (if A.gt w best then sparse.set k w else sparse)
    else .ok sparse
  | _, _ => .error .panic

/-- The body of the outer loop. -/
def sweepPosition (raw : ArrayViewD F) (mask : List ℤ) (vocab : ℕ) (sparse : List F) (j : ℕ) :
    Except Failure (List F) :=
  match mask[j]? with
  | none => .error .panic
  | some mi =>
    let m := A.ofInt mi
    if A.isZero m then .ok sparse
    else (List.range vocab).foldlM (sweepCell A raw m j) sparse

/-- The weights of the vocabulary, from the logits. -/
def sweep (raw : ArrayViewD F) (mask : List ℤ) (seqLen vocab : ℕ) : Except Failure (List F) :=
  (List.range seqLen).foldlM (sweepPosition A raw mask vocab) (List.replicate vocab A.zero)

/-- The entries above the threshold, in the order of the vocabulary. -/
def collect (minWeight : F) (sparse : List F) : List (Entry F) :=
  sparse.zipIdx.filterMap fun p =>
    if A.gt p.1 minWeight then some (UInt32.ofNat p.2, p.1) else none

/-- The heaviest `topK` entries, sorted. -/
def topEntries (topK : ℕ) (entries : List (Entry F)) : List (Entry F) :=
  let kept := if entries.length > topK then (S.select (topK - 1) entries).take topK else entries
  kept.insertionSort (Heavier A)

/-! ### A pass -/

/-- The weights from the outcome of the session number `idx`. -/
def readOutcome (idx seqLen : ℕ) (mask : List ℤ) : Outcome F → Except Failure (List F)
  | .tensor input e => .error (.err s!"{input} tensor: {e}")
  | .lock e => .error (.err s!"lock session #{idx}: {e}")
  | .inference e => .error (.err s!"splade inference: {e}")
  | .extract e => .error (.err s!"extract logits: {e}")
  | .logits raw =>
    if raw.shape.length ≠ 3 ∨ raw.shape[0]? ≠ some 1 ∨ raw.shape[1]? ≠ some seqLen ∨
        raw.shape[2]? ≠ some M.vocabSize.toNat then
      .error (.err (s!"unexpected splade output shape: {raw.shape}, " ++
        s!"expected [1, {seqLen}, {M.vocabSize}]"))
    else sweep A raw mask seqLen M.vocabSize.toNat

/-- One forward pass over a text, whose cursor stands at `cursor`. -/
def forwardPass (cursor : ℕ) (tokenIds : List UInt32) : Except Failure (List F) :=
  let seqLen := min tokenIds.length M.maxLen
  let ids := (tokenIds.take seqLen).map fun t => (t.toNat : ℤ)
  let mask := List.replicate seqLen (1 : ℤ)
  match fromShapeVec "ids" 1 seqLen ids, fromShapeVec "mask" 1 seqLen mask with
  | .error e, _ => .error e
  | .ok _, .error e => .error e
  | .ok idsArr, .ok maskArr =>
    -- `cursor % len` panics for an empty pool
    if M.sessions = 0 then .error .panic
    else readOutcome A M (cursor % M.sessions) seqLen mask (sessions cursor ⟨idsArr, maskArr⟩)

/-- `encode_sparse`. -/
def encodeSparse (cursor : ℕ) (tokenIds : List UInt32) (topK : UInt64) (minWeight : F) :
    Except Failure (List (Entry F)) :=
  if tokenIds = [] then .ok []
  else if topK = 0 then .ok []
  else
    match forwardPass A M sessions cursor tokenIds with
    | .error e => .error e
    | .ok sparse => .ok (topEntries A S topK.toNat (collect A minWeight sparse))

/-! ### From the texts -/

/-- `Tokenizer::encode`, with the ids of the encoding. -/
abbrev Tokenizer := String → Except String (List UInt32)

/-- `tokenize`. -/
def tokenize (tokenizer : Tokenizer) (text : String) : Except String (List UInt32) :=
  match tokenizer text with
  | .error e => .error s!"tokenize: {e}"
  | .ok ids => .ok (ids.take (min ids.length M.maxLen))

/-- Tokenize a text and encode it. -/
def encodeText (tokenizer : Tokenizer) (cursor : ℕ) (topK : UInt64) (minWeight : F)
    (text : String) : Except Failure (List (Entry F)) :=
  match tokenize M tokenizer text with
  | .error e => .error (.err e)
  | .ok ids => encodeSparse A S M sessions cursor ids topK minWeight

/-- `0` stands for no limit in a request to a worker. -/
def effectiveTopK (topK : UInt32) : UInt64 :=
  if topK = 0 then UInt64.ofNat (2 ^ 64 - 1) else topK.toUInt64

/-- The loop of `StandaloneSplade::encode`; `cursors` are the values of the cursor at the texts. -/
def encodeTexts (tokenizer : Tokenizer) (topK : UInt64) (minWeight : F) :
    List ℕ → List String → Except Failure (List (List (Entry F)))
  | _, [] => .ok []
  | cursors, text :: texts =>
    match encodeText A S M sessions tokenizer (cursors.headD 0) topK minWeight text with
    | .error e => .error e
    | .ok sparse =>
      match encodeTexts tokenizer topK minWeight cursors.tail texts with
      | .error e => .error e
      | .ok results => .ok (sparse :: results)

/-- `StandaloneSplade::encode`. -/
def encode (tokenizer : Tokenizer) (cursors : List ℕ) (texts : List String) (_maxSeqLen : UInt32)
    (topK : UInt32) (minWeight : F) : Except Failure (List (List (Entry F))) :=
  encodeTexts A S M sessions tokenizer (effectiveTopK topK) minWeight cursors texts

/-! ### Sessions that run one graph -/

/-- Every session computes the logits `graph` of its inputs, which have the shape that the model
expects. -/
structure Sessions.Compute (graph : Inputs → ArrayViewD F) : Prop where
  logits : ∀ cursor x, sessions cursor x = .logits (graph x)
  shape : ∀ x, (graph x).shape = [1, x.inputIds.cols, M.vocabSize.toNat]

/-- The inputs of a text. -/
def inputsOf (tokenIds : List UInt32) : Inputs :=
  let seqLen := min tokenIds.length M.maxLen
  { inputIds := ⟨1, seqLen, (tokenIds.take seqLen).map fun t => (t.toNat : ℤ), by simp [seqLen]⟩
    attentionMask := ⟨1, seqLen, List.replicate seqLen 1, by simp⟩ }

/-- The entries of a text above the threshold, from the logits of the graph. -/
def activeEntries (graph : Inputs → ArrayViewD F) (minWeight : F) (tokenIds : List UInt32) :
    List (Entry F) :=
  let seqLen := min tokenIds.length M.maxLen
  match sweep A (graph (inputsOf M tokenIds)) (List.replicate seqLen 1) seqLen
    M.vocabSize.toNat with
  | .ok sparse => collect A minWeight sparse
  | .error _ => []

variable {A S M sessions} {raw : ArrayViewD F} {mask : List ℤ} {seqLen vocab : ℕ}

/-- A loop all of whose steps keep a property succeeds with it. -/
theorem exists_foldlM {α : Type} {f : List F → α → Except Failure (List F)} {l : List α}
    {P : List F → Prop} {b : List F} (hb : P b)
    (hstep : ∀ a ∈ l, ∀ b, P b → ∃ b', f b a = .ok b' ∧ P b') :
    ∃ b', l.foldlM f b = .ok b' ∧ P b' := by
  induction l generalizing b with
  | nil => exact ⟨b, rfl, hb⟩
  | cons a l ih =>
    obtain ⟨b₁, hb₁, hP⟩ := hstep a List.mem_cons_self b hb
    obtain ⟨b', hb', hP'⟩ := ih hP fun a ha => hstep a (List.mem_cons_of_mem _ ha)
    refine ⟨b', ?_, hP'⟩
    rw [List.foldlM_cons, hb₁]
    exact hb'

/-- **Logits of the right shape give a weight for each entry of the vocabulary.** -/
theorem exists_sweep (hshape : raw.shape = [1, seqLen, vocab]) (hmask : mask.length = seqLen) :
    ∃ sparse, sweep A raw mask seqLen vocab = .ok sparse ∧ sparse.length = vocab := by
  refine exists_foldlM (P := fun b => b.length = vocab) (by simp) fun j hj b hb => ?_
  have hj : j < seqLen := List.mem_range.1 hj
  rw [sweepPosition, List.getElem?_eq_getElem (hmask.symm ▸ hj)]
  dsimp only
  split
  · exact ⟨b, rfl, hb⟩
  · refine exists_foldlM (P := fun b => b.length = vocab) hb fun k hk b hb => ?_
    have hk : k < vocab := List.mem_range.1 hk
    obtain ⟨lo, hlo⟩ : ∃ lo, raw.get? [0, j, k] = some lo :=
      raw.exists_get? (by simp [hshape, hj, hk])
    rw [sweepCell, hlo, List.getElem?_eq_getElem (hb.symm ▸ hk)]
    dsimp only
    split
    · refine ⟨_, rfl, ?_⟩
      split
      · rw [List.length_set, hb]
      · exact hb
    · exact ⟨b, rfl, hb⟩

theorem length_collect_le (minWeight : F) (sparse : List F) :
    (collect A minWeight sparse).length ≤ sparse.length := by
  rw [collect]
  exact (List.length_filterMap_le _ _).trans (List.length_zipIdx).le

theorem gt_of_mem_collect {minWeight : F} {sparse : List F} {e : Entry F}
    (he : e ∈ collect A minWeight sparse) : A.gt e.2 minWeight = true := by
  rw [collect, List.mem_filterMap] at he
  obtain ⟨p, -, hp⟩ := he
  split at hp
  next hgt => rwa [← Option.some.inj hp]
  · cases hp

/-! ### The entries that are kept -/

section Kept

variable {entries : List (Entry F)} {k : ℕ}

theorem length_topEntries (k : ℕ) (entries : List (Entry F)) :
    (topEntries A S k entries).length = min k entries.length := by
  rw [topEntries]
  split
  next h =>
    rw [List.length_insertionSort, List.length_take, (S.perm _ _).length_eq]
  next h =>
    rw [List.length_insertionSort]
    omega

theorem topEntries_of_le (h : entries.length ≤ k) :
    topEntries A S k entries = entries.insertionSort (Heavier A) := by
  rw [topEntries, if_neg (by omega)]

theorem mem_of_mem_topEntries {e : Entry F} (he : e ∈ topEntries A S k entries) :
    e ∈ entries := by
  rw [topEntries, List.mem_insertionSort] at he
  split at he
  · exact (S.perm _ _).subset (List.mem_of_mem_take he)
  · exact he

end Kept

/-- The inputs of a pass. -/
theorem forwardPass_eq (cursor : ℕ) (tokenIds : List UInt32) :
    forwardPass A M sessions cursor tokenIds =
      if M.sessions = 0 then .error .panic
      else readOutcome A M (cursor % M.sessions) (min tokenIds.length M.maxLen)
        (List.replicate (min tokenIds.length M.maxLen) 1)
        (sessions cursor (inputsOf M tokenIds)) := by
  rw [forwardPass]
  rw [fromShapeVec_of_eq (by simp), fromShapeVec_of_eq (by simp)]
  rfl

section Compute

variable {graph : Inputs → ArrayViewD F} (hgraph : sessions.Compute M graph)

include hgraph

/-- The pass over a text, whatever the cursor is. -/
theorem exists_forwardPass (hM : M.sessions ≠ 0) (tokenIds : List UInt32) :
    ∃ sparse, (∀ cursor, forwardPass A M sessions cursor tokenIds = .ok sparse) ∧
      sparse.length = M.vocabSize.toNat ∧
      ∀ minWeight, activeEntries A M graph minWeight tokenIds = collect A minWeight sparse := by
  have hshape : (graph (inputsOf M tokenIds)).shape =
      [1, min tokenIds.length M.maxLen, M.vocabSize.toNat] := hgraph.shape _
  have hmask : (List.replicate (min tokenIds.length M.maxLen) (1 : ℤ)).length =
      min tokenIds.length M.maxLen := List.length_replicate ..
  obtain ⟨sparse, hsweep, hlen⟩ := exists_sweep (A := A) hshape hmask
  refine ⟨sparse, fun cursor => ?_, hlen, fun minWeight => ?_⟩
  · rw [forwardPass_eq, if_neg hM, hgraph.logits, readOutcome, if_neg (by simp [hshape]), hsweep]
  · rw [activeEntries]
    rw [hsweep]

/-- **The sparse vector of a text is a selection from its active entries.** -/
theorem encodeSparse_of_compute (hM : M.sessions ≠ 0) (cursor : ℕ) {tokenIds : List UInt32}
    (hids : tokenIds ≠ []) {topK : UInt64} (htopK : topK ≠ 0) (minWeight : F) :
    encodeSparse A S M sessions cursor tokenIds topK minWeight =
      .ok (topEntries A S topK.toNat (activeEntries A M graph minWeight tokenIds)) := by
  obtain ⟨sparse, hpass, -, hactive⟩ := exists_forwardPass (A := A) hgraph hM tokenIds
  rw [encodeSparse, if_neg hids, if_neg htopK, hpass, hactive]

/-- There are no more active entries than a `usize` can count. -/
theorem length_activeEntries_lt (hM : M.sessions ≠ 0) (minWeight : F) (tokenIds : List UInt32) :
    (activeEntries A M graph minWeight tokenIds).length < 2 ^ 64 := by
  obtain ⟨sparse, -, hlen, hactive⟩ := exists_forwardPass (A := A) hgraph hM tokenIds
  have hle := length_collect_le (A := A) minWeight sparse
  have hlt := M.vocabSize.toNat_lt
  rw [hactive]
  omega

theorem gt_of_mem_activeEntries (hM : M.sessions ≠ 0) {minWeight : F} {tokenIds : List UInt32}
    {e : Entry F} (he : e ∈ activeEntries A M graph minWeight tokenIds) :
    A.gt e.2 minWeight = true := by
  obtain ⟨sparse, -, -, hactive⟩ := exists_forwardPass (A := A) hgraph hM tokenIds
  rw [hactive] at he
  exact gt_of_mem_collect he

end Compute

end OxEmbed.Splade

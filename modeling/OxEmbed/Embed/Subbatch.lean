import OxEmbed.Embed.Plan

/-!
# Embedding a batch in sub-batches

`EmbedModel::embed_tokens` of `model.rs` splits a request by the plan of `plan_subbatches`, runs
one forward pass for each group and puts the vectors back in the order of the request.
`embed_tokens_one_pass` pads a batch to one width, runs the session and pools its hidden states.

The ONNX session is a parameter. Its outcome may differ from pass to pass, so it is given the
number of the pass.

## Main definitions

* `EmbedModel`, `Session` : the fields of a model that the passes read, and its session.
* `embedTokensOnePass`, `embedTokens` : one forward pass, and the whole call.
* `passes` : the batches that the call passes to the session, in their order.
* `Session.Local` : the hidden states of a row depend on the tokens that its mask shows only.

## Main results

* `onePass_of_local` : a local session makes the vector of a row a function of its tokens.
* `embed_tokens_transparent` : sub-batching changes no vector and hides no failure.
-/

namespace OxEmbed.Embed

open Pooling

variable {F D : Type}

/-! ### One forward pass -/

/-- The fields of `EmbedModel` that the forward passes read. -/
structure EmbedModel (F : Type) where
  maxLen : ℕ
  padId : UInt32
  hasTokenTypeIds : Bool
  dim : ℕ
  subbatchRatio : F

/-- The inputs of a session. -/
structure Inputs where
  inputIds : Array2 ℤ
  attentionMask : Array2 ℤ
  tokenTypeIds : Option (Array2 ℤ)

/-- What happens to the inputs: a tensor cannot be built from one of them, there is no session, the
inference fails, its output is no array of floats, or it gives the hidden states. -/
inductive Outcome (F : Type)
  | tensor (input error : String)
  | allBusy
  | reinitFailed (error : String)
  | inference (error : String)
  | extract (error : String)
  | hidden (raw : ArrayViewD F)

/-- The ONNX session: what happens in each pass. -/
abbrev Session (F : Type) := ℕ → Inputs → Outcome F

/-- The arrays of the ids, the mask and, if the model has them, the token types. -/
def buildInputs (batch maxSeq : ℕ) (t : List ℤ × List ℤ × Option (List ℤ)) :
    Except Failure Inputs := do
  let idsArr ← fromShapeVec "ids" batch maxSeq t.1
  let maskArr ← fromShapeVec "mask" batch maxSeq t.2.1
  match t.2.2 with
  | some ttiVec => do
    let ttiArr ← fromShapeVec "tti" batch maxSeq ttiVec
    return ⟨idsArr, maskArr, some ttiArr⟩
  | none => return ⟨idsArr, maskArr, none⟩

variable (A : Arith F D) (M : EmbedModel F) (session : Session F)

/-- The width that a batch is padded to. -/
def EmbedModel.maxSeq (tokenIds : List (List UInt32)) : ℕ :=
  let realMaxSeq := min ((tokenIds.map List.length).foldl max 0) M.maxLen
  roundUpSeqLen realMaxSeq M.maxLen

/-- What becomes of the outcome of the session. -/
def poolOutcome (batch maxSeq : ℕ) (maskI64 : List ℤ) : Outcome F → Except Failure (List (List F))
  | .tensor input e => .error (.err s!"{input} tensor: {e}")
  | .allBusy => .error (.err "embed session pool: all slots busy")
  | .reinitFailed s => .error (.err s!"embed session pool: reinit failed: {s}")
  | .inference e => .error (.err s!"inference: {e}")
  | .extract e => .error (.err s!"extract: {e}")
  | .hidden raw => do
    let maskArrF ← fromShapeVec "mask_f" batch maxSeq (maskI64ToF32 A maskI64)
    meanPoolNormalize A raw maskArrF batch maxSeq M.dim

/-- `EmbedModel::embed_tokens_one_pass`, as pass number `pass`. -/
def embedTokensOnePass (pass : ℕ) (tokenIds : List (List UInt32)) :
    Except Failure (List (List F)) :=
  if tokenIds = [] then .ok []
  else do
    let maxSeq := M.maxSeq tokenIds
    let batch := tokenIds.length
    let t := buildTensorsFromIds tokenIds batch maxSeq M.padId M.hasTokenTypeIds
    let inputs ← buildInputs batch maxSeq t
    poolOutcome A M batch maxSeq t.2.1 (session pass inputs)

/-! ### The whole call -/

/-- The groups of a request, by the capped lengths of its texts. -/
def EmbedModel.groups (tokenIds : List (List UInt32)) : List (List ℕ) :=
  planSubbatches A (tokenIds.map fun v => min v.length M.maxLen) M.subbatchRatio

/-- The tokens of the texts of a group. -/
def subBatch (tokenIds : List (List UInt32)) (group : List ℕ) : List (List UInt32) :=
  group.map fun i => tokenIds.getD i []

/-- The body of the loop over the groups. -/
def embedGroup (onePass : ℕ → List (List UInt32) → Except Failure (List (List F)))
    (tokenIds : List (List UInt32)) (out : List (List F)) (p : List ℕ × ℕ) :
    Except Failure (List (List F)) := do
  let (group, pass) := p
  let vectors ← onePass pass (subBatch tokenIds group)
  if vectors.length ≠ group.length then
    .error (.err s!"sub-batch cardinality: expected {group.length}, got {vectors.length}")
  else return scatter out group vectors

/-- `EmbedModel::embed_tokens`, with its forward pass as a parameter. -/
def embedTokensWith (onePass : ℕ → List (List UInt32) → Except Failure (List (List F)))
    (tokenIds : List (List UInt32)) : Except Failure (List (List F)) :=
  if tokenIds = [] then .ok []
  else
    let groups := M.groups A tokenIds
    if groups.length ≤ 1 then onePass 0 tokenIds
    else groups.zipIdx.foldlM (embedGroup onePass tokenIds) (List.replicate tokenIds.length [])

/-- `EmbedModel::embed_tokens`. -/
def embedTokens (tokenIds : List (List UInt32)) : Except Failure (List (List F)) :=
  embedTokensWith A M (embedTokensOnePass A M session) tokenIds

/-- The batches of the forward passes of a call, in their order. -/
def EmbedModel.passes (tokenIds : List (List UInt32)) : List (List (List UInt32)) :=
  if tokenIds = [] then []
  else if (M.groups A tokenIds).length ≤ 1 then [tokenIds]
  else (M.groups A tokenIds).map (subBatch tokenIds)

/-! ### What a forward pass does -/

section

variable {A M session} {pass : ℕ} {ts : List (List UInt32)} {out : List (List F)}

/-- The inputs of a batch: its padded rows and their masks. -/
theorem buildInputs_eq (ts : List (List UInt32)) (maxSeq : ℕ) (padId : UInt32) (withTti : Bool) :
    ∃ x : Inputs, buildInputs ts.length maxSeq
        (buildTensorsFromIds ts ts.length maxSeq padId withTti) = .ok x ∧
      x.inputIds.rows = ts.length ∧ x.inputIds.cols = maxSeq ∧
      x.inputIds.axisIter = ts.map (idsRow maxSeq padId) ∧
      x.attentionMask.axisIter = ts.map (maskRow maxSeq) := by
  obtain ⟨ids, hids, hrows, hcols, hidsIter⟩ := exists_idsArr "ids" ts maxSeq padId withTti
  obtain ⟨mask, hmask, -, hmaskIter⟩ := exists_maskArr "mask" ts maxSeq padId withTti
  have htti : (buildTensorsFromIds ts ts.length maxSeq padId withTti).2.2 =
      if withTti then some (List.replicate (ts.length * maxSeq) 0) else none := by
    rw [buildTensorsFromIds_eq]
  have hzeros : (List.replicate (ts.length * maxSeq) (0 : ℤ)).length = ts.length * maxSeq :=
    List.length_replicate
  refine ⟨⟨ids, mask, if withTti then some ⟨ts.length, maxSeq, _, hzeros⟩ else none⟩, ?_, hrows,
    hcols, hidsIter, hmaskIter⟩
  rw [buildInputs, hids, hmask, htti]
  cases withTti with
  | true =>
    simp only [if_true, fromShapeVec_of_eq hzeros]
    rfl
  | false => rfl

/-- A pass with a result has pooled the hidden states that the session gave for the batch. -/
theorem onePass_ok (hne : ts ≠ []) (h : embedTokensOnePass A M session pass ts = .ok out) :
    ∃ x raw maskArrF, session pass x = .hidden raw ∧ x.inputIds.rows = ts.length ∧
      x.inputIds.cols = M.maxSeq ts ∧
      x.inputIds.axisIter = ts.map (idsRow (M.maxSeq ts) M.padId) ∧
      x.attentionMask.axisIter = ts.map (maskRow (M.maxSeq ts)) ∧
      maskArrF.axisIter = ts.map (fun seq => (maskRow (M.maxSeq ts) seq).map A.ofInt) ∧
      meanPoolNormalize A raw maskArrF ts.length (M.maxSeq ts) M.dim = .ok out := by
  obtain ⟨x, hx, hrows, hcols, hids, hmask⟩ :=
    buildInputs_eq ts (M.maxSeq ts) M.padId M.hasTokenTypeIds
  obtain ⟨maskArrF, hbuild, -, hmaskF⟩ :=
    buildMask_eq A ts (M.maxSeq ts) M.padId M.hasTokenTypeIds
  have hmask_f : fromShapeVec "mask_f" ts.length (M.maxSeq ts) (maskI64ToF32 A
      (buildTensorsFromIds ts ts.length (M.maxSeq ts) M.padId M.hasTokenTypeIds).2.1) =
      .ok maskArrF := by
    rw [buildMask] at hbuild
    rw [fromShapeVec, hbuild]
  rw [embedTokensOnePass, if_neg hne] at h
  dsimp only at h
  rw [hx] at h
  change poolOutcome A M ts.length (M.maxSeq ts) _ (session pass x) = .ok out at h
  cases hsession : session pass x with
  | hidden raw =>
    rw [hsession, poolOutcome, hmask_f] at h
    exact ⟨x, raw, maskArrF, hsession, hrows, hcols, hids, hmask, hmaskF, h⟩
  | _ =>
    rw [hsession] at h
    cases h

/-- A loop with a result has as many results as steps. -/
theorem length_of_mapM_ok {α β ε : Type} {f : α → Except ε β} {l : List α} {l' : List β}
    (h : l.mapM f = .ok l') : l'.length = l.length := by
  induction l generalizing l' with
  | nil =>
    rw [← Except.ok.inj h]
    rfl
  | cons a l ih =>
    rw [List.mapM_cons] at h
    match ha : f a, hl : l.mapM f with
    | .ok b, .ok bs =>
      rw [ha, hl] at h
      rw [← Except.ok.inj h, List.length_cons, ih hl, List.length_cons]
    | .error e, _ =>
      rw [ha] at h
      cases h
    | .ok b, .error e =>
      rw [ha, hl] at h
      cases h

/-- **A pass with a result has one vector for each sequence.** -/
theorem length_of_onePass (h : embedTokensOnePass A M session pass ts = .ok out) :
    out.length = ts.length := by
  by_cases hne : ts = []
  · subst ts
    rw [embedTokensOnePass, if_pos rfl] at h
    rw [← Except.ok.inj h]
    rfl
  obtain ⟨x, raw, maskArrF, -, -, -, -, -, hmask, hpool⟩ := onePass_ok hne h
  rw [meanPoolNormalize] at hpool
  split at hpool
  · cases hpool
  rename_i hshape
  obtain ⟨dims, hdims⟩ : ∃ dims, raw.shape = ts.length :: dims := by
    cases hraw : raw.shape with
    | cons n dims =>
      rw [hraw] at hshape
      have hn : n = ts.length := by
        by_contra hn
        exact hshape (.inr (.inl (by simpa using hn)))
      exact ⟨dims, by rw [hn]⟩
    | nil =>
      rw [hraw] at hshape
      simp at hshape
  rw [length_of_mapM_ok hpool, List.length_zip, ArrayViewD.length_axisIter hdims, hmask,
    List.length_map, Nat.min_self]

/-! ### Local sessions -/

/-- The output has the shape of the inputs, and the hidden states at the positions that the mask
of a row shows depend on the ids there only; `h` gives them. -/
def Session.Local (M : EmbedModel F) (session : Session F) (h : List ℤ → ℕ → List F) : Prop :=
  ∀ pass x raw, session pass x = .hidden raw →
    raw.shape = [x.inputIds.rows, x.inputIds.cols, M.dim] ∧
    ∀ i < x.inputIds.rows, ∀ n ≤ x.inputIds.cols, PrefixMask (x.attentionMask.row i) n →
      ∀ j < n, hiddenState raw i j = h ((x.inputIds.row i).take n) j

/-- The vector of a text under a local session. -/
def localVector (A : Arith F D) (M : EmbedModel F) (h : List ℤ → ℕ → List F)
    (tokens : List UInt32) : List F :=
  l2Normalize A (average A (A.ofNat64 tokens.length)
    (((List.range tokens.length).map (h (tokens.map fun t => (t.toNat : ℤ)))).foldl (addAssign A)
      (List.replicate M.dim A.zero)))

/-- The width cuts no row of the batch shorter than the model does. -/
theorem take_maxSeq (hM : 1 ≤ M.maxLen) {seq : List UInt32} (hseq : seq ∈ ts) :
    seq.take (M.maxSeq ts) = seq.take M.maxLen := by
  have hmax : seq.length ≤ (ts.map List.length).foldl max 0 :=
    le_foldl_max (.inl (List.mem_map_of_mem hseq))
  have hge := le_roundUpSeqLen
    (Nat.min_le_right ((ts.map List.length).foldl max 0) M.maxLen)
  have hle : M.maxSeq ts ≤ M.maxLen := roundUpSeqLen_le hM
  rw [List.take_eq_take_iff]
  rw [EmbedModel.maxSeq] at hle ⊢
  omega

/-- **Under a local session the vector of a row is a function of its tokens**, whatever the other
rows of the batch are and however wide it is. -/
theorem onePass_of_local (hA : A.Lawful) (hM : 1 ≤ M.maxLen) {h : List ℤ → ℕ → List F}
    (hlocal : session.Local M h) (hout : embedTokensOnePass A M session pass ts = .ok out) :
    out = ts.map fun seq => localVector A M h (seq.take M.maxLen) := by
  by_cases hne : ts = []
  · subst ts
    rw [embedTokensOnePass, if_pos rfl] at hout
    rw [← Except.ok.inj hout]
    rfl
  obtain ⟨x, raw, maskArrF, hsession, hrows, hcols, hids, hmask, hmaskF, hpool⟩ :=
    onePass_ok hne hout
  obtain ⟨hshape, hhidden⟩ := hlocal pass x raw hsession
  rw [hrows, hcols] at hshape
  rw [meanPoolNormalize_eq hA hshape hmaskF] at hpool
  rw [← Except.ok.inj hpool, pooledRows]
  refine List.ext_getElem? fun i => ?_
  rw [List.getElem?_mapIdx, List.getElem?_map]
  cases hseq : ts[i]? with
  | none => rfl
  | some seq =>
    obtain ⟨hi, hget⟩ := List.getElem?_eq_some_iff.1 hseq
    have hmem : seq ∈ ts := hget ▸ List.getElem_mem hi
    have hmaskRows : x.attentionMask.rows = ts.length := by
      simpa [Array2.axisIter] using congrArg List.length hmask
    have hlen : min seq.length (M.maxSeq ts) = (seq.take M.maxLen).length := by
      rw [← take_maxSeq hM hmem, List.length_take, Nat.min_comm]
    have hstates : (List.range (seq.take M.maxLen).length).map (hiddenState raw i) =
        (List.range (seq.take M.maxLen).length).map
          (h ((seq.take M.maxLen).map fun t => (t.toNat : ℤ))) := by
      refine List.map_congr_left fun j hj => ?_
      have hrowHidden := hhidden i (hrows.symm ▸ hi)
      rw [row_eq_of_axisIter hmaskRows hmask hseq, row_eq_of_axisIter hrows hids hseq]
        at hrowHidden
      have hstate := hrowHidden _ (hcols ▸ Nat.min_le_right _ _)
        (prefixMask_maskRow (M.maxSeq ts) seq) j (hlen ▸ List.mem_range.1 hj)
      rwa [take_idsRow, take_maxSeq hM hmem] at hstate
    rw [Option.map_some, Option.map_some, hlen, pooledRow, sumPrefix, hstates, localVector]

/-! ### The loop over the groups -/

variable {onePass : ℕ → List (List UInt32) → Except Failure (List (List F))}
  {tokenIds : List (List UInt32)} {groups : List (List ℕ)}

theorem embedGroup_of_ok {group : List ℕ} {vectors : List (List F)}
    (h : onePass pass (subBatch tokenIds group) = .ok vectors)
    (hlen : vectors.length = group.length) :
    embedGroup onePass tokenIds out (group, pass) = .ok (scatter out group vectors) := by
  rw [embedGroup, h]
  show (if vectors.length ≠ group.length then _ else _) = _
  rw [if_neg (not_not.2 hlen)]
  rfl

/-- A group with a result had a pass with one vector for each of its texts. -/
theorem embedGroup_ok {group : List ℕ} {out' : List (List F)}
    (h : embedGroup onePass tokenIds out (group, pass) = .ok out') :
    ∃ vectors, onePass pass (subBatch tokenIds group) = .ok vectors ∧
      vectors.length = group.length ∧ out' = scatter out group vectors := by
  match hpass : onePass pass (subBatch tokenIds group) with
  | .error e =>
    rw [embedGroup, hpass] at h
    cases h
  | .ok vectors =>
    by_cases hlen : vectors.length = group.length
    · rw [embedGroup_of_ok hpass hlen] at h
      exact ⟨vectors, rfl, hlen, (Except.ok.inj h).symm⟩
    · rw [embedGroup, hpass] at h
      change (if vectors.length ≠ group.length then _ else _) = _ at h
      rw [if_pos hlen] at h
      cases h

/-- The loop has a result exactly when each group has one vector for each of its texts. -/
theorem foldlM_embedGroup_ok_iff (ps : List (List ℕ × ℕ)) (out : List (List F)) :
    (∃ out', ps.foldlM (embedGroup onePass tokenIds) out = .ok out') ↔
      ∀ p ∈ ps, ∃ vectors, onePass p.2 (subBatch tokenIds p.1) = .ok vectors ∧
        vectors.length = p.1.length := by
  induction ps generalizing out with
  | nil => exact ⟨fun _ p hp => absurd hp List.not_mem_nil, fun _ => ⟨out, rfl⟩⟩
  | cons p ps ih =>
    obtain ⟨group, pass⟩ := p
    rw [List.forall_mem_cons]
    constructor
    · rintro ⟨out', hout⟩
      rw [List.foldlM_cons] at hout
      match hgroup : embedGroup onePass tokenIds out (group, pass) with
      | .ok mid =>
        rw [hgroup] at hout
        obtain ⟨vectors, hpass, hlen, -⟩ := embedGroup_ok hgroup
        exact ⟨⟨vectors, hpass, hlen⟩, (ih mid).1 ⟨out', hout⟩⟩
      | .error e =>
        rw [hgroup] at hout
        cases hout
    · rintro ⟨⟨vectors, hpass, hlen⟩, hps⟩
      rw [List.foldlM_cons, embedGroup_of_ok hpass hlen]
      exact (ih _).2 hps

/-- The loop puts the vector of each text of its groups in the place of the text. -/
theorem foldlM_embedGroup_eq {v : List UInt32 → List F} (ps : List (List ℕ × ℕ))
    (hpass : ∀ pass ts vectors, onePass pass ts = .ok vectors → vectors = ts.map v)
    {out out' : List (List F)} (h : ps.foldlM (embedGroup onePass tokenIds) out = .ok out') :
    out'.length = out.length ∧ ∀ i < out.length, out'[i]? =
      if i ∈ (ps.map (·.1)).flatten then some (v (tokenIds.getD i [])) else out[i]? := by
  induction ps generalizing out with
  | nil =>
    rw [← Except.ok.inj h]
    exact ⟨rfl, fun i _ => rfl⟩
  | cons p ps ih =>
    obtain ⟨group, pass⟩ := p
    rw [List.foldlM_cons] at h
    match hgroup : embedGroup onePass tokenIds out (group, pass) with
    | .error e =>
      rw [hgroup] at h
      cases h
    | .ok mid =>
      rw [hgroup] at h
      obtain ⟨vectors, hvectors, -, rfl⟩ := embedGroup_ok hgroup
      obtain ⟨hlen, hget⟩ := ih h
      rw [length_scatter] at hlen hget
      refine ⟨hlen, fun i hi => ?_⟩
      have hmap : vectors = group.map fun i => v (tokenIds.getD i []) := by
        rw [hpass _ _ _ hvectors, subBatch, List.map_map]
        rfl
      rw [hget i hi, hmap, getElem?_scatter (fun i => v (tokenIds.getD i [])) i hi,
        List.map_cons, List.flatten_cons]
      by_cases hps : i ∈ (ps.map (·.1)).flatten
      · rw [if_pos hps, if_pos (List.mem_append_right _ hps)]
      rw [if_neg hps]
      by_cases hmem : i ∈ group
      · rw [if_pos hmem, if_pos (List.mem_append_left _ hmem)]
      · rw [if_neg hmem, if_neg fun h => (List.mem_append.1 h).elim hmem hps]

/-! ### The call -/

/-- A call has a result exactly when each of its passes has one vector for each of its texts. -/
theorem embedTokensWith_ok_iff (honce : (M.groups A tokenIds).length ≤ 1 →
      ∀ vectors, onePass 0 tokenIds = .ok vectors → vectors.length = tokenIds.length) :
    (∃ out, embedTokensWith A M onePass tokenIds = .ok out) ↔
      ∀ k ts, (M.passes A tokenIds)[k]? = some ts →
        ∃ vectors, onePass k ts = .ok vectors ∧ vectors.length = ts.length := by
  rw [embedTokensWith, EmbedModel.passes]
  by_cases hne : tokenIds = []
  · rw [if_pos hne, if_pos hne]
    refine ⟨fun _ k ts hk => ?_, fun _ => ⟨[], rfl⟩⟩
    rw [List.getElem?_nil] at hk
    cases hk
  rw [if_neg hne, if_neg hne]
  dsimp only
  by_cases hgroups : (M.groups A tokenIds).length ≤ 1
  · rw [if_pos hgroups, if_pos hgroups]
    constructor
    · rintro ⟨out, hout⟩ k ts hk
      obtain ⟨hlt, hts⟩ := List.getElem?_eq_some_iff.1 hk
      obtain rfl : k = 0 := by simpa using hlt
      obtain rfl : tokenIds = ts := hts
      exact ⟨out, hout, honce hgroups out hout⟩
    · intro h
      obtain ⟨vectors, hvectors, -⟩ := h 0 tokenIds rfl
      exact ⟨vectors, hvectors⟩
  · rw [if_neg hgroups, if_neg hgroups, foldlM_embedGroup_ok_iff]
    constructor
    · intro h k ts hk
      rw [List.getElem?_map, Option.map_eq_some_iff] at hk
      obtain ⟨group, hgroup, rfl⟩ := hk
      obtain ⟨vectors, hvectors, hlen⟩ := h (group, k) (List.mem_zipIdx_iff_getElem?.2 hgroup)
      exact ⟨vectors, hvectors, by rw [hlen, subBatch, List.length_map]⟩
    · rintro h ⟨group, k⟩ hp
      have hgroup := List.mem_zipIdx_iff_getElem?.1 hp
      obtain ⟨vectors, hvectors, hlen⟩ := h k (subBatch tokenIds group) (by
        rw [List.getElem?_map, hgroup, Option.map_some])
      exact ⟨vectors, hvectors, by rw [hlen, subBatch, List.length_map]⟩

/-- A call with a result gives each text its vector, in the order of the request. -/
theorem embedTokensWith_eq {v : List UInt32 → List F}
    (hpass : ∀ pass ts vectors, onePass pass ts = .ok vectors → vectors = ts.map v)
    (h : embedTokensWith A M onePass tokenIds = .ok out) : out = tokenIds.map v := by
  rw [embedTokensWith] at h
  split at h
  · subst tokenIds
    rw [← Except.ok.inj h]
    rfl
  dsimp only at h
  split at h
  · exact hpass _ _ _ h
  obtain ⟨hlen, hget⟩ := foldlM_embedGroup_eq _ hpass h
  rw [List.length_replicate] at hlen hget
  refine List.ext_getElem? fun i => ?_
  by_cases hi : i < tokenIds.length
  · -- the groups hold every position, so no slot keeps its empty vector
    have hmem : i ∈ ((M.groups A tokenIds).zipIdx.map (·.1)).flatten := by
      rw [List.zipIdx_map_fst, EmbedModel.groups, (planSubbatches_perm _ _ _).mem_iff,
        List.mem_range, List.length_map]
      exact hi
    rw [hget i hi, if_pos hmem, List.getElem?_map, List.getElem?_eq_getElem hi, Option.map_some,
      List.getD_eq_getElem?_getD, List.getElem?_eq_getElem hi, Option.getD_some]
  · rw [List.getElem?_eq_none (by omega), List.getElem?_eq_none (by simpa using hi)]

/-- A call without a result is an error. -/
theorem exists_error {α : Type} {x : Except Failure α} (h : ¬∃ a, x = .ok a) :
    ∃ e, x = .error e := by
  match x, h with
  | .ok a, h => exact absurd ⟨a, rfl⟩ h
  | .error e, _ => exact ⟨e, rfl⟩

end

/-- **Sub-batching is transparent.** Let a forward pass, where it succeeds, give each row a vector
that depends on its first `maxLen` tokens only. Then a call that returns vectors returns those of
one pass over the whole request, one for each text and in the order of the request; it returns
them when all of its passes succeed, and an error when one of them fails or has the wrong number
of vectors. The last part does not depend on what the passes compute. -/
theorem embed_tokens_transparent (A : Arith F D) (M : EmbedModel F) (session : Session F)
    (v : List UInt32 → List F)
    (hpass : ∀ pass ts out, embedTokensOnePass A M session pass ts = .ok out →
      out = ts.map fun t => v (t.take M.maxLen)) (tokenIds : List (List UInt32)) :
    (∀ out, embedTokens A M session tokenIds = .ok out →
      out = (tokenIds.map fun t => v (t.take M.maxLen)) ∧
      ∀ pass single, embedTokensOnePass A M session pass tokenIds = .ok single → out = single) ∧
    ((∀ k ts, (M.passes A tokenIds)[k]? = some ts →
        ∃ vectors, embedTokensOnePass A M session k ts = .ok vectors) →
      ∃ out, embedTokens A M session tokenIds = .ok out) ∧
    (∀ k ts, (M.passes A tokenIds)[k]? = some ts →
      (∀ vectors, embedTokensOnePass A M session k ts = .ok vectors →
        vectors.length ≠ ts.length) →
      ∃ e, embedTokens A M session tokenIds = .error e) ∧
    (∀ (onePass : ℕ → List (List UInt32) → Except Failure (List (List F))) k ts,
      1 < (M.passes A tokenIds).length → (M.passes A tokenIds)[k]? = some ts →
      (∀ vectors, onePass k ts = .ok vectors → vectors.length ≠ ts.length) →
      ∃ e, embedTokensWith A M onePass tokenIds = .error e) := by
  have honce : (M.groups A tokenIds).length ≤ 1 → ∀ vectors,
      embedTokensOnePass A M session 0 tokenIds = .ok vectors →
      vectors.length = tokenIds.length := fun _ _ h => length_of_onePass h
  refine ⟨fun out hout => ?_, fun h => ?_, fun k ts hk hwrong => ?_,
    fun onePass k ts hmany hk hwrong => ?_⟩
  · have heq := embedTokensWith_eq hpass hout
    exact ⟨heq, fun pass single hsingle => by rw [heq, hpass _ _ _ hsingle]⟩
  · refine (embedTokensWith_ok_iff honce).2 fun k ts hk => ?_
    obtain ⟨vectors, hvectors⟩ := h k ts hk
    exact ⟨vectors, hvectors, length_of_onePass hvectors⟩
  · refine exists_error fun hok => ?_
    obtain ⟨vectors, hvectors, hlen⟩ := (embedTokensWith_ok_iff honce).1 hok k ts hk
    exact hwrong vectors hvectors hlen
  · have hgroups : ¬(M.groups A tokenIds).length ≤ 1 := by
      intro hle
      rw [EmbedModel.passes, if_pos hle] at hmany
      split at hmany <;> simp at hmany
    refine exists_error fun hok => ?_
    obtain ⟨vectors, hvectors, hlen⟩ :=
      (embedTokensWith_ok_iff fun hle => absurd hle hgroups).1 hok k ts hk
    exact hwrong vectors hvectors hlen

/-- A model with one dimension whose hidden state at a position is the id there. -/
def idModel : EmbedModel ℚ := ⟨4, 0, true, 1, 2⟩

/-- Its session. -/
def idSession : Session ℚ := fun _ x =>
  .hidden ⟨[(x.inputIds.rows, x.inputIds.cols), (x.inputIds.cols, 1), (1, 1)],
    fun o => x.inputIds.data.getD o.toNat 0⟩

theorem idSession_local : idSession.Local idModel fun ids j => [((ids.getD j 0 : ℤ) : ℚ)] := by
  intro pass x raw hsession
  obtain rfl := Outcome.hidden.inj hsession
  refine ⟨rfl, fun i hi n hn _ j hj => ?_⟩
  have hjcols : j < x.inputIds.cols := by omega
  have hoffset : ((i : ℤ) * x.inputIds.cols + j).toNat = i * x.inputIds.cols + j := by omega
  have hrow : ((x.inputIds.row i).take n)[j]? = x.inputIds.data[i * x.inputIds.cols + j]? := by
    rw [List.getElem?_take, if_pos hj, Array2.getElem?_row, if_pos hjcols]
  have hstate : hiddenState (F := ℚ) ⟨[(x.inputIds.rows, x.inputIds.cols), (x.inputIds.cols, 1),
      (1, 1)], fun o => x.inputIds.data.getD o.toNat 0⟩ i j =
        [((x.inputIds.data.getD (i * x.inputIds.cols + j) 0 : ℤ) : ℚ)] := by
    simp [hiddenState, ArrayViewD.axis0, ArrayViewD.iter, ArrayViewD.shape, ArrayViewD.get?, hi,
      hjcols, hoffset]
  show hiddenState _ i j = [((((x.inputIds.row i).take n).getD j 0 : ℤ) : ℚ)]
  rw [hstate, List.getD_eq_getElem?_getD, List.getD_eq_getElem?_getD, hrow]

/-- Texts with one, four, no and six tokens in two passes get the vectors of one pass. -/
theorem embed_tokens_transparent_idModel :
    embedTokens exactArith idModel idSession [[5], [1, 2, 3, 4], [], [9, 9, 9, 9, 9, 9]] =
      embedTokensOnePass exactArith idModel idSession 7
        [[5], [1, 2, 3, 4], [], [9, 9, 9, 9, 9, 9]] := by
  have hok : (embedTokens exactArith idModel idSession
      [[5], [1, 2, 3, 4], [], [9, 9, 9, 9, 9, 9]]).isOk = true := by decide +kernel
  have hok' : (embedTokensOnePass exactArith idModel idSession 7
      [[5], [1, 2, 3, 4], [], [9, 9, 9, 9, 9, 9]]).isOk = true := by decide +kernel
  match hout : embedTokens exactArith idModel idSession _,
      hsingle : embedTokensOnePass exactArith idModel idSession 7 _, hok, hok' with
  | .ok out, .ok single, _, _ =>
    rw [((embed_tokens_transparent exactArith idModel idSession _
      (fun _ _ _ h => onePass_of_local exactArith_lawful (by decide) idSession_local h)
      [[5], [1, 2, 3, 4], [], [9, 9, 9, 9, 9, 9]]).1 out hout).2 7 single hsingle]

end OxEmbed.Embed

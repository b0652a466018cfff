import OxEmbed.Batcher.Transparency
import OxEmbed.Ipc.Replies
import OxEmbed.Reranker.Basic

/-!
# The paths of a rerank request

A rerank request is scored directly on the model, through the dynamic batcher, which coalesces it
with other requests, or by a worker process. The batcher carries vectors, so the adapter of
`main.rs` wraps every score as a vector with one element and `unwrap_scalar_batch` of
`api_rerank.rs` unwraps it; the worker tokenizes the texts itself.

## Main definitions

* `InferenceError`, `unwrapScalarBatch`, `batchedScores`, `directScores` : `dispatch_inference`.
* `AdapterEnds`, `Adapted` : the steps of the batcher when it runs the adapter.
* `rerankModel`, `Reranks`, `RerankEnds` : the steps of a worker that has loaded the reranker.
* `ScoredOn` : a batch is scored on a pool.
* `PathsAgree` : what the paths return.

## Main results

* `batched_of_reachable` : what the batcher delivers, in every reachable state.
* `worker_of_reachable`, `worker_ok_of_reachable` : what the calls to the worker return, in every
  reachable state.
* `scoredOn_fixed`, `scoredOn_dynamic` : which pool scores a batch.
* `rerank_paths_agree` : all paths give the same scores.
-/

namespace OxEmbed.Reranker

open Pooling

variable {F : Type}

/-! ### Dispatching to the backend -/

/-- `InferenceError`. -/
inductive InferenceError
  | queueFull (message : String)
  | inference (message : String)
  | shutdown
  | shapeMismatch (message : String)
  | panic (message : String)
  deriving DecidableEq

/-- The loop of `unwrap_scalar_batch`, from the row number `i` on. -/
def unwrapRows (i : ℕ) : List (List F) → Except String (List F)
  | [] => .ok []
  | [score] :: rows =>
    match unwrapRows (i + 1) rows with
    | .ok out => .ok (score :: out)
    | .error e => .error e
  | inner :: _ =>
    .error s!"rerank row {i}: expected 1-element score vec, got {inner.length}"

/-- `unwrap_scalar_batch`. -/
def unwrapScalarBatch (batched : List (List F)) (expected : ℕ) : Except String (List F) :=
  if batched.length ≠ expected then
    .error s!"batcher returned {batched.length} rows, expected {expected}"
  else unwrapRows 0 batched

/-- How `embed_tokens` returns, from what it receives on its reply channel, if it does. -/
def received {V : Type} : Option (Batcher.Reply V) → Except Batcher.BatchError (List V)
  | some (.ok v) => .ok v
  | some (.err m) => .error (.inference m)
  | none => .error .shutdown

/-- `dispatch_inference` with a batcher, from the result of `embed_tokens`. -/
def batchedScores (docCount : ℕ) :
    Except Batcher.BatchError (List (List F)) → Except InferenceError (List F)
  | .ok v =>
    match unwrapScalarBatch v docCount with
    | .ok scores => .ok scores
    | .error e => .error (.shapeMismatch e)
  | .error (.queueFull batcherName) =>
    .error (.queueFull s!"batcher '{batcherName}' queue is full")
  | .error (.inference msg) => .error (.inference msg)
  | .error .shutdown => .error .shutdown

/-- `dispatch_inference` without a batcher, from the result of `score_pairs`; `joinErr` is the text
of the join error when it panics. -/
def directScores (joinErr : String) : Except Failure (List F) → Except InferenceError (List F)
  | .ok s => .ok s
  | .error (.err e) => .error (.inference e)
  | .error .panic => .error (.panic s!"score task panicked: {joinErr}")

theorem unwrapRows_map (scores : List F) (i : ℕ) :
    unwrapRows i (scores.map fun s => [s]) = .ok scores := by
  induction scores generalizing i with
  | nil => rfl
  | cons s scores ih => rw [List.map_cons, unwrapRows, ih]

/-- Unwrapping undoes the wrapping of the adapter. -/
theorem batchedScores_map (scores : List F) {docCount : ℕ} (h : scores.length = docCount) :
    batchedScores docCount (.ok (scores.map fun s => [s])) = .ok scores := by
  rw [batchedScores, unwrapScalarBatch, if_neg (by simp [h]), unwrapRows_map]

variable (M : RerankerModel) (sessions : Sessions F) (encodeBatch : EncodeBatch)

/-! ### The batched path -/

/-- How the embed task of the batcher ends, from the result of `score_pairs` on the batch: the
adapter wraps every score as a vector with one element. -/
def AdapterEnds : Except Failure (List F) → Batcher.EmbedOutcome (List F) → Prop
  | .ok scores, .ok vecs => vecs = scores.map fun s => [s]
  | .error (.err e), .err msg => msg = e
  | .error .panic, .panic _ => True
  | _, _ => False

/-- The batcher of a reranker runs the adapter. -/
def Adapted (s : Batcher.State (List F)) (a : Batcher.Action (List F)) : Prop :=
  match a, s.phase with
  | .embedDone o, .infer _ _ ids => ∃ cursor, AdapterEnds (scorePairs M sessions cursor ids) o
  | _, _ => True

variable {M sessions encodeBatch} {score : List ℤ → F}

/-- The vector of a pair. -/
def scoreVec (M : RerankerModel) (score : List ℤ → F) (tokens : List UInt32) : List F :=
  [M.pairScore score tokens]

theorem ok_of_adapterEnds {result : Except Failure (List F)} {vecs : List (List F)}
    (h : AdapterEnds result (.ok vecs)) :
    ∃ scores, result = .ok scores ∧ vecs = scores.map fun s => [s] := by
  match result, h with
  | .ok scores, h => exact ⟨scores, rfl, h⟩

/-- The adapter maps every pair by its score. -/
theorem pointwise_of_adapted (hlocal : sessions.Local score) {s : Batcher.State (List F)}
    {a : Batcher.Action (List F)} (h : Adapted M sessions s a) :
    Batcher.Pointwise (scoreVec M score) s a := by
  unfold Batcher.Pointwise
  split
  next vecs counts replies ids hp =>
    obtain ⟨cursor, hends⟩ : ∃ cursor,
        AdapterEnds (scorePairs M sessions cursor ids) (.ok vecs) := by
      simpa only [Adapted, hp] using h
    obtain ⟨scores, hscores, rfl⟩ := ok_of_adapterEnds hends
    intro _
    rw [scorePairs_of_local hlocal hscores, List.map_map]
    rfl
  · trivial

variable {V : Type} [Batcher.RatioArith V] {cfg : Batcher.BatcherConfig V}
  {s s' : Batcher.State (List F)} {a : Batcher.Action (List F)}

/-- Every batch whose embed task has ended was scored by the adapter. -/
def EndsAdapted (M : RerankerModel) (sessions : Sessions F) (s : Batcher.State (List F)) : Prop :=
  ∀ p ∈ s.ended, ∃ cursor, AdapterEnds (scorePairs M sessions cursor (Batcher.texts p.1)) p.2

theorem EndsAdapted.step (h : EndsAdapted M sessions s)
    (hd : Batcher.Delivery (scoreVec M score) s) (ha : Adapted M sessions s a)
    (hstep : Batcher.Trans cfg s a s') : EndsAdapted M sessions s' := by
  cases hstep with
  | @dispatch kept hp hk =>
    have hlen : s.outcomes.length = s.dispatched.length := hd.ended (by simp [hp])
    intro p hmem
    have hsame : (s.dispatched ++ [kept]).zip s.outcomes = s.ended := by
      rw [← List.append_nil s.outcomes, List.zip_append hlen.symm, List.zip_nil_right,
        List.append_nil, Batcher.State.ended]
    exact h p (hsame ▸ hmem)
  | @embedDone counts replies ids o hp =>
    obtain ⟨front, kept, hdispatched, hlen, -, -, rfl⟩ := hd.infer _ _ _ hp
    intro p hmem
    have hended : s.dispatched.zip (s.outcomes ++ [o]) = s.ended ++ [(kept, o)] := by
      rw [Batcher.State.ended, hdispatched, List.zip_append hlen.symm,
        ← List.append_nil s.outcomes, List.zip_append hlen.symm]
      simp
    have hmem' : p ∈ s.ended ++ [(kept, o)] := hended ▸ hmem
    rcases List.mem_append.mp hmem' with hmem' | hmem'
    · exact h p hmem'
    · rw [List.mem_singleton.mp hmem']
      simpa only [Adapted, hp] using ha
  | _ => exact h

theorem endsAdapted_of_reachable (hlocal : sessions.Local score)
    (hs : (Batcher.machine (List F) cfg).Reachable (Adapted M sessions) s) :
    EndsAdapted M sessions s ∧ Batcher.Delivery (scoreVec M score) s ∧
      (s.replies.map Prod.fst).Nodup := by
  have hpointwise {s : Batcher.State (List F)}
      (hs : (Batcher.machine (List F) cfg).Reachable (Adapted M sessions) s) :
      (Batcher.machine (List F) cfg).Reachable (Batcher.Pointwise (scoreVec M score)) s :=
    hs.strengthen fun _ _ _ _ ha _ => pointwise_of_adapted hlocal ha
  refine ⟨?_, Batcher.delivery_of_reachable (hpointwise hs), Batcher.replies_nodup (hpointwise hs)⟩
  refine hs.invariant_of_reachable (P := EndsAdapted M sessions) ?_ fun s a s' hs ih ha h =>
    ih.step (Batcher.delivery_of_reachable (hpointwise hs)) ha (Batcher.trans_of_step h)
  rintro _ ⟨-, rfl⟩
  exact nofun

/-- What a requester of the batcher gets: its reply is unwrapped to the scores of its own pairs, or
it is an error, which it is not when no session fails. -/
structure BatchedReply (M : RerankerModel) (sessions : Sessions F) (score : List ℤ → F)
    (tokenIds : List (List UInt32)) (reply : Batcher.Reply (List F)) : Prop where
  scores : ∀ v, reply = .ok v → batchedScores tokenIds.length (received (some reply)) =
    .ok (tokenIds.map (M.pairScore score))
  ok : sessions.NeverFail M → M.HasSessions → ∃ v, reply = .ok v

theorem batchedReply_of_ends (hlocal : sessions.Local score) {cursor : ℕ}
    {kept : List Batcher.Item} {o : Batcher.EmbedOutcome (List F)}
    (hends : AdapterEnds (scorePairs M sessions cursor (Batcher.texts kept)) o)
    (item : Batcher.Item) : BatchedReply M sessions score item.tokenIds
      (Batcher.answer (scoreVec M score) (Batcher.texts kept).length item o) := by
  cases o with
  | ok vecs =>
    obtain ⟨scores, hscores, rfl⟩ := ok_of_adapterEnds hends
    have hlen : (scores.map fun s => [s]).length = (Batcher.texts kept).length := by
      rw [scorePairs_of_local hlocal hscores]
      simp
    have hanswer : Batcher.answer (scoreVec M score) (Batcher.texts kept).length item
        (.ok (scores.map fun s => [s])) = .ok (item.tokenIds.map (scoreVec M score)) := by
      rw [Batcher.answer, if_neg (not_not.mpr hlen)]
    rw [hanswer]
    refine ⟨fun v _ => ?_, fun _ _ => ⟨_, rfl⟩⟩
    have hmap : item.tokenIds.map (scoreVec M score) =
        (item.tokenIds.map (M.pairScore score)).map fun s => [s] := by
      rw [List.map_map]
      rfl
    rw [received, hmap, batchedScores_map _ (by simp)]
  | err msg | panic e =>
    refine ⟨fun v hv => ?_, fun hnever hM => ?_⟩
    · cases hv
    · rw [scorePairs_of_neverFail hlocal hnever hM] at hends
      cases hends

/-- What the batcher delivers. -/
structure BatchedAgree (M : RerankerModel) (sessions : Sessions F) (score : List ℤ → F)
    (s : Batcher.State (List F)) : Prop where
  /-- Every reply goes to one dispatched request and is made from its own pairs. -/
  only : ∀ p ∈ s.replies, ∃ item ∈ s.dispatched.flatten, item.reply = p.1 ∧
    BatchedReply M sessions score item.tokenIds p.2
  /-- A live requester of a finished batch has one reply. -/
  answered : ∀ kept o, (kept, o) ∈ s.finished → ∀ item ∈ kept, item.reply ∉ s.cancelled →
    ∃! reply, (item.reply, reply) ∈ s.replies
  /-- A call that returns without waiting had no pairs, or was refused. -/
  empty : ∀ r v, (r, .ok v) ∈ s.returned → batchedScores 0 (.ok v) = .ok []

/-- A call that returns vectors without waiting returns none. -/
theorem returned_nil (hs : (Batcher.machine (List F) cfg).Reachable (Adapted M sessions) s) :
    ∀ r v, (r, .ok v) ∈ s.returned → v = [] := by
  refine hs.invariant (P := fun s => ∀ r v, (r, .ok v) ∈ s.returned → v = []) ?_
    fun s a s' ih _ h => ?_
  · rintro _ ⟨-, rfl⟩
    exact nofun
  · have hrefuse {s₀ : Batcher.State (List F)} {r₀ : ℕ}
        {x : Except Batcher.BatchError (List (List F))} (hs₀ : s₀.returned = s.returned)
        (hx : ∀ v, x = .ok v → v = []) :
        ∀ r v, (r, .ok v) ∈ (s₀.refuse r₀ x).returned → v = [] := by
      intro r v hmem
      rw [Batcher.State.refuse, hs₀] at hmem
      rcases List.mem_append.mp hmem with hmem | hmem
      · exact ih r v hmem
      · exact hx v (Prod.mk.inj (List.mem_singleton.mp hmem)).2.symm
    cases Batcher.trans_of_step h with
    | submitEmpty => exact hrefuse rfl fun v hv => (Except.ok.inj hv).symm
    | submitFull => exact hrefuse rfl nofun
    | sendFull => exact hrefuse rfl nofun
    | _ => exact ih

/-- **What the batcher delivers**, in every reachable state. -/
theorem batched_of_reachable (hlocal : sessions.Local score)
    (hs : (Batcher.machine (List F) cfg).Reachable (Adapted M sessions) s) :
    BatchedAgree M sessions score s := by
  obtain ⟨hends, hdelivery, hnodup⟩ := endsAdapted_of_reachable hlocal hs
  refine ⟨fun p hp => ?_, fun kept o hf item hi hc => ?_, fun r v hv => ?_⟩
  · obtain ⟨done, hdone, hsub, -⟩ := hdelivery.sent
    have hmem : p ∈ s.endedAnswers (scoreVec M score) :=
      hdone ▸ List.mem_append_left _ (hsub.subset hp)
    obtain ⟨⟨kept, o⟩, hended, hanswers⟩ := List.mem_flatMap.mp hmem
    obtain ⟨item, hi, rfl⟩ := List.mem_map.mp hanswers
    obtain ⟨cursor, hadapter⟩ := hends _ hended
    refine ⟨item, ?_, rfl, batchedReply_of_ends hlocal hadapter item⟩
    exact List.mem_flatten.mpr ⟨kept, (List.of_mem_zip hended).1, hi⟩
  · have hmem := hdelivery.mem_replies hf hi hc
    refine ⟨_, hmem, fun reply hreply => ?_⟩
    exact (Prod.mk.inj (List.inj_on_of_nodup_map hnodup hreply hmem rfl)).2
  · rw [returned_nil hs r v hv]
    rfl

/-! ### The worker path -/

/-- The loaded reranker of a worker, at a value of the cursor. A call that panics ends the blocking
task with a join error, so its reply is not read from here. -/
def rerankModel (M : RerankerModel) (sessions : Sessions F) (encodeBatch : EncodeBatch)
    (cursor : ℕ) : Ipc.LoadedModel F :=
  .rerank fun query documents _ =>
    match standaloneScore M sessions encodeBatch cursor query documents with
    | .ok scores => .ok scores
    | .error (.err e) => .error e
    | .error .panic => .error ""

/-- The worker `w` has loaded the reranker: its blocking tasks run it, or panic. -/
def Reranks (M : RerankerModel) (sessions : Sessions F) (encodeBatch : EncodeBatch) (w : ℕ)
    (s : Ipc.State F) (a : Ipc.Action F) : Prop :=
  match a with
  | .server c (.inferred r) => ∀ k ∈ s.conns c, k.worker = w →
    (∃ e, r = .error e) ∨ ∃ cursor, r = .ok (rerankModel M sessions encodeBatch cursor)
  | _ => True

/-- How a blocking task with the reranker ends: with its reply, or with a join error when the call
panics. -/
def RerankEnds (M : RerankerModel) (sessions : Sessions F) (encodeBatch : EncodeBatch)
    (req : Ipc.WorkerRequest F) (r : Except String (Ipc.LoadedModel F)) : Prop :=
  ∃ cursor, r = .ok (rerankModel M sessions encodeBatch cursor) ∨
    ∃ rerank e, req = .rerank rerank ∧ r = .error e ∧
      standaloneScore M sessions encodeBatch cursor rerank.query rerank.documents = .error .panic

section Worker

open Ipc

variable {P : Postcard F} {s : Ipc.State F} {a : Ipc.Action F} {w c i : ℕ} {k : Conn F}
  {call : Call F} {C : Ipc.State F → Ipc.Action F → Prop}

theorem ends_of_reranks (h : Reranks M sessions encodeBatch w s a) :
    Ends (fun _ r => (∃ e, r = .error e) ∨ ∃ cursor, r = .ok (rerankModel M sessions encodeBatch
      cursor)) w s a := by
  unfold Ends
  split
  · exact fun k hk hw _ _ => h k hk hw
  · trivial

/-- The scores in a reply of the reranker. -/
theorem standaloneScore_of_reply {req : WorkerRequest F} {cursor : ℕ} {ok : RerankResponseOk F}
    (h : inferenceReply req (.ok (rerankModel M sessions encodeBatch cursor)) = .rerank ok) :
    ∃ r, req = .rerank r ∧
      standaloneScore M sessions encodeBatch cursor r.query r.documents = .ok ok.scores := by
  cases req with
  | rerank r =>
    refine ⟨r, rfl, ?_⟩
    simp only [inferenceReply, rerankModel, LoadedModel.respond] at h
    cases hscore : standaloneScore M sessions encodeBatch cursor r.query r.documents with
    | ok scores =>
      rw [hscore] at h
      rw [← WorkerResponse.rerank.inj h]
    | error failure =>
      rw [hscore] at h
      cases failure <;> cases h
  | embed | splade => cases h

/-- What a call to the worker returns. -/
def WorkerAgree (M : RerankerModel) (encodeBatch : EncodeBatch) (score : List ℤ → F)
    (d : Dispatch F) (ok : RerankResponseOk F) : Prop :=
  ∃ model query documents maxSeqLen tokenIds, d = .rerank model query documents maxSeqLen ∧
    tokenizePairs M encodeBatch query documents = .ok tokenIds ∧
    ok.scores = tokenIds.map (M.pairScore score) ∧ ok.scores.length = documents.length

/-- **What the calls to the worker return**, in every reachable state. -/
theorem worker_of_reachable (hP : P.Lawful) (hlocal : sessions.Local score)
    (hs : (Ipc.machine P).Reachable C s)
    (hC : ∀ s a, C s a → Reranks M sessions encodeBatch w s a) {ok : RerankResponseOk F}
    (hi : s.calls i = some call) (hphase : call.phase = .returned (some c) (.ok (.rerank ok)))
    (hc : s.conns c = some k) (hk : k.worker = w) :
    WorkerAgree M encodeBatch score call.dispatch ok := by
  obtain ⟨hreply, hanswers⟩ :=
    reply_of_ended hP hs (fun s a h => ends_of_reranks (hC s a h)) hi hphase hc hk
  obtain ⟨r, cursor, hreq, hscore⟩ : ∃ r cursor, call.request = .rerank r ∧
      standaloneScore M sessions encodeBatch cursor r.query r.documents = .ok ok.scores := by
    rcases hreply with ⟨message, -, herr⟩ | ⟨r, ⟨e, rfl⟩ | ⟨cursor, rfl⟩, hresp⟩
    · cases herr
    · cases hresp
    · obtain ⟨r, hreq, hscore⟩ := standaloneScore_of_reply hresp.symm
      exact ⟨r, cursor, hreq, hscore⟩
  rw [hreq] at hanswers
  obtain ⟨tokenIds, htokens, hpairs⟩ : ∃ tokenIds,
      tokenizePairs M encodeBatch r.query r.documents = .ok tokenIds ∧
        scorePairs M sessions cursor tokenIds = .ok ok.scores := by
    rw [standaloneScore] at hscore
    split at hscore
    · cases hscore
    next tokenIds htokens => exact ⟨tokenIds, htokens, hscore⟩
  have hscores := scorePairs_of_local hlocal hpairs
  cases hd : call.dispatch with
  | rerank model query documents maxSeqLen =>
    rw [Call.request, hd] at hreq
    obtain rfl := WorkerRequest.rerank.inj hreq
    exact ⟨model, query, documents, maxSeqLen, tokenIds, rfl, htokens, hscores, hanswers⟩
  | embed | splade =>
    rw [Call.request, hd] at hreq
    cases hreq

/-- **A call that is answered gets the scores**, when no session fails and the texts have tokens,
unless the worker rejects its request. -/
theorem worker_ok_of_reachable (hP : P.Lawful) (hlocal : sessions.Local score)
    (hnever : sessions.NeverFail M) (hM : M.HasSessions) (hs : (Ipc.machine P).Reachable C s)
    (hC : ∀ s a, C s a → Ends (RerankEnds M sessions encodeBatch) w s a)
    {model query : String} {documents : List String} {maxSeqLen : UInt32}
    {ts : List (List UInt32)} {resp : WorkerResponse F}
    (htokens : tokenizePairs M encodeBatch query documents = .ok ts)
    (hi : s.calls i = some call) (hd : call.dispatch = .rerank model query documents maxSeqLen)
    (hphase : call.phase = .returned (some c) (.ok resp)) (hc : s.conns c = some k)
    (hk : k.worker = w) :
    (∃ message, IsRejection message ∧ resp = .err call.requestId message) ∨
      resp = .rerank ⟨call.requestId, ts.map (M.pairScore score)⟩ := by
  have hreq : call.request =
      .rerank ⟨call.requestId, model, query, documents, maxSeqLen⟩ := by rw [Call.request, hd]; rfl
  have hscore (cursor : ℕ) : standaloneScore M sessions encodeBatch cursor query documents =
      .ok (ts.map (M.pairScore score)) := by
    rw [standaloneScore, htokens]
    exact scorePairs_of_neverFail hlocal hnever hM
  obtain ⟨hreply, -⟩ := reply_of_ended hP hs hC hi hphase hc hk
  rw [hreq] at hreply
  rcases hreply with hrejected | ⟨r, ⟨cursor, rfl | ⟨rerank, e, hrerank, rfl, hpanic⟩⟩, rfl⟩
  · exact .inl hrejected
  · right
    simp only [inferenceReply, rerankModel, LoadedModel.respond, hscore]
  · obtain rfl := WorkerRequest.rerank.inj hrerank
    rw [hscore] at hpanic
    cases hpanic

end Worker

/-! ### All paths -/

/-- A path gives the scores, unless it fails; it does not fail when no session does. -/
structure ScoresAs {ε : Type} (M : RerankerModel) (sessions : Sessions F) (scores : List F)
    (result : Except ε (List F)) : Prop where
  same : ∀ out, result = .ok out → out = scores
  ok : sessions.NeverFail M → M.HasSessions → result = .ok scores

/-- The scores of a batch are a function of the sessions of one pool; where these fail, the batch
fails with their error. -/
structure ScoredOn (M : RerankerModel) (sessions : Sessions F) (pool : SessionPool) (cursor : ℕ)
    (ts : List (List UInt32)) : Prop where
  only : ∀ sessions' : Sessions F, sessions' pool = sessions pool →
    scorePairs M sessions' cursor ts = scorePairs M sessions cursor ts
  failed : ∀ (sessions' : Sessions F) (e : String), (∀ cursor x, sessions' pool cursor x =
    .inference e) → scorePairs M sessions' cursor ts = .error (.err s!"{pool.inferenceName}: {e}")

/-- What the paths return for a cross-encoder whose score of a pair is `score`. -/
structure PathsAgree (M : RerankerModel) (sessions : Sessions F) (encodeBatch : EncodeBatch)
    (score : List ℤ → F) : Prop where
  dynamic : ∀ cursor ts, ScoresAs M sessions (ts.map (M.pairScore score))
    (scorePairsDynamic M sessions cursor ts)
  fixed : ∀ count cursor ts, count ≠ 0 → ScoresAs M sessions (ts.map (M.pairScore score))
    (scorePairsStatic M sessions count cursor ts)
  /-- `score_pairs`, with any set of static shapes. -/
  routed : ∀ cursor ts, ScoresAs M sessions (ts.map (M.pairScore score))
    (scorePairs M sessions cursor ts)
  /-- A batch goes to the static pool for exactly its size if there is one. -/
  fixedPool : ∀ count cursor ts, ts ≠ [] → M.staticSessionPools ts.length = some count →
    scorePairs M sessions cursor ts = scorePairsStatic M sessions count cursor ts ∧
      (count ≠ 0 → ScoredOn M sessions (.fixed ts.length) cursor ts)
  /-- And else to the dynamic pool. -/
  dynamicPool : ∀ cursor ts, ts ≠ [] → M.staticSessionPools ts.length = none →
    scorePairs M sessions cursor ts = scorePairsDynamic M sessions cursor ts ∧
      (M.sessions ≠ 0 → ScoredOn M sessions .dynamic cursor ts)
  /-- Without a batcher. -/
  direct : ∀ joinErr cursor ts, ScoresAs M sessions (ts.map (M.pairScore score))
    (directScores joinErr (scorePairs M sessions cursor ts))
  /-- The worker scores the pairs of the texts. -/
  standalone : ∀ cursor query documents ts,
    tokenizePairs M encodeBatch query documents = .ok ts →
      ScoresAs M sessions (ts.map (M.pairScore score))
        (standaloneScore M sessions encodeBatch cursor query documents)
  /-- A call to a worker with the reranker that returns scores returns those, whatever the other
  calls and workers do. -/
  worker : ∀ (P : Ipc.Postcard F) (C : Ipc.State F → Ipc.Action F → Prop) (s : Ipc.State F)
    (i c w : ℕ) (call : Ipc.Call F) (k : Ipc.Conn F) (ok : Ipc.RerankResponseOk F), P.Lawful →
      (Ipc.machine P).Reachable C s →
      (∀ s a, C s a → Reranks M sessions encodeBatch w s a) → s.calls i = some call →
      call.phase = .returned (some c) (.ok (.rerank ok)) → s.conns c = some k → k.worker = w →
      WorkerAgree M encodeBatch score call.dispatch ok
  /-- A call that is answered gets the scores when no session fails, unless it is rejected before
  the worker runs the reranker. -/
  workerOk : ∀ (P : Ipc.Postcard F) (C : Ipc.State F → Ipc.Action F → Prop) (s : Ipc.State F)
    (i c w : ℕ) (call : Ipc.Call F) (k : Ipc.Conn F) (model query : String)
    (documents : List String) (maxSeqLen : UInt32) (ts : List (List UInt32))
    (resp : Ipc.WorkerResponse F), P.Lawful → sessions.NeverFail M → M.HasSessions →
      (Ipc.machine P).Reachable C s →
      (∀ s a, C s a → Ipc.Ends (RerankEnds M sessions encodeBatch) w s a) →
      tokenizePairs M encodeBatch query documents = .ok ts → s.calls i = some call →
      call.dispatch = .rerank model query documents maxSeqLen →
      call.phase = .returned (some c) (.ok resp) → s.conns c = some k → k.worker = w →
      (∃ message, Ipc.IsRejection message ∧ resp = .err call.requestId message) ∨
        resp = .rerank ⟨call.requestId, ts.map (M.pairScore score)⟩
  /-- The batcher delivers them, whatever the requests are coalesced with. -/
  batched : ∀ (V : Type) [Batcher.RatioArith V] (cfg : Batcher.BatcherConfig V)
    (s : Batcher.State (List F)),
      (Batcher.machine (List F) cfg).Reachable (Adapted M sessions) s →
      BatchedAgree M sessions score s

/-- A pass is a function of the sessions of its pool. -/
theorem scorePass_congr {pool : SessionPool} {sessions sessions' : Sessions F}
    (h : sessions' pool = sessions pool) (count cursor : ℕ) (ts : List (List UInt32))
    (maxSeq : ℕ) : scorePass M sessions' pool count cursor ts maxSeq =
      scorePass M sessions pool count cursor ts maxSeq := by
  rw [scorePass, scorePass, h]

theorem scorePass_of_failed {pool : SessionPool} {sessions : Sessions F} {e : String}
    (h : ∀ cursor x, sessions pool cursor x = .inference e) {count : ℕ} (hcount : count ≠ 0)
    (cursor : ℕ) (ts : List (List UInt32)) (maxSeq : ℕ) :
    scorePass M sessions pool count cursor ts maxSeq =
      .error (.err s!"{pool.inferenceName}: {e}") := by
  obtain ⟨x, -, -, -, -, -, hpass⟩ := scorePass_eq M sessions pool count cursor ts maxSeq
  rw [hpass, if_neg hcount, h, readOutcome]

/-- **The static pool for exactly the size of a batch scores it.** -/
theorem scoredOn_fixed {count : ℕ} {cursor : ℕ} {ts : List (List UInt32)} (hts : ts ≠ [])
    (hpool : M.staticSessionPools ts.length = some count) (hcount : count ≠ 0) :
    ScoredOn M sessions (.fixed ts.length) cursor ts where
  only sessions' h := by
    rw [scorePairs, scorePairs, if_neg hts, if_neg hts, hpool]
    exact scorePass_congr h ..
  failed sessions' e h := by
    rw [scorePairs, if_neg hts, hpool]
    exact scorePass_of_failed h hcount ..

/-- **The dynamic pool scores a batch of any other size.** -/
theorem scoredOn_dynamic {cursor : ℕ} {ts : List (List UInt32)} (hts : ts ≠ [])
    (hpool : M.staticSessionPools ts.length = none) (hM : M.sessions ≠ 0) :
    ScoredOn M sessions .dynamic cursor ts where
  only sessions' h := by
    rw [scorePairs, scorePairs, if_neg hts, if_neg hts, hpool]
    exact scorePass_congr h ..
  failed sessions' e h := by
    rw [scorePairs, if_neg hts, hpool]
    exact scorePass_of_failed h hM ..

theorem ScoresAs.direct {scores : List F} {result : Except Failure (List F)}
    (h : ScoresAs M sessions scores result) (joinErr : String) :
    ScoresAs M sessions scores (directScores joinErr result) where
  same out hout := by
    match result, h with
    | .ok s, h => exact (Except.ok.inj hout).symm.trans (h.same s rfl)
    | .error (.err e), _ => cases hout
    | .error .panic, _ => cases hout
  ok hnever hM := by
    rw [h.ok hnever hM]
    rfl

/-- **All paths of a rerank request give the same scores in the same order**, one for each pair,
when the score of a row depends on its first `maxLen` tokens only. -/
theorem rerank_paths_agree (M : RerankerModel) (sessions : Sessions F) (encodeBatch : EncodeBatch)
    {score : List ℤ → F} (hlocal : sessions.Local score) :
    PathsAgree M sessions encodeBatch score where
  dynamic _ _ := ⟨fun _ => scorePairsDynamic_of_local hlocal,
    fun hnever hM => scorePairsDynamic_of_neverFail hlocal hnever hM⟩
  fixed _ _ _ hcount := ⟨fun _ => scorePairsStatic_of_local hlocal,
    fun hnever _ => scorePairsStatic_of_neverFail hlocal hnever hcount⟩
  routed _ _ := ⟨fun _ => scorePairs_of_local hlocal,
    fun hnever hM => scorePairs_of_neverFail hlocal hnever hM⟩
  fixedPool count cursor ts hts hpool :=
    ⟨by rw [scorePairs, if_neg hts, hpool], fun hcount => scoredOn_fixed hts hpool hcount⟩
  dynamicPool cursor ts hts hpool :=
    ⟨by rw [scorePairs, if_neg hts, hpool], fun hM => scoredOn_dynamic hts hpool hM⟩
  direct joinErr _ _ := ScoresAs.direct ⟨fun _ => scorePairs_of_local hlocal,
    fun hnever hM => scorePairs_of_neverFail hlocal hnever hM⟩ joinErr
  standalone cursor query documents ts htokens := by
    have hscore : standaloneScore M sessions encodeBatch cursor query documents =
        scorePairs M sessions cursor ts := by rw [standaloneScore, htokens]
    rw [hscore]
    exact ⟨fun _ => scorePairs_of_local hlocal,
      fun hnever hM => scorePairs_of_neverFail hlocal hnever hM⟩
  worker _ _ _ _ _ _ _ _ _ hP hs hC hi hphase hc hk :=
    worker_of_reachable hP hlocal hs hC hi hphase hc hk
  workerOk _ _ _ _ _ _ _ _ _ _ _ _ _ _ hP hnever hM hs hC htokens hi hd hphase hc hk :=
    worker_ok_of_reachable hP hlocal hnever hM hs hC htokens hi hd hphase hc hk
  batched _ _ _ _ hs := batched_of_reachable hlocal hs

/-- A model that scores two pairs on a static shape. -/
def sumModel : RerankerModel := ⟨3, 0, 2, fun batch => if batch = 2 then some 1 else none⟩

/-- Its sessions: the score of a row is the sum of the ids that the mask shows. -/
def sumSessions {F : Type} [IntCast F] : Sessions F := fun _ _ x =>
  .logits ⟨[(x.inputIds.rows, 1), (1, 1)], fun o =>
    ((List.zipWith (· * ·) (x.inputIds.row o.toNat) (x.attentionMask.row o.toNat)).sum : ℤ)⟩

theorem sum_zipWith_zeros (row : List ℤ) (m : ℕ) :
    (List.zipWith (· * ·) row (List.replicate m 0)).sum = 0 := by
  induction row generalizing m with
  | nil => rfl
  | cons a row ih =>
    cases m with
    | zero => rfl
    | succ m => simp [List.replicate_succ, ih]

theorem sum_zipWith_prefix (n m : ℕ) (row : List ℤ) :
    (List.zipWith (· * ·) row (List.replicate n 1 ++ List.replicate m 0)).sum =
      (row.take n).sum := by
  induction row generalizing n with
  | nil => simp
  | cons a row ih =>
    cases n with
    | zero => simpa using sum_zipWith_zeros (a :: row) m
    | succ n => simp [List.replicate_succ, ih n]

theorem sumSessions_local {F : Type} [IntCast F] :
    (sumSessions : Sessions F).Local fun row => ((row.sum : ℤ) : F) := by
  intro pool cursor x raw hsession _ i hi n hn hmask
  obtain rfl := Outcome.logits.inj hsession
  have hsum := sum_zipWith_prefix n ((x.attentionMask.row i).length - n) (x.inputIds.row i)
  rw [← hmask.2] at hsum
  simp [ArrayViewD.get?, ArrayViewD.axis0, hi, hsum]

theorem sumSessions_neverFail : (sumSessions : Sessions ℤ).NeverFail sumModel :=
  fun _ _ _ _ => ⟨_, rfl, rfl⟩

theorem sumModel_hasSessions : sumModel.HasSessions where
  dynamic := by decide
  fixed batch count h := by
    simp only [sumModel] at h
    split at h
    · rw [← Option.some.inj h]
      decide
    · cases h

/-- The adapter on these sessions, with the cursor at `0`. -/
def SumAdapted (s : Batcher.State (List ℤ)) (a : Batcher.Action (List ℤ)) : Prop :=
  match a, s.phase with
  | .embedDone (.ok vecs), .infer _ _ ids =>
    scorePairs sumModel sumSessions 0 ids = .ok vecs.flatten ∧
      vecs = vecs.flatten.map fun s => [s]
  | .embedDone _, _ => False
  | _, _ => True

instance (s : Batcher.State (List ℤ)) (a : Batcher.Action (List ℤ)) :
    Decidable (SumAdapted s a) := by
  unfold SumAdapted
  split <;> exact inferInstance

theorem adapted_of_sumAdapted {s : Batcher.State (List ℤ)} {a : Batcher.Action (List ℤ)}
    (h : SumAdapted s a) : Adapted sumModel sumSessions s a := by
  unfold SumAdapted at h
  unfold Adapted
  split at h
  next vecs _ _ ids hp =>
    rw [hp]
    refine ⟨0, ?_⟩
    rw [h.1]
    exact h.2
  · exact absurd h id
  next hnot _ =>
    split
    next o _ _ _ _ _ => exact absurd rfl (hnot o)
    · trivial

/-- Two requests with one pair each are coalesced into a batch that hits the static shape, which
neither would alone; both get the scores of the dynamic path. -/
theorem rerank_paths_agree_coalesced :
    ∃ s, (Batcher.machine (List ℤ) Batcher.pairConfig).Reachable (Adapted sumModel sumSessions) s ∧
      BatchedAgree sumModel sumSessions List.sum s ∧
      s.replies = [(0, .ok [[12]]), (1, .ok [[9]])] ∧
      scorePairsDynamic sumModel sumSessions 0 [[3, 4, 5, 6], [9]] = .ok [(12 : ℤ), 9] ∧
      directScores "" (scorePairs sumModel sumSessions 0 [[3, 4, 5, 6], [9]]) =
        .ok [(12 : ℤ), 9] ∧
      ScoredOn sumModel (sumSessions : Sessions ℤ) (.fixed 2) 0 [[3, 4, 5, 6], [9]] := by
  have hagree := rerank_paths_agree sumModel (sumSessions : Sessions ℤ) (fun _ => .ok [])
    sumSessions_local
  obtain ⟨s, hs, hreplies⟩ :
      ∃ s ∈ (Batcher.machine (List ℤ) Batcher.pairConfig).runUnder SumAdapted Batcher.start
        [.submit [[3, 4, 5, 6]], .submit [[9]], .trySend ⟨0, [[3, 4, 5, 6]], by decide⟩,
          .trySend ⟨1, [[9]], by decide⟩, .worker, .worker, .worker, .worker, .worker, .worker,
          .embedDone (.ok [[12], [9]]), .worker, .worker, .worker],
        s.replies = [(0, .ok [[12]]), (1, .ok [[9]])] := by
    decide +kernel
  have hreach : (Batcher.machine (List ℤ) Batcher.pairConfig).Reachable SumAdapted s :=
    .of_runUnder ⟨by decide, rfl⟩ hs
  have hadapted := hreach.strengthen fun _ _ _ _ ha _ => adapted_of_sumAdapted ha
  exact ⟨s, hadapted, hagree.batched ℚ Batcher.pairConfig s hadapted, hreplies,
    (hagree.dynamic 0 _).ok sumSessions_neverFail sumModel_hasSessions,
    (hagree.direct "" 0 _).ok sumSessions_neverFail sumModel_hasSessions,
    (hagree.fixedPool 1 0 [[3, 4, 5, 6], [9]] (by decide) (by decide)).2 one_ne_zero⟩

end OxEmbed.Reranker

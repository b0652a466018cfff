import OxEmbed.Batcher.Transparency
import OxEmbed.Embed.Subbatch
import OxEmbed.Embeddings.Transparency
import OxEmbed.Ipc.Replies

/-!
# The paths of an embeddings request

The texts that miss the cache are embedded by a worker process, through the batcher, which
coalesces them with those of other requests, or on the blocking pool. On each path they are
tokenized, cut into sub-batches, padded and pooled. The handler is composed with its backends: what
it receives from a worker and from the batcher is what these return in some reachable state of
their own machines.

A response with status 200 is then the one that the model gives for the texts alone, and its bill
counts each text that missed the cache once.

## Main definitions

* `Embedder` : a model with its tokenizer, and the vector of a text.
* `tokenize`, `infer` : the calls of `model.rs` that the paths make.
* `WorkerReturns`, `BatcherReturns`, `Computes`, `Backed` : the backends behind the handler.
* `Phase.Billed` : the texts that a request is billed for.
* `Embedded` : what the responses and the cache contain.

## Main results

* `Computes.vectors_eq` : every path gives each text its vector.
* `embedded_of_reachable` : the responses in every reachable state.
-/

namespace OxEmbed.Embeddings

open Embed Pooling Splice

variable {F W D Tid : Type}

/-! ### Embedding models -/

/-- An embedding model with its tokenizer. -/
structure Embedder (F W : Type) where
  arith : Arith F W
  model : EmbedModel F
  dims : UInt32
  encode : String → List UInt32
  encodeBatch : List String → Except String (List (List UInt32))
  /-- The hidden state at a position of a row, from the ids that the mask shows. -/
  hidden : List ℤ → ℕ → List F
  arith_lawful : arith.Lawful
  maxLen_pos : 1 ≤ model.maxLen
  /-- The tokenizer gives one encoding for each text, whatever the others of the batch are. -/
  perText : ∀ texts rows, encodeBatch texts = .ok rows → rows = texts.map encode

namespace Embedder

variable (E : Embedder F W)

/-- `EmbedModel::tokenize`. -/
def tokenize (texts : List String) : Except String (List (List UInt32)) :=
  if texts.isEmpty then .ok []
  else
    match E.encodeBatch texts with
    | .error e => .error s!"tokenize: {e}"
    | .ok encodings => .ok (encodings.map fun ids => ids.take (min ids.length E.model.maxLen))

/-- `EmbedModel::embed_tokens` on a session of the pool. -/
def embed (session : Session F) (tokenIds : List (List UInt32)) : Except Failure (List (List F)) :=
  embedTokens E.arith E.model session tokenIds

/-- `StandaloneEmbedder::infer`. It does not use the length that the request asks for. -/
def infer (session : Session F) (texts : List String) (_maxSeqLen : UInt32) :
    Except Failure (List (List F) × UInt32) :=
  match E.tokenize texts with
  | .error e => .error (.err e)
  | .ok ids =>
    match E.embed session ids with
    | .error e => .error e
    | .ok vecs => .ok (vecs, E.dims)

/-- The ids of a text. -/
def ids (text : String) : List UInt32 := (E.encode text).take E.model.maxLen

/-- The vector of a sequence of ids. -/
def tokenVector (tokens : List UInt32) : List F :=
  localVector E.arith E.model E.hidden (tokens.take E.model.maxLen)

/-- The vector of a text. -/
def vector (text : String) : List F := E.tokenVector (E.ids text)

/-- The tokens billed for a text: an estimate where a worker tokenizes it. -/
def bill (workerPool : Bool) (text : String) : ℕ :=
  if workerPool then estimateTokens text else (E.ids text).length

variable {E} {session : Session F} {texts : List String} {rows : List (List UInt32)}
  {vectors : List (List F)}

theorem tokenize_ok (h : E.tokenize texts = .ok rows) : rows = texts.map E.ids := by
  rw [tokenize] at h
  split at h
  next hempty =>
    rw [List.isEmpty_iff.1 hempty, ← Except.ok.inj h]
    rfl
  · split at h
    · cases h
    next encodings hencode =>
      have hids (tokens : List UInt32) : tokens.take (min tokens.length E.model.maxLen) =
          tokens.take E.model.maxLen := by
        rw [List.take_eq_take_iff]
        omega
      rw [← Except.ok.inj h, E.perText texts encodings hencode, List.map_map]
      simp only [Function.comp_def, hids]
      rfl

/-- On a local session `embed_tokens` gives each sequence its vector. -/
theorem embed_ok (hlocal : session.Local E.model E.hidden)
    (h : E.embed session rows = .ok vectors) : vectors = rows.map E.tokenVector := by
  refine embedTokensWith_eq (fun pass ts out hout => ?_) h
  exact onePass_of_local E.arith_lawful E.maxLen_pos hlocal hout

theorem map_tokenVector (texts : List String) :
    (texts.map E.ids).map E.tokenVector = texts.map E.vector :=
  List.map_map

theorem sum_length_ids (texts : List String) :
    ((texts.map E.ids).map List.length).sum = (texts.map (E.bill false)).sum := by
  rw [List.map_map]
  rfl

theorem infer_ok (hlocal : session.Local E.model E.hidden) {maxSeqLen dims : UInt32}
    (h : E.infer session texts maxSeqLen = .ok (vectors, dims)) :
    vectors = texts.map E.vector ∧ dims = E.dims := by
  rw [infer] at h
  split at h
  · cases h
  next rows hrows =>
    split at h
    · cases h
    next vecs hvecs =>
      obtain ⟨rfl, rfl⟩ := Prod.mk.inj (Except.ok.inj h)
      rw [embed_ok hlocal hvecs, tokenize_ok hrows, map_tokenVector]
      exact ⟨rfl, rfl⟩

end Embedder

/-! ### The backends -/

/-- The embedder that a worker has loaded, with the session of one call. A call that panics ends
the blocking task with a join error, so its reply is not read from here. -/
def embedderModel (E : Embedder F W) (session : Session F) : Ipc.LoadedModel F :=
  .embed fun texts maxSeqLen =>
    match E.infer session texts maxSeqLen with
    | .ok reply => .ok reply
    | .error (.err e) => .error e
    | .error .panic => .error ""

/-- A model is the embedder with a session of its pool. -/
def IsEmbedder (E : Embedder F W) (m : Ipc.LoadedModel F) : Prop :=
  ∃ session : Session F, session.Local E.model E.hidden ∧ m = embedderModel E session

/-- A worker that has loaded the embedder returns these vectors, in some run of the socket
protocol. -/
def WorkerReturns (E : Embedder F W) (model : String) (texts : List String)
    (vectors : List (List F)) : Prop :=
  ∃ P : Ipc.Postcard F, P.Lawful ∧ ∃ s w i c call k maxSeqLen ok,
    (Ipc.machine P).Reachable (Ipc.Runs (IsEmbedder E) w) s ∧ s.calls i = some call ∧
      call.dispatch = .embed model texts maxSeqLen ∧
      call.phase = .returned (some c) (.ok (.embed ok)) ∧ s.conns c = some k ∧ k.worker = w ∧
      ok.vectors = vectors

/-- How the embed task of the batcher ends, from the result of `embed_tokens` on the batch. -/
def Ends : Except Failure (List (List F)) → Batcher.EmbedOutcome (List F) → Prop
  | .ok vectors, .ok vecs => vecs = vectors
  | .error (.err e), .err msg => msg = e
  | .error .panic, .panic _ => True
  | _, _ => False

/-- The batcher of a model runs `embed_tokens`. -/
def RunsEmbed (E : Embedder F W) (s : Batcher.State (List F)) (a : Batcher.Action (List F)) :
    Prop :=
  match a, s.phase with
  | .embedDone o, .infer _ _ rows =>
    ∃ session : Session F, session.Local E.model E.hidden ∧ Ends (E.embed session rows) o
  | _, _ => True

/-- A batcher of the model returns these vectors to a call with these sequences, in some run in
which it coalesces the call with others. -/
def BatcherReturns (E : Embedder F W) (rows : List (List UInt32)) (v : List (List F)) : Prop :=
  ∃ (R : Type) (_ : Batcher.RatioArith R) (cfg : Batcher.BatcherConfig R)
    (s : Batcher.State (List F)) (item : Batcher.Item),
    (Batcher.machine (List F) cfg).Reachable (RunsEmbed E) s ∧ item ∈ s.accepted ∧
      item.tokenIds = rows ∧ (item.reply, .ok v) ∈ s.replies

/-- How inference on the texts that missed ends, when it returns vectors. -/
def Computes (E : Embedder F W) (model : String) (texts : List String) :
    Backend (List F) → Prop
  | .worker (.embed vectors) => WorkerReturns E model texts vectors
  | .batcher tokens (.ok vectors) => ∃ rows, E.tokenize texts = .ok rows ∧
      tokens = (rows.map List.length).sum ∧ BatcherReturns E rows vectors
  | .legacy tokens (.ok vectors) => ∃ rows, E.tokenize texts = .ok rows ∧
      tokens = (rows.map List.length).sum ∧ ∃ session : Session F,
        session.Local E.model E.hidden ∧ E.embed session rows = .ok vectors
  | _ => True

/-- The backends of the handler run the models. -/
def Backed (app : AppState) (E : String → Embedder F W) (s : State D (List F) Tid)
    (a : Action D (List F) Tid) : Prop :=
  match a with
  | .backend t b => ∀ req entry cached pending pendingTexts,
      s.phase t = .infer req entry cached pending pendingTexts →
      Computes (E (req.modelName app)) (req.modelName app) pendingTexts b
  | _ => True

section Backends

variable {E : Embedder F W} {model : String} {texts : List String} {rows : List (List UInt32)}
  {vectors v : List (List F)}

/-- A worker gives each text its vector. -/
theorem WorkerReturns.vectors_eq (h : WorkerReturns E model texts vectors) :
    vectors = texts.map E.vector := by
  obtain ⟨P, hP, s, w, i, c, call, k, maxSeqLen, ok, hs, hi, hdispatch, hphase, hc, hk, rfl⟩ := h
  obtain ⟨hreply, -⟩ := Ipc.reply_of_returned hP hs (fun _ _ h => h) hi hphase hc hk
  rcases hreply with ⟨id, message, herr⟩ | ⟨m, ⟨session, hlocal, rfl⟩, hresp⟩
  · cases herr
  rw [Ipc.Call.request, hdispatch, Ipc.Dispatch.request, embedderModel,
    Ipc.LoadedModel.respond] at hresp
  cases hinfer : E.infer session texts maxSeqLen with
  | ok reply =>
    obtain ⟨vectors, dims⟩ := reply
    simp only [hinfer] at hresp
    rw [Ipc.WorkerResponse.embed.inj hresp, (Embedder.infer_ok hlocal hinfer).1]
  | error failure =>
    cases failure <;> simp [hinfer] at hresp

/-- The embed function of the batcher maps every sequence to its vector. -/
theorem pointwise_of_runsEmbed {s : Batcher.State (List F)} {a : Batcher.Action (List F)}
    (h : RunsEmbed E s a) : Batcher.Pointwise E.tokenVector s a := by
  unfold Batcher.Pointwise
  split
  next vecs counts replies rows hp =>
    obtain ⟨session, hlocal, hends⟩ : ∃ session : Session F,
        session.Local E.model E.hidden ∧ Ends (E.embed session rows) (.ok vecs) := by
      simpa only [RunsEmbed, hp] using h
    cases hembed : E.embed session rows with
    | ok vectors =>
      rw [hembed] at hends
      obtain rfl : vecs = vectors := hends
      exact fun _ => Embedder.embed_ok hlocal hembed
    | error failure =>
      rw [hembed] at hends
      cases failure <;> exact hends.elim
  · trivial

/-- A call of the batcher that receives vectors receives those of its own sequences. -/
theorem reply_eq_of_reachable {R V : Type} [Batcher.RatioArith R] {cfg : Batcher.BatcherConfig R}
    {g : List UInt32 → V} {s : Batcher.State V}
    (hs : (Batcher.machine V cfg).Reachable (Batcher.Pointwise g) s) {item : Batcher.Item}
    (hi : item ∈ s.accepted) {v : List V} (hreply : (item.reply, .ok v) ∈ s.replies) :
    v = item.tokenIds.map g := by
  obtain ⟨done, hdone, hsub, -⟩ := (Batcher.delivery_of_reachable hs).sent
  have hmem : (item.reply, .ok v) ∈ s.endedAnswers g :=
    hdone ▸ List.mem_append_left _ (hsub.subset hreply)
  obtain ⟨⟨kept, o⟩, hended, hanswers⟩ := List.mem_flatMap.1 hmem
  obtain ⟨item', hi', heq⟩ := List.mem_map.1 hanswers
  obtain ⟨hchannel, hanswer⟩ := Prod.mk.inj heq
  -- the calls have different numbers, so the one that was dispatched is this one
  have haccepted : item' ∈ s.accepted := by
    have hperm := (Batcher.fifo_conserved hs).perm
    have hdispatched := List.mem_flatten.2 ⟨kept, (List.of_mem_zip hended).1, hi'⟩
    simp only [Batcher.State.fifo] at hperm
    exact hperm.subset (by simp [hdispatched])
  have hnodup := (Batcher.numbered_of_reachable hs).nodup_accepted
  obtain rfl := List.inj_on_of_nodup_map hnodup haccepted hi hchannel
  cases o with
  | ok vecs =>
    rw [Batcher.answer] at hanswer
    split at hanswer
    · cases hanswer
    · exact (Batcher.Reply.ok.inj hanswer).symm
  | err msg | panic e => cases hanswer

theorem BatcherReturns.vectors_eq (h : BatcherReturns E rows v) : v = rows.map E.tokenVector := by
  obtain ⟨R, _, cfg, s, item, hs, hi, rfl, hreply⟩ := h
  exact reply_eq_of_reachable (hs.strengthen fun _ _ _ _ ha _ => pointwise_of_runsEmbed ha) hi
    hreply

/-- **Every path gives each text its vector**, and bills each text once. -/
theorem Computes.vectors_eq {app : AppState} {entry : ModelEntry} {b : Backend (List F)}
    (h : Computes E model texts b) (hb : b.Allowed app entry = true) {totalTokens : ℕ}
    (hresult : b.result texts = .ok (vectors, totalTokens)) :
    vectors = texts.map E.vector ∧ totalTokens = (texts.map (E.bill app.workerPool)).sum := by
  have htokens {rows : List (List UInt32)} (hrows : E.tokenize texts = .ok rows)
      (hpool : app.workerPool = false) :
      (rows.map List.length).sum = (texts.map (E.bill app.workerPool)).sum := by
    rw [Embedder.tokenize_ok hrows, Embedder.sum_length_ids, hpool]
  cases b with
  | worker o =>
    have hpool : app.workerPool = true := hb
    cases o with
    | embed vectors' =>
      obtain ⟨rfl, rfl⟩ := Prod.mk.inj (Except.ok.inj hresult)
      rw [hpool]
      exact ⟨WorkerReturns.vectors_eq h, rfl⟩
    | _ => cases hresult
  | batcher tokens r =>
    simp only [Backend.Allowed, Bool.and_eq_true, Bool.not_eq_true'] at hb
    cases r with
    | ok v =>
      obtain ⟨rfl, rfl⟩ := Prod.mk.inj (Except.ok.inj hresult)
      obtain ⟨rows, hrows, rfl, hreturns⟩ := h
      refine ⟨?_, htokens hrows hb.1⟩
      rw [hreturns.vectors_eq, Embedder.tokenize_ok hrows, Embedder.map_tokenVector]
    | error e => cases e <;> cases hresult
  | legacy tokens o =>
    simp only [Backend.Allowed, Bool.and_eq_true, Bool.not_eq_true'] at hb
    cases o with
    | ok v =>
      obtain ⟨rfl, rfl⟩ := Prod.mk.inj (Except.ok.inj hresult)
      obtain ⟨rows, hrows, rfl, session, hlocal, hembed⟩ := h
      refine ⟨?_, htokens hrows hb.1⟩
      rw [Embedder.embed_ok hlocal hembed, Embedder.tokenize_ok hrows, Embedder.map_tokenVector]
    | _ => cases hresult
  | _ => cases hresult

end Backends

/-! ### The bill -/

/-- The texts that are billed: each text of the request at most once. -/
structure Missed (req : EmbedRequest) (texts : List String) : Prop where
  nodup : texts.Nodup
  subset : texts ⊆ req.texts

/-- The texts of a request that missed the cache are in its groups, and then in its bill. -/
def Phase.Billed {V : Type} (app : AppState) (bill : String → String → ℕ) : Phase V → Prop
  | .partition req _ _ _ pending => Missed req (pending.map Prod.fst)
  | .infer req _ _ _ pendingTexts => Missed req pendingTexts
  | .scatter req _ _ _ totalTokens => ∃ missed, Missed req missed ∧
      totalTokens = (missed.map (bill (req.modelName app))).sum
  | .responded req (.ok r) => ∃ missed, Missed req missed ∧
      r.usage = ⟨(missed.map (bill (req.modelName app))).sum,
        (missed.map (bill (req.modelName app))).sum⟩
  | .idle | .responded _ (.error _) | .abandoned | .panicked _ => True

section Bill

variable {V : Type} {ext : Externals D V} {app : AppState} {bill : String → String → ℕ}

theorem Missed.nil (req : EmbedRequest) : Missed req [] :=
  ⟨List.nodup_nil, List.nil_subset _⟩

/-- A text that misses joins the keys of the groups, unless it is there. -/
theorem Missed.push {req : EmbedRequest} {k : ℕ} {text : String}
    {pending : List (String × List ℕ)} (h : Missed req (pending.map Prod.fst))
    (ht : req.texts[k]? = some text) : Missed req ((push text k pending).map Prod.fst) := by
  refine ⟨nodup_keys_push h.nodup, ?_⟩
  rw [keys_push]
  split
  · exact h.subset
  · exact List.append_subset.2 ⟨h.subset, by simpa using List.mem_of_getElem? ht⟩

theorem Missed.perm {req : EmbedRequest} {texts texts' : List String} (h : Missed req texts)
    (hperm : texts'.Perm texts) : Missed req texts' :=
  ⟨hperm.nodup_iff.2 h.nodup, fun _ ht => h.subset (hperm.subset ht)⟩

/-- The response carries the bill. -/
theorem billed_respond {req : EmbedRequest} {missed : List String} (h : Missed req missed)
    (cached : List (Option V)) (bug : String) {totalTokens : ℕ}
    (htotal : totalTokens = (missed.map (bill (req.modelName app))).sum) :
    (respond ext app req cached totalTokens bug).Billed app bill := by
  rw [respond]
  split
  · exact ⟨missed, h, htotal ▸ rfl⟩
  · trivial

variable [DecidableEq Tid] [DecidableEq D] {s s' : State D V Tid} {a : Action D V Tid}

/-- A backend that ends inference is one that the model has. -/
theorem allowed_of_step {t : Tid} {b : Backend V}
    (h : Embeddings.step ext app s (.backend t b) = some s') {req : EmbedRequest}
    {entry : ModelEntry} {cached : List (Option V)} {pending : List (String × List ℕ)}
    {pendingTexts : List String} (hp : s.phase t = .infer req entry cached pending pendingTexts) :
    b.Allowed app entry = true := by
  simp only [Embeddings.step, hp] at h
  split at h
  · assumption
  · cases h

/-- Inference bills the texts that it is given. -/
def Bills (app : AppState) (bill : String → String → ℕ) (s : State D V Tid)
    (a : Action D V Tid) : Prop :=
  ∀ t b, a = .backend t b → ∀ req entry cached pending pendingTexts vectors totalTokens,
    s.phase t = .infer req entry cached pending pendingTexts → b.Allowed app entry = true →
    b.result pendingTexts = .ok (vectors, totalTokens) →
    totalTokens = (pendingTexts.map (bill (req.modelName app))).sum

/-- **Step lemma.** A handler bills the texts that missed. -/
theorem billed_of_step (h : ∀ t, (s.phase t).Billed app bill) (hbills : Bills app bill s a)
    (hstep : Embeddings.step ext app s a = some s') (t : Tid) : (s'.phase t).Billed app bill := by
  have hbilled {t : Tid} {p : Phase V} (hp : s.phase t = p) : p.Billed app bill := hp ▸ h t
  have hset {t' : Tid} {p : Phase V} (hp : p.Billed app bill) :
      (Function.update s.phase t' p t).Billed app bill := by
    rw [Function.update_apply]
    split
    · exact hp
    · exact h t
  cases trans_of_step hstep with
  | refuse | notLoaded | failed | unknownKey | abandon => exact hset trivial
  | probe => exact hset (Missed.nil _)
  | hit hp =>
    have hmissed := hbilled hp
    exact hset hmissed
  | miss hp ht => exact hset (Missed.push (hbilled hp) ht)
  | allHits => exact hset (billed_respond (Missed.nil _) _ _ rfl)
  | infer hp hk hperm => exact hset (Missed.perm (hbilled hp) hperm)
  | @inferred t' req entry cached pending pendingTexts b vectors totalTokens hp hb =>
    have htotal := hbills t' b rfl _ _ _ _ _ _ _ hp (allowed_of_step hstep hp) hb
    refine hset ?_
    rw [afterInference]
    split
    · trivial
    · exact ⟨pendingTexts, hbilled hp, htotal⟩
  | insert hp =>
    have hmissed := hbilled hp
    exact hset hmissed
  | finish hp =>
    obtain ⟨missed, hmissed, htotal⟩ := hbilled hp
    exact hset (billed_respond hmissed _ _ htotal)
  | evict | shutdown => exact h t

theorem billed_of_reachable (hs : (machine Tid ext app).Reachable (Bills app bill) s) (t : Tid) :
    (s.phase t).Billed app bill := by
  refine hs.invariant (P := fun s => ∀ t, (s.phase t).Billed app bill) ?_
    (fun s a s' h hbills hstep => billed_of_step h hbills hstep) t
  rintro _ rfl
  exact fun _ => trivial

end Bill

/-! ### What the responses contain -/

/-- What the responses and the cache contain. -/
structure Embedded (ext : Externals D (List F)) (app : AppState) (E : String → Embedder F W)
    (s : State D (List F) Tid) : Prop where
  /-- A response with status 200 is the one that the model gives for the texts alone, billed for
  each text at most once. -/
  responses : ∀ t req r, s.phase t = .responded req (.ok r) → ∃ missed, Missed req missed ∧
    .ok r = okResponse ext app req (req.texts.map (E (req.modelName app)).vector)
      (missed.map ((E (req.modelName app)).bill app.workerPool)).sum
  /-- What a request finds in the cache is the vector of its text. -/
  cached : ∀ (req : EmbedRequest) text v, PlainName (req.modelName app) →
    s.cache.get ext.hashText (req.cacheKey app) text = some v →
      v = (E (req.modelName app)).vector text
  /-- A handler panics only when it needs a session that is not loaded. -/
  panics : ∀ t msg, s.phase t = .panicked msg → msg = notLoaded

variable [DecidableEq Tid] [DecidableEq D] {ext : Externals D (List F)} {app : AppState}
  {E : String → Embedder F W} {s : State D (List F) Tid}

/-- With these backends inference is a function of the model and the text. -/
theorem deterministic_of_backed (hs : (machine Tid ext app).Reachable (Backed app E) s) :
    (machine Tid ext app).Reachable (Deterministic app fun model => (E model).vector) s := by
  refine hs.strengthen fun s a s' _ hbacked hstep => ?_
  unfold Deterministic
  split
  next t b =>
    split
    next req entry cached pending pendingTexts hp =>
      split
      next vectors totalTokens hb =>
        have hmove : Embeddings.step ext app s (.backend t b) = some s' := hstep
        intro _
        exact ((hbacked _ _ _ _ _ hp).vectors_eq (allowed_of_step hmove hp) hb).1
      · trivial
    · trivial
  · trivial

theorem bills_of_backed (hs : (machine Tid ext app).Reachable (Backed app E) s) :
    (machine Tid ext app).Reachable
      (Bills app fun model => (E model).bill app.workerPool) s := by
  refine hs.strengthen fun s a s' _ hbacked _ => ?_
  rintro t b rfl req entry cached pending pendingTexts vectors totalTokens hp hallowed hb
  exact ((hbacked _ _ _ _ _ hp).vectors_eq hallowed hb).2

/-- **Every response of the embeddings endpoint with status 200 is the one that its model gives for
its texts**, in every interleaving of the requests, whatever is cached or evicted, through a
worker, through a batcher or in process. -/
theorem embedded_of_reachable (hash : Function.Injective ext.hashText)
    (hplain : ∀ p ∈ app.models, PlainName p.1)
    (hs : (machine Tid ext app).Reachable (Backed app E) s) : Embedded ext app E s := by
  have h := inv_of_reachable hash hplain hs
  have hcomputed {req : EmbedRequest} {text : String} {v : List F}
      (hv : Computed app s.computed req text v) : v = (E (req.modelName app)).vector text :=
    computed_eq (deterministic_of_backed hs) _ hv
  refine ⟨fun t req r hp => ?_, fun req text v hname hv => ?_, fun t msg hp => ?_⟩
  · have hok := h.phase t
    have hbilled := billed_of_reachable (bills_of_backed hs) t
    rw [hp] at hok hbilled
    obtain ⟨vectors, totalTokens, hr, hall⟩ := hok
    obtain ⟨missed, hmissed, husage⟩ := hbilled
    have hvectors : vectors = req.texts.map (E (req.modelName app)).vector :=
      (List.forall₂_eq_eq_eq ▸ List.forall₂_map_left_iff.2
        (hall.imp fun text v hv => (hcomputed hv).symm)).symm
    have htotal : totalTokens =
        (missed.map ((E (req.modelName app)).bill app.workerPool)).sum := by
      rw [Response.ok.inj hr] at husage
      exact (Usage.mk.inj husage).1
    exact ⟨missed, hmissed, by rw [hr, hvectors, htotal]⟩
  · exact hcomputed (h.cache.computed hash hname hv)
  · have hok := h.phase t
    rwa [hp] at hok

/-! ### Two requests that share a text -/

/-- A model with two dimensions, one for even ids and one for odd ids. -/
def parityModel : EmbedModel ℚ := ⟨4, 0, true, 2, 2⟩

/-- The hidden state of an id. -/
def parity (id : ℤ) : List ℚ := [if id % 2 = 0 then 1 else 0, if id % 2 = 1 then 1 else 0]

/-- Its session: the hidden states lie one after another. -/
def paritySession : Session ℚ := fun _ x =>
  .hidden ⟨[(x.inputIds.rows, 2 * x.inputIds.cols), (x.inputIds.cols, 2), (2, 1)],
    fun o => (parity (x.inputIds.data.getD (o / 2).toNat 0)).getD (o % 2).toNat 0⟩

theorem paritySession_local :
    paritySession.Local parityModel fun ids j => parity (ids.getD j 0) := by
  intro pass x raw hsession
  obtain rfl := Outcome.hidden.inj hsession
  refine ⟨rfl, fun i hi n hn _ j hj => ?_⟩
  have hjcols : j < x.inputIds.cols := Nat.lt_of_lt_of_le hj hn
  have hmul : (i : ℤ) * (2 * x.inputIds.cols) = 2 * ((i * x.inputIds.cols : ℕ) : ℤ) := by
    rw [Nat.cast_mul, mul_left_comm]
  have hword (d : ℕ) (hd : d < 2) :
      (((i : ℤ) * (2 * x.inputIds.cols) + (j * 2 + d)) / 2).toNat = i * x.inputIds.cols + j ∧
        (((i : ℤ) * (2 * x.inputIds.cols) + (j * 2 + d)) % 2).toNat = d := by
    rw [hmul]
    omega
  have hrow : ((x.inputIds.row i).take n)[j]? = x.inputIds.data[i * x.inputIds.cols + j]? := by
    rw [List.getElem?_take, if_pos hj, Array2.getElem?_row, if_pos hjcols]
  have h₀ := hword 0 (by omega)
  have h₁ := hword 1 (by omega)
  have heven : ((i : ℤ) * (2 * x.inputIds.cols) % 2).toNat = 0 := by
    rw [hmul]
    omega
  simp only [Nat.cast_zero, add_zero] at h₀
  simp only [Nat.cast_one] at h₁
  simp [hiddenState, ArrayViewD.axis0, ArrayViewD.iter, ArrayViewD.shape, ArrayViewD.get?, hi,
    hjcols, List.range_succ, List.getD_eq_getElem?_getD, hrow, heven, h₀, h₁, parity]

/-- The embedder of this model: the ids of a text are its characters. -/
def parityEmbedder : Embedder ℚ ℚ where
  arith := exactArith
  model := parityModel
  dims := 2
  encode text := text.toList.map Char.val
  encodeBatch texts := .ok (texts.map fun text => text.toList.map Char.val)
  hidden ids j := parity (ids.getD j 0)
  arith_lawful := exactArith_lawful
  maxLen_pos := Nat.le_of_ble_eq_true rfl
  perText _ _ h := (Except.ok.inj h).symm

/-- One model in process without a batcher, and a cache of eight entries. -/
def poolApp : AppState := ⟨[("e5", ⟨true, false⟩)], "e5", 32, false, 8⟩

/-- Texts stand for their hashes, and no vector is encoded. -/
def textExternals : Externals String (List ℚ) := ⟨id, fun _ => ""⟩

/-- Inference runs on the blocking pool. -/
def onPool (s : State String (List ℚ) ℕ) : Action String (List ℚ) ℕ → Bool
  | .backend t (.legacy tokens (.ok vectors)) =>
    match s.phase t with
    | .infer _ _ _ _ pendingTexts =>
      match parityEmbedder.tokenize pendingTexts with
      | .ok rows => tokens = (rows.map List.length).sum ∧
          parityEmbedder.embed paritySession rows = .ok vectors
      | .error _ => false
    | _ => false
  | .backend .. => false
  | _ => true

theorem backed_of_onPool {s : State String (List ℚ) ℕ} {a : Action String (List ℚ) ℕ}
    (h : onPool s a = true) : Backed poolApp (fun _ => parityEmbedder) s a := by
  cases a with
  | backend t b =>
    intro req entry cached pending pendingTexts hp
    cases b with
    | legacy tokens o =>
      cases o with
      | ok vectors =>
        simp only [onPool, hp] at h
        split at h
        next rows hrows =>
          obtain ⟨htokens, hembed⟩ := of_decide_eq_true h
          exact ⟨rows, hrows, htokens, paritySession, paritySession_local, hembed⟩
        · cases h
      | _ => trivial
    | _ => cases h
  | _ => trivial

/-- A request with a duplicate, and one that finds its first text in the cache. -/
theorem embedded_sharedText :
    ∃ s, (machine ℕ textExternals poolApp).Reachable (Backed poolApp fun _ => parityEmbedder) s ∧
      s.phase 0 = .responded ⟨.batch ["a", "bd", "a"], none, none, none⟩ (okResponse textExternals
        poolApp ⟨.batch ["a", "bd", "a"], none, none, none⟩ [[0, 1], [1, 0], [0, 1]] 3) ∧
      s.phase 1 = .responded ⟨.batch ["a", "b"], none, none, none⟩ (okResponse textExternals
        poolApp ⟨.batch ["a", "b"], none, none, none⟩ [[0, 1], [1, 0]] 1) ∧
      Embedded textExternals poolApp (fun _ => parityEmbedder) s := by
  obtain ⟨s, hs, h₀, h₁⟩ :
      ∃ s ∈ (machine ℕ textExternals poolApp).runUnder (fun s a => onPool s a = true)
        ⟨.new 8, false, fun _ => .idle, [], []⟩
        [.begin 0 ⟨.batch ["a", "bd", "a"], none, none, none⟩, .advance 0, .advance 0, .advance 0,
          .startInference 0 ["bd", "a"], .backend 0 (.legacy 3 (.ok [[1, 0], [0, 1]])),
          .advance 0, .advance 0, .begin 1 ⟨.batch ["a", "b"], none, none, none⟩, .advance 0,
          .advance 1, .advance 1, .startInference 1 ["b"], .backend 1 (.legacy 1 (.ok [[1, 0]])),
          .advance 1, .advance 1],
        s.phase 0 = .responded ⟨.batch ["a", "bd", "a"], none, none, none⟩ (okResponse
            textExternals poolApp ⟨.batch ["a", "bd", "a"], none, none, none⟩
            [[0, 1], [1, 0], [0, 1]] 3) ∧
          s.phase 1 = .responded ⟨.batch ["a", "b"], none, none, none⟩ (okResponse textExternals
            poolApp ⟨.batch ["a", "b"], none, none, none⟩ [[0, 1], [1, 0]] 1) := by
    decide +kernel
  have hreach := (Machine.Reachable.of_runUnder rfl hs).strengthen
    fun _ _ _ _ h _ => backed_of_onPool h
  exact ⟨s, hreach, h₀, h₁, embedded_of_reachable Function.injective_id (by decide) hreach⟩

end OxEmbed.Embeddings

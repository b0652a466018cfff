import OxEmbed.Embeddings.Handler
import OxEmbed.Library.Holes
import OxEmbed.Rerank.Output
import OxEmbed.Rerank.Tokenize
import OxEmbed.Reranker.Paths

/-!
# The rerank handler

The handler of `POST /v1/rerank` in `api_rerank.rs`. Any number of requests are handled at the same
time. A request takes a permit of the semaphore, if there is one, and holds it to its end; it is
checked, its model is resolved, and it is counted in the gauge of the model; between the test of
the shutdown flag, the checks and the count other requests take their steps, and the flag may be
set. In multi-process mode
the worker pool scores it; in process its pairs are tokenized through the token cache, and the
batcher or a blocking task scores them. Every look-up in the cache and every insert is one step, so
that other requests, and evictions, come in between; what the tokenizer and the backends return
are choices of the schedule. A client that goes away ends its request at the next point where the
handler waits.

## Main definitions

* `AppState`, `RerankRequest`, `Response` : the data of the handler.
* `resolveRerankerName`, `validate` : the checks.
* `WorkerOutcome`, `TokenizeOutcome`, `Inference` : how the waits of the handler end.
* `Phase`, `State`, `step`, `machine` : the handler as a machine.
* `Trans` : what a step can do, one constructor for each branch of the source.

## Main results

* `trans_of_step` : every step is one of the transitions `Trans`.
-/

namespace OxEmbed.Rerank

open Embeddings (HttpError errorJson serverError)
open Holes Reranker

/-! ### Requests and responses -/

/-- The entry of a reranker: whether a session is loaded in process, and whether it has a
batcher. -/
structure RerankerEntry where
  model : Bool
  batcher : Bool
  deriving DecidableEq, Repr

/-- The parts of the shared state that the handler reads. -/
structure AppState where
  rerankers : List (String × RerankerEntry)
  /-- `rerankers` is a map. -/
  nodup : (rerankers.map Prod.fst).Nodup
  rerankMaxInputDocs : ℕ
  /-- Whether there is a worker pool. -/
  workerPool : Bool
  /-- The permits of `rerank_semaphore`, when there is one. -/
  rerankSemaphore : Option ℕ
  /-- The capacity of the token cache. -/
  tokenCacheMaxEntries : ℕ

/-- What the handler uses from other packages. -/
structure Externals (D F : Type) where
  /-- SHA-256 of the bytes of a pair. -/
  sha256 : ByteArray → D
  exp : F → F

inductive RerankDocument
  | text (s : String)
  | object (text : String)
  deriving DecidableEq, Repr

def RerankDocument.intoText : RerankDocument → String
  | .text s => s
  | .object s => s

structure RerankRequest where
  model : Option String
  query : String
  documents : List RerankDocument
  topN : Option ℕ
  returnDocuments : Bool
  normalize : Option NormalizeMode
  deriving DecidableEq, Repr

def RerankRequest.texts (req : RerankRequest) : List String :=
  req.documents.map RerankDocument.intoText

structure RerankResponse (F : Type) where
  id : String
  model : String
  results : List (RerankResult F)
  deriving DecidableEq

inductive Response (F : Type)
  | ok (r : RerankResponse F)
  | error (e : HttpError)
  deriving DecidableEq

/-- `rate_limited_response`. -/
def rateLimited (message : String) : HttpError := ⟨429, some "1", .detail message "rate_limited"⟩

/-- The response to a request that finds no permit. -/
def capReached : HttpError := rateLimited "rerank concurrency cap reached"

/-- `opaque_request_id`, at a number of nanoseconds since the epoch. -/
def opaqueRequestId (nanos : ℕ) : String := "rrk_" ++ String.ofList (Nat.toDigits 16 nanos)

/-! ### The checks -/

/-- `resolve_reranker_name`. -/
def resolveRerankerName (app : AppState) : Option String → Except String String
  | some name =>
    if (app.rerankers.lookup name).isSome then .ok name
    else .error s!"reranker '{name}' not found"
  | none =>
    match app.rerankers with
    | [] => .error "no reranker models configured"
    | [(name, _)] => .ok name
    | _ => .error "`model` is required when multiple rerankers are configured"

/-- The response of the shutdown gate. -/
def shuttingDown : HttpError := ⟨503, some "5", .detail "server shutting down" "rate_limited"⟩

/-- The checks between the shutdown gate and the gauge; they give the name of the model. -/
def validate (app : AppState) (req : RerankRequest) : Except HttpError String :=
  if Text.isBlank req.query then .error (errorJson "query must not be empty")
  else if req.documents.isEmpty then .error (errorJson "documents must not be empty")
  else if req.documents.length > app.rerankMaxInputDocs then
    .error ⟨400, none, .inputArrayTooLarge "invalid_request_error" "documents_too_many"
      (s!"documents array contains {req.documents.length} items, server cap is " ++
        s!"{app.rerankMaxInputDocs}; split into multiple requests")
      app.rerankMaxInputDocs req.documents.length⟩
  else
    match resolveRerankerName app req.model with
    | .error msg => .error (errorJson msg)
    | .ok name => .ok name

/-! ### The waits -/

/-- How the dispatch to a worker ends. -/
inductive WorkerOutcome (F : Type)
  | rerank (scores : List F)
  /-- The worker replied with an error. -/
  | err
  /-- The worker replied with a response of another kind. -/
  | unexpected
  | timeout
  /-- Any other `DispatchError`. -/
  | failed
  deriving DecidableEq

def WorkerOutcome.result {F : Type} : WorkerOutcome F → Except HttpError (List F)
  | .rerank scores => .ok scores
  | .err => .error (serverError "rerank failed")
  | .unexpected => .error (serverError "rerank failed: unexpected response kind")
  | .timeout =>
    .error ⟨503, some "5", .detail "rerank failed: worker respawning" "worker_unavailable"⟩
  | .failed => .error (serverError "rerank failed")

/-- How the blocking task of the tokenizer ends. -/
inductive TokenizeOutcome
  | ok (ids : List (List UInt32))
  | err (e : String)
  | joinErr (e : String)
  deriving DecidableEq

def TokenizeOutcome.result : TokenizeOutcome → Except HttpError (List (List UInt32))
  | .ok ids => .ok ids
  | .err e => .error (serverError e)
  | .joinErr e => .error (serverError s!"tokenize task panicked: {e}")

/-- How `dispatch_inference` ends: what the call of the batcher returns, or how the blocking task
that scores the pairs ends. -/
inductive Inference (F : Type)
  | batched (r : Except Batcher.BatchError (List (List F)))
  | direct (joinErr : String) (r : Except Pooling.Failure (List F))

/-- The ways in which `dispatch_inference` can end for a reranker. -/
def Inference.Allowed {F : Type} (entry : RerankerEntry) : Inference F → Bool
  | .batched _ => entry.batcher
  | .direct .. => !entry.batcher

/-- The scores, or the error of `dispatch_inference`. -/
def Inference.scores {F : Type} (docCount : ℕ) : Inference F → Except InferenceError (List F)
  | .batched r => batchedScores docCount r
  | .direct joinErr r => directScores joinErr r

/-- The response to an error of `dispatch_inference`. -/
def inferenceFailed : InferenceError → HttpError
  | .queueFull msg => rateLimited msg
  | .inference msg => serverError msg
  | .shutdown => ⟨503, none, .detail "batcher shut down" "server_error"⟩
  | .shapeMismatch msg => serverError msg
  | .panic msg => serverError msg

/-- The scores of all documents, or the response to the failure. -/
def Inference.result {F : Type} (docCount : ℕ) (i : Inference F) : Except HttpError (List F) :=
  match i.scores docCount with
  | .error e => .error (inferenceFailed e)
  | .ok scores =>
    if scores.length ≠ docCount then .error (serverError "internal error: score count mismatch")
    else .ok scores

/-! ### The handler as a machine -/

/-- The program point of the handler of one request, with its local variables. -/
inductive Phase (F : Type)
  | idle
  /-- Before the shutdown gate, with the permit. -/
  | admitted (req : RerankRequest)
  /-- Past the shutdown gate, before the checks. -/
  | checking (req : RerankRequest)
  /-- Past the checks, not yet counted in the gauge. -/
  | resolved (req : RerankRequest) (model : String)
  /-- Awaiting the worker pool. -/
  | dispatching (req : RerankRequest) (model : String)
  /-- In the loop that probes the token cache. -/
  | probing (req : RerankRequest) (model : String) (entry : RerankerEntry) (slots : List Slot)
  /-- Awaiting the tokenizer. -/
  | tokenizing (req : RerankRequest) (model : String) (entry : RerankerEntry) (slots : List Slot)
    (missIndices : List ℕ) (missDocs : List String)
  /-- In the loop that splices the new rows into the slots `todo`. -/
  | splicing (req : RerankRequest) (model : String) (entry : RerankerEntry)
    (missIter : List (List UInt32 × ℕ)) (done todo : List Slot)
  /-- Awaiting the scores. -/
  | inferring (req : RerankRequest) (model : String) (entry : RerankerEntry)
    (tokenIds : List (List UInt32))
  | responded (req : RerankRequest) (r : Response F)
  /-- The client went away. -/
  | abandoned
  /-- An `expect` failed, or an index was out of bounds. -/
  | panicked (msg : String)
  deriving DecidableEq

/-- The model of a request that its gauge counts. -/
def Phase.model? {F : Type} : Phase F → Option String
  | .dispatching _ model | .probing _ model _ _ | .tokenizing _ model _ _ _ _
  | .splicing _ model _ _ _ _ | .inferring _ model _ _ => some model
  | _ => none

/-- The handler is at work, with its permit. -/
def Phase.Holds {F : Type} : Phase F → Bool
  | .admitted _ | .checking _ | .resolved .. => true
  | p => p.model?.isSome

/-- The handler waits, and may end there when its client goes away. -/
def Phase.Awaits {F : Type} : Phase F → Bool
  | .dispatching .. | .tokenizing .. | .inferring .. => true
  | _ => false

/-- The state of the server, as far as the handler is concerned. -/
structure State (D F Tid : Type) where
  tokenCache : TokenCache D
  shutdown : Bool
  /-- The permits left, when there is a semaphore. -/
  permits : Option ℕ
  /-- The gauge `embed_rerank_in_flight` of a model. -/
  inFlight : String → ℤ
  phase : Tid → Phase F

/-- The actions of a schedule; `nanos` is the clock. -/
inductive Action (D F Tid : Type)
  | begin (t : Tid) (req : RerankRequest)
  /-- The handler of request `t` performs its next step. -/
  | advance (t : Tid)
  | worker (t : Tid) (nanos : ℕ) (o : WorkerOutcome F)
  | tokenized (t : Tid) (o : TokenizeOutcome)
  | inferred (t : Tid) (nanos : ℕ) (i : Inference F)
  /-- The client of request `t` goes away. -/
  | abandon (t : Tid)
  /-- The token cache evicts a key. -/
  | evict (key : TokenCacheKey D)
  | shutdown

/-- The text of the `expect` on the session of a reranker. -/
def notLoaded : String :=
  "in-process RerankerModel session required but not loaded (EMBED_MULTI_PROCESS=1?)"

section Machine

variable {D F Tid : Type} [DecidableEq Tid]

/-- The response to a request with scores, or the panic of `build_sorted_results`. -/
def conclude [Field F] [LinearOrder F] (exp : F → F) (req : RerankRequest) (model : String)
    (nanos : ℕ) (scores : List F) : Phase F :=
  match buildSortedResults (applyNormalize exp scores (req.normalize.getD default)) req.topN
      (echoDocs req.returnDocuments req.texts) with
  | some results => .responded req (.ok ⟨opaqueRequestId nanos, model, results⟩)
  | none =>
    .panicked (s!"index out of bounds: the len is {req.texts.length} but the index is " ++
      s!"{req.texts.length}")

def State.setPhase (s : State D F Tid) (t : Tid) (p : Phase F) : State D F Tid :=
  { s with phase := Function.update s.phase t p }

@[simp] theorem State.setPhase_phase (s : State D F Tid) (t : Tid) (p : Phase F) :
    (s.setPhase t p).phase t = p := by
  simp [State.setPhase]

/-- The handler ends before it is counted; its permit goes back. -/
def State.release (s : State D F Tid) (t : Tid) (p : Phase F) : State D F Tid :=
  { s with permits := s.permits.map (· + 1) }.setPhase t p

/-- The model's gauge goes up. -/
def State.enter (s : State D F Tid) (t : Tid) (model : String) (p : Phase F) : State D F Tid :=
  { s with inFlight := Function.update s.inFlight model (s.inFlight model + 1) }.setPhase t p

/-- The handler ends; the gauge goes down and the permit goes back. -/
def State.finish (s : State D F Tid) (t : Tid) (model : String) (p : Phase F) : State D F Tid :=
  { s with inFlight := Function.update s.inFlight model (s.inFlight model - 1) }.release t p

variable [DecidableEq D]

/-- The next step of the handler of one request. -/
def advance (ext : Externals D F) (app : AppState) (s : State D F Tid) (t : Tid) :
    Option (State D F Tid) :=
  match s.phase t with
  | .admitted req =>
    if s.shutdown then some (s.release t (.responded req (.error shuttingDown)))
    else some (s.setPhase t (.checking req))
  | .checking req =>
    match validate app req with
    | .error e => some (s.release t (.responded req (.error e)))
    | .ok model => some (s.setPhase t (.resolved req model))
  | .resolved req model =>
    match app.rerankers.lookup model with
    | none => some (s.release t (.panicked "resolve_reranker_name validated key presence"))
    | some entry =>
      if app.workerPool then some (s.enter t model (.dispatching req model))
      else if entry.model then some (s.enter t model (.probing req model entry []))
      -- the guard of the gauge is dropped when the handler panics
      else some (s.release t (.panicked notLoaded))
  | .probing req model entry slots =>
    match req.texts[slots.length]? with
    | some doc =>
      let hit := s.tokenCache.get ext.sha256 model req.query doc
      some (s.setPhase t (.probing req model entry (slots ++ [(slots.length, hit)])))
    | none =>
      if holes slots = [] then
        match slots.mapM Prod.snd with
        | some tokenIds => some (s.setPhase t (.inferring req model entry tokenIds))
        | none => some (s.finish t model (.panicked "hit"))
      else
        match (holes slots).mapM fun i => req.texts[i]? with
        | some missDocs =>
          some (s.setPhase t (.tokenizing req model entry slots (holes slots) missDocs))
        | none => some (s.finish t model (.panicked "index out of bounds"))
  | .splicing req model entry ((ids, origIdx) :: missIter) done ((j, none) :: todo) =>
    match req.texts[origIdx]? with
    | some doc =>
      some ({ s with tokenCache := s.tokenCache.insert ext.sha256 model req.query doc ids }.setPhase
        t (.splicing req model entry missIter (done ++ [(j, some ids)]) todo))
    | none => some (s.finish t model (.panicked "index out of bounds"))
  | .splicing req model entry missIter done (slot :: todo) =>
    some (s.setPhase t (.splicing req model entry missIter (done ++ [slot]) todo))
  | .splicing req model entry _ done [] =>
    match done.mapM Prod.snd with
    | some tokenIds => some (s.setPhase t (.inferring req model entry tokenIds))
    | none => some (s.finish t model (.panicked "all slots filled after tokenize"))
  | _ => none

variable [Field F] [LinearOrder F]

/-- One step of the server. -/
def step (ext : Externals D F) (app : AppState) (s : State D F Tid) :
    Action D F Tid → Option (State D F Tid)
  | .begin t req =>
    match s.phase t with
    | .idle =>
      match s.permits with
      | none => some (s.setPhase t (.admitted req))
      | some 0 => some (s.setPhase t (.responded req (.error capReached)))
      | some (n + 1) => some ({ s with permits := some n }.setPhase t (.admitted req))
    | _ => none
  | .advance t => advance ext app s t
  | .worker t nanos o =>
    match s.phase t with
    | .dispatching req model =>
      match o.result with
      | .error e => some (s.finish t model (.responded req (.error e)))
      | .ok scores => some (s.finish t model (conclude ext.exp req model nanos scores))
    | _ => none
  | .tokenized t o =>
    match s.phase t with
    | .tokenizing req model entry slots missIndices _ =>
      match o.result with
      | .error e => some (s.finish t model (.responded req (.error e)))
      | .ok ids => some (s.setPhase t (.splicing req model entry (ids.zip missIndices) [] slots))
    | _ => none
  | .inferred t nanos i =>
    match s.phase t with
    | .inferring req model entry _ =>
      if i.Allowed entry then
        match i.result req.documents.length with
        | .error e => some (s.finish t model (.responded req (.error e)))
        | .ok scores => some (s.finish t model (conclude ext.exp req model nanos scores))
      else none
    | _ => none
  | .abandon t =>
    match (s.phase t).Awaits, (s.phase t).model? with
    | true, some model => some (s.finish t model .abandoned)
    | _, _ => none
  | .evict key => some { s with tokenCache := s.tokenCache.evict key }
  | .shutdown => some { s with shutdown := true }

/-- The state in which the server starts. -/
def start (app : AppState) : State D F Tid :=
  ⟨.new app.tokenCacheMaxEntries, false, app.rerankSemaphore, fun _ => 0, fun _ => .idle⟩

variable (Tid) in
/-- The server as a machine. -/
@[simps] def machine (ext : Externals D F) (app : AppState) :
    Machine (State D F Tid) (Action D F Tid) where
  Init s := s = start app
  step := step ext app

/-! ### What a step can do -/

/-- What one step can do, one constructor for each branch of the source. -/
inductive Trans (ext : Externals D F) (app : AppState) (s : State D F Tid) :
    Action D F Tid → State D F Tid → Prop
  | uncapped {t req} (hp : s.phase t = .idle) (hn : s.permits = none) :
      Trans ext app s (.begin t req) (s.setPhase t (.admitted req))
  | refuse {t req} (hp : s.phase t = .idle) (hn : s.permits = some 0) :
      Trans ext app s (.begin t req) (s.setPhase t (.responded req (.error capReached)))
  | acquire {t req n} (hp : s.phase t = .idle) (hn : s.permits = some (n + 1)) :
      Trans ext app s (.begin t req) ({ s with permits := some n }.setPhase t (.admitted req))
  | turnAway {t req} (hp : s.phase t = .admitted req) (hd : s.shutdown = true) :
      Trans ext app s (.advance t) (s.release t (.responded req (.error shuttingDown)))
  | pass {t req} (hp : s.phase t = .admitted req) (hd : s.shutdown = false) :
      Trans ext app s (.advance t) (s.setPhase t (.checking req))
  | reject {t req e} (hp : s.phase t = .checking req) (hv : validate app req = .error e) :
      Trans ext app s (.advance t) (s.release t (.responded req (.error e)))
  | resolve {t req model} (hp : s.phase t = .checking req) (hv : validate app req = .ok model) :
      Trans ext app s (.advance t) (s.setPhase t (.resolved req model))
  | noEntry {t req model} (hp : s.phase t = .resolved req model)
      (he : app.rerankers.lookup model = none) :
      Trans ext app s (.advance t)
        (s.release t (.panicked "resolve_reranker_name validated key presence"))
  | dispatch {t req model entry} (hp : s.phase t = .resolved req model)
      (he : app.rerankers.lookup model = some entry) (hw : app.workerPool = true) :
      Trans ext app s (.advance t) (s.enter t model (.dispatching req model))
  | probe {t req model entry} (hp : s.phase t = .resolved req model)
      (he : app.rerankers.lookup model = some entry) (hw : app.workerPool = false)
      (hm : entry.model = true) :
      Trans ext app s (.advance t) (s.enter t model (.probing req model entry []))
  | notLoaded {t req model entry} (hp : s.phase t = .resolved req model)
      (he : app.rerankers.lookup model = some entry) (hw : app.workerPool = false)
      (hm : entry.model = false) :
      Trans ext app s (.advance t) (s.release t (.panicked notLoaded))
  | lookup {t req model entry slots doc} (hp : s.phase t = .probing req model entry slots)
      (hd : req.texts[slots.length]? = some doc) :
      Trans ext app s (.advance t) (s.setPhase t (.probing req model entry
        (slots ++ [(slots.length, s.tokenCache.get ext.sha256 model req.query doc)])))
  | allHits {t req model entry slots tokenIds} (hp : s.phase t = .probing req model entry slots)
      (hd : req.texts[slots.length]? = none) (hh : holes slots = [])
      (hids : slots.mapM Prod.snd = some tokenIds) :
      Trans ext app s (.advance t) (s.setPhase t (.inferring req model entry tokenIds))
  | openHit {t req model entry slots} (hp : s.phase t = .probing req model entry slots)
      (hd : req.texts[slots.length]? = none) (hh : holes slots = [])
      (hids : slots.mapM Prod.snd = none) :
      Trans ext app s (.advance t) (s.finish t model (.panicked "hit"))
  | tokenize {t req model entry slots missDocs} (hp : s.phase t = .probing req model entry slots)
      (hd : req.texts[slots.length]? = none)
      (hm : ((holes slots).mapM fun i => req.texts[i]?) = some missDocs) :
      Trans ext app s (.advance t)
        (s.setPhase t (.tokenizing req model entry slots (holes slots) missDocs))
  | missOutside {t req model entry slots} (hp : s.phase t = .probing req model entry slots)
      (hd : req.texts[slots.length]? = none)
      (hm : ((holes slots).mapM fun i => req.texts[i]?) = none) :
      Trans ext app s (.advance t) (s.finish t model (.panicked "index out of bounds"))
  | insert {t req model entry ids origIdx missIter done j todo doc}
      (hp : s.phase t =
        .splicing req model entry ((ids, origIdx) :: missIter) done ((j, none) :: todo))
      (hd : req.texts[origIdx]? = some doc) :
      Trans ext app s (.advance t)
        ({ s with tokenCache := s.tokenCache.insert ext.sha256 model req.query doc ids }.setPhase t
          (.splicing req model entry missIter (done ++ [(j, some ids)]) todo))
  | insertOutside {t req model entry ids origIdx missIter done j todo}
      (hp : s.phase t =
        .splicing req model entry ((ids, origIdx) :: missIter) done ((j, none) :: todo))
      (hd : req.texts[origIdx]? = none) :
      Trans ext app s (.advance t) (s.finish t model (.panicked "index out of bounds"))
  | keep {t req model entry missIter done j ids todo}
      (hp : s.phase t = .splicing req model entry missIter done ((j, some ids) :: todo)) :
      Trans ext app s (.advance t)
        (s.setPhase t (.splicing req model entry missIter (done ++ [(j, some ids)]) todo))
  | leaveOpen {t req model entry done j todo}
      (hp : s.phase t = .splicing req model entry [] done ((j, none) :: todo)) :
      Trans ext app s (.advance t)
        (s.setPhase t (.splicing req model entry [] (done ++ [(j, none)]) todo))
  | spliced {t req model entry missIter done tokenIds}
      (hp : s.phase t = .splicing req model entry missIter done [])
      (hids : done.mapM Prod.snd = some tokenIds) :
      Trans ext app s (.advance t) (s.setPhase t (.inferring req model entry tokenIds))
  | openSlot {t req model entry missIter done}
      (hp : s.phase t = .splicing req model entry missIter done [])
      (hids : done.mapM Prod.snd = none) :
      Trans ext app s (.advance t)
        (s.finish t model (.panicked "all slots filled after tokenize"))
  | workerFailed {t nanos o req model e} (hp : s.phase t = .dispatching req model)
      (ho : o.result = .error e) :
      Trans ext app s (.worker t nanos o) (s.finish t model (.responded req (.error e)))
  | workerScored {t nanos o req model scores} (hp : s.phase t = .dispatching req model)
      (ho : o.result = .ok scores) :
      Trans ext app s (.worker t nanos o)
        (s.finish t model (conclude ext.exp req model nanos scores))
  | tokenizeFailed {t o req model entry slots missIndices missDocs e}
      (hp : s.phase t = .tokenizing req model entry slots missIndices missDocs)
      (ho : o.result = .error e) :
      Trans ext app s (.tokenized t o) (s.finish t model (.responded req (.error e)))
  | tokenized {t o req model entry slots missIndices missDocs ids}
      (hp : s.phase t = .tokenizing req model entry slots missIndices missDocs)
      (ho : o.result = .ok ids) :
      Trans ext app s (.tokenized t o)
        (s.setPhase t (.splicing req model entry (ids.zip missIndices) [] slots))
  | inferFailed {t nanos i req model entry tokenIds e}
      (hp : s.phase t = .inferring req model entry tokenIds)
      (hi : i.result req.documents.length = .error e) :
      Trans ext app s (.inferred t nanos i) (s.finish t model (.responded req (.error e)))
  | scored {t nanos i req model entry tokenIds scores}
      (hp : s.phase t = .inferring req model entry tokenIds)
      (hi : i.result req.documents.length = .ok scores) :
      Trans ext app s (.inferred t nanos i)
        (s.finish t model (conclude ext.exp req model nanos scores))
  | abandon {t model} (hp : (s.phase t).Awaits = true) (hm : (s.phase t).model? = some model) :
      Trans ext app s (.abandon t) (s.finish t model .abandoned)
  | evict (key : TokenCacheKey D) :
      Trans ext app s (.evict key) { s with tokenCache := s.tokenCache.evict key }
  | shutdown : Trans ext app s .shutdown { s with shutdown := true }

variable {ext : Externals D F} {app : AppState} {s s' : State D F Tid} {a : Action D F Tid}

private theorem trans_of_advance {t : Tid} (h : advance ext app s t = some s') :
    Trans ext app s (.advance t) s' := by
  simp only [advance] at h
  split at h
  · split at h <;> cases h
    · exact .turnAway ‹_› ‹_›
    · exact .pass ‹_› (Bool.eq_false_iff.2 ‹_›)
  · split at h <;> cases h
    · exact .reject ‹_› ‹_›
    · exact .resolve ‹_› ‹_›
  · split at h
    · cases h
      exact .noEntry ‹_› ‹_›
    · rename_i he
      split at h
      · cases h
        exact .dispatch ‹_› he ‹_›
      · rename_i hw
        rw [Bool.not_eq_true] at hw
        split at h <;> cases h
        · exact .probe ‹_› he hw ‹_›
        · exact .notLoaded ‹_› he hw (Bool.eq_false_iff.2 ‹_›)
  · split at h
    · cases h
      exact .lookup ‹_› ‹_›
    · split at h
      · split at h <;> cases h
        · exact .allHits ‹_› ‹_› ‹_› ‹_›
        · exact .openHit ‹_› ‹_› ‹_› ‹_›
      · split at h <;> cases h
        · exact .tokenize ‹_› ‹_› ‹_›
        · exact .missOutside ‹_› ‹_› ‹_›
  · split at h <;> cases h
    · exact .insert ‹_› ‹_›
    · exact .insertOutside ‹_› ‹_›
  · rename_i hnot hp
    cases h
    rename_i missIter done slot todo
    obtain ⟨j, v⟩ := slot
    cases v with
    | some ids => exact .keep hp
    | none =>
      cases missIter with
      | nil => exact .leaveOpen hp
      | cons row missIter => exact absurd rfl (hnot row.1 row.2 missIter j · rfl)
  · split at h <;> cases h
    · exact .spliced ‹_› ‹_›
    · exact .openSlot ‹_› ‹_›
  · cases h

/-- Every step is one of the transitions `Trans`. -/
theorem trans_of_step (h : step ext app s a = some s') : Trans ext app s a s' := by
  cases a with
  | begin t req =>
    simp only [step] at h
    split at h
    · split at h <;> cases h
      · exact .uncapped ‹_› ‹_›
      · exact .refuse ‹_› ‹_›
      · exact .acquire ‹_› ‹_›
    · cases h
  | advance t => exact trans_of_advance h
  | worker t nanos o =>
    simp only [step] at h
    split at h
    · split at h <;> cases h
      · exact .workerFailed ‹_› ‹_›
      · exact .workerScored ‹_› ‹_›
    · cases h
  | tokenized t o =>
    simp only [step] at h
    split at h
    · split at h <;> cases h
      · exact .tokenizeFailed ‹_› ‹_›
      · exact .tokenized ‹_› ‹_›
    · cases h
  | inferred t nanos i =>
    simp only [step] at h
    split at h
    · split at h
      · split at h <;> cases h
        · exact .inferFailed ‹_› ‹_›
        · exact .scored ‹_› ‹_›
      · cases h
    · cases h
  | abandon t =>
    simp only [step] at h
    split at h <;> cases h
    exact .abandon ‹_› ‹_›
  | evict key =>
    cases h
    exact .evict key
  | shutdown =>
    cases h
    exact .shutdown

end Machine

/-- One reranker in process, without a batcher, and one permit. -/
def onePermit : AppState :=
  ⟨[("m", ⟨true, false⟩)], List.nodup_singleton "m", 8, false, some 1, 10⟩

end OxEmbed.Rerank

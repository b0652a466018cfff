import Mathlib.Data.List.Perm.Basic
import Mathlib.Tactic.Simps.Basic
import OxEmbed.Batcher.Basic
import OxEmbed.Embeddings.Cache
import OxEmbed.Library.Machine
import OxEmbed.Library.Splice

/-!
# The embeddings handler

The handler of `POST /v1/embeddings` in `api.rs`. Any number of requests are handled at the same
time; each probes the cache text by text, runs inference on the texts that missed, once for each
distinct text, inserts the new vectors into the cache, and scatters them over the positions that
wait for them. Every look-up and every insert is one step, so that other requests, and evictions,
come in between; the order in which the hash map of the misses yields its keys, and what the
backend returns, are choices of the schedule. A client that goes away while the backend works ends
the request at that point.

Inference runs in a worker process, through the batcher, or on the blocking pool. Billing counts
characters or tokens: the count of a request that runs in process is the tokenizer's and comes with
the backend's reply.

The fields `computed` and `inserters` of a state are history variables: no step reads them.

## Main definitions

* `AppState`, `EmbedRequest`, `Response` : the data of the handler.
* `accept` : the checks before the cache is probed.
* `Backend`, `Backend.result` : how inference ends, and the response to a failure.
* `Phase`, `State`, `step`, `machine` : the handler as a machine.
* `Trans` : what a step can do, one constructor for each branch of the source.

## Main results

* `trans_of_step` : every step is one of the transitions `Trans`.
-/

namespace OxEmbed.Embeddings

open Splice

/-! ### Requests and responses -/

/-- What the handler uses from other packages. -/
structure Externals (D V : Type) where
  /-- SHA-256 of a text. -/
  hashText : String → D
  /-- Base64 of the little-endian bytes of a vector. -/
  encodeBase64 : V → String

/-- The entry of a model: whether a session is loaded in process, and whether it has a batcher. -/
structure ModelEntry where
  model : Bool
  batcher : Bool
  deriving DecidableEq, Repr

/-- The parts of the shared state that the handler reads. -/
structure AppState where
  models : List (String × ModelEntry)
  defaultModel : String
  embedMaxInputArray : ℕ
  /-- Whether there is a worker pool. -/
  workerPool : Bool
  /-- The capacity of the cache. -/
  cacheMaxEntries : ℕ

inductive EncodingFormat
  | float
  | base64
  deriving DecidableEq, Repr

inductive InputField
  | single (s : String)
  | batch (v : List String)
  deriving DecidableEq, Repr

def InputField.intoVec : InputField → List String
  | .single s => [s]
  | .batch v => v

structure EmbedRequest where
  input : InputField
  model : Option String
  encodingFormat : Option EncodingFormat
  inputType : Option InputType
  deriving DecidableEq, Repr

namespace EmbedRequest

variable (app : AppState) (req : EmbedRequest)

def modelName : String := req.model.getD app.defaultModel

def format : EncodingFormat := req.encodingFormat.getD .float

def kind : InputType := req.inputType.getD .document

def texts : List String := req.input.intoVec

/-- The model part of the request's cache keys. -/
def cacheKey : String := cacheModelKey (req.modelName app) req.kind

end EmbedRequest

inductive EmbeddingValue (V : Type)
  | vector (v : V)
  | base64 (s : String)
  deriving DecidableEq, Repr

structure EmbedData (V : Type) where
  object : String
  embedding : EmbeddingValue V
  index : ℕ
  deriving DecidableEq, Repr

structure Usage where
  promptTokens : ℕ
  totalTokens : ℕ
  deriving DecidableEq, Repr

structure EmbedResponse (V : Type) where
  object : String
  data : List (EmbedData V)
  model : String
  usage : Usage
  deriving DecidableEq, Repr

/-- The JSON body of an error. -/
inductive ErrorBody
  | detail (message errorType : String)
  | inputArrayTooLarge (errorType code message : String) (cap received : ℕ)
  deriving DecidableEq, Repr

/-- An error response: status, `retry-after` header and body. -/
structure HttpError where
  status : ℕ
  retryAfter : Option String
  body : ErrorBody
  deriving DecidableEq, Repr

inductive Response (V : Type)
  | ok (r : EmbedResponse V)
  | error (e : HttpError)
  deriving DecidableEq, Repr

/-- `error_json`. -/
def errorJson (msg : String) : HttpError := ⟨400, none, .detail msg "invalid_request_error"⟩

def serverError (msg : String) : HttpError := ⟨500, none, .detail msg "server_error"⟩

variable {D V Tid : Type}

/-- The `data` field of a response. -/
def buildData (encodeBase64 : V → String) (vectors : List V) (format : EncodingFormat) :
    List (EmbedData V) :=
  vectors.mapIdx fun i v =>
    { object := "embedding"
      embedding := match format with
        | .float => .vector v
        | .base64 => .base64 (encodeBase64 v)
      index := i }

/-- The response with status 200. -/
def okResponse (ext : Externals D V) (app : AppState) (req : EmbedRequest) (vectors : List V)
    (totalTokens : ℕ) : Response V :=
  .ok
    { object := "list"
      data := buildData ext.encodeBase64 vectors req.format
      model := req.modelName app
      usage := ⟨totalTokens, totalTokens⟩ }

/-- The checks before the cache is probed. -/
def accept (app : AppState) (shutdown : Bool) (req : EmbedRequest) :
    Except HttpError ModelEntry :=
  if shutdown then
    .error ⟨503, some "5", .detail "server shutting down" "rate_limited"⟩
  else if req.texts.isEmpty then .error (errorJson "input must not be empty")
  else if req.texts.length > app.embedMaxInputArray then
    .error ⟨400, none, .inputArrayTooLarge "invalid_request_error" "input_array_too_large"
      (s!"input array contains {req.texts.length} items, server cap is " ++
        s!"{app.embedMaxInputArray}; split into multiple requests")
      app.embedMaxInputArray req.texts.length⟩
  else
    match app.models.lookup (req.modelName app) with
    | some entry => .ok entry
    | none => .error (errorJson s!"model '{req.modelName app}' not found")

/-! ### Inference -/

/-- How the dispatch to a worker ends. -/
inductive WorkerOutcome (V : Type)
  | embed (vectors : List V)
  /-- The worker replied with an error. -/
  | err
  /-- The worker replied with a response of another kind. -/
  | unexpected
  | timeout
  /-- Any other `DispatchError`. -/
  | failed
  deriving DecidableEq, Repr

/-- How inference on the blocking pool ends. -/
inductive LegacyOutcome (V : Type)
  | ok (vectors : List V)
  | err (e : String)
  | joinErr (e : String)
  deriving DecidableEq, Repr

/-- How inference on the texts that missed ends. In process, `tokens` counts their token ids. -/
inductive Backend (V : Type)
  | worker (o : WorkerOutcome V)
  | tokenizeErr (e : String)
  | tokenizeJoinErr (e : String)
  | batcher (tokens : ℕ) (r : Except Batcher.BatchError (List V))
  | legacy (tokens : ℕ) (o : LegacyOutcome V)

/-- The tokens that the worker path bills for a text: a quarter of its characters, rounded up, and
at least one. The source divides as `f32`, which is exact below `2 ^ 24` characters. -/
def estimateTokens (text : String) : ℕ := max ((text.length + 3) / 4) 1

namespace Backend

/-- The ways in which inference can end for a model. -/
def Allowed (app : AppState) (entry : ModelEntry) : Backend V → Bool
  | .worker _ => app.workerPool
  | .tokenizeErr _ | .tokenizeJoinErr _ => !app.workerPool
  | .batcher .. => !app.workerPool && entry.batcher
  | .legacy .. => !app.workerPool && !entry.batcher

/-- The vectors with the tokens billed for them, or the response to the failure. -/
def result (pendingTexts : List String) : Backend V → Except HttpError (List V × ℕ)
  | .worker (.embed vectors) => .ok (vectors, (pendingTexts.map estimateTokens).sum)
  | .worker .err => .error (serverError "inference failed")
  | .worker .unexpected => .error (serverError "inference failed: unexpected response kind")
  | .worker .timeout =>
    .error ⟨503, some "5", .detail "inference failed: worker respawning" "worker_unavailable"⟩
  | .worker .failed => .error (serverError "inference failed")
  | .tokenizeErr e => .error (serverError e)
  | .tokenizeJoinErr e => .error (serverError s!"tokenize task panicked: {e}")
  | .batcher tokens (.ok vectors) => .ok (vectors, tokens)
  | .batcher _ (.error (.queueFull name)) =>
    .error ⟨429, some "1", .detail s!"batcher '{name}' queue is full" "rate_limited"⟩
  | .batcher _ (.error (.inference msg)) => .error (serverError msg)
  | .batcher _ (.error .shutdown) =>
    .error ⟨503, none, .detail "batcher shut down" "server_error"⟩
  | .legacy tokens (.ok vectors) => .ok (vectors, tokens)
  | .legacy _ (.err e) => .error (serverError e)
  | .legacy _ (.joinErr e) => .error (serverError s!"spawn: {e}")

end Backend

/-! ### The handler as a machine -/

/-- The program point of the handler of one request, with its local variables. -/
inductive Phase (V : Type)
  | idle
  /-- In `partition_hits_and_misses`, with `k` texts probed. -/
  | partition (req : EmbedRequest) (entry : ModelEntry) (k : ℕ) (cached : List (Option V))
      (pending : List (String × List ℕ))
  /-- Awaiting the backend. -/
  | infer (req : EmbedRequest) (entry : ModelEntry) (cached : List (Option V))
      (pending : List (String × List ℕ)) (pendingTexts : List String)
  /-- In the loop that inserts and scatters the new vectors. -/
  | scatter (req : EmbedRequest) (cached : List (Option V)) (pending : List (String × List ℕ))
      (todo : List (String × V)) (totalTokens : ℕ)
  | responded (req : EmbedRequest) (r : Response V)
  /-- The client went away. -/
  | abandoned
  /-- An `expect` failed. -/
  | panicked (msg : String)
  deriving DecidableEq

/-- The state of the server, as far as the handler is concerned. -/
structure State (D V Tid : Type) where
  cache : EmbeddingCache D V
  shutdown : Bool
  phase : Tid → Phase V
  /-- History: the vectors that successful inference gave for a model, an input type and a text. -/
  computed : List ((String × InputType × String) × V)
  /-- History: the requests that inserted into the cache, one entry for each insert. -/
  inserters : List Tid

/-- The actions of a schedule. -/
inductive Action (D V Tid : Type)
  | begin (t : Tid) (req : EmbedRequest)
  /-- The handler of request `t` performs its next step. -/
  | advance (t : Tid)
  /-- The handler starts inference on the keys of its hash map of misses, in some order. -/
  | startInference (t : Tid) (pendingTexts : List String)
  | backend (t : Tid) (b : Backend V)
  /-- The client of request `t` goes away. -/
  | abandon (t : Tid)
  /-- The cache evicts a key. -/
  | evict (key : CacheKey D)
  | shutdown

variable [DecidableEq Tid]

def State.setPhase (s : State D V Tid) (t : Tid) (p : Phase V) : State D V Tid :=
  { s with phase := Function.update s.phase t p }

/-- Collect the filled slots and respond. -/
def respond (ext : Externals D V) (app : AppState) (req : EmbedRequest)
    (cached : List (Option V)) (totalTokens : ℕ) (bug : String) : Phase V :=
  match collect cached with
  | some vectors => .responded req (okResponse ext app req vectors totalTokens)
  | none => .panicked bug

/-- The text of the `expect` on the session of a model. -/
def notLoaded : String :=
  "in-process EmbedModel session required but not loaded (EMBED_MULTI_PROCESS=1?)"

/-- What the handler does with the vectors of the texts that missed. -/
def afterInference (req : EmbedRequest) (cached : List (Option V))
    (pending : List (String × List ℕ)) (pendingTexts : List String) (vectors : List V)
    (totalTokens : ℕ) : Phase V :=
  if vectors.length ≠ pendingTexts.length then
    .responded req (.error (serverError "internal error: vector count mismatch"))
  else .scatter req cached pending (pendingTexts.zip vectors) totalTokens

/-- History of a successful inference. -/
def record (app : AppState) (req : EmbedRequest) (pendingTexts : List String)
    (vectors : List V) : List ((String × InputType × String) × V) :=
  if vectors.length ≠ pendingTexts.length then []
  else (pendingTexts.zip vectors).map fun p => ((req.modelName app, req.kind, p.1), p.2)

variable [DecidableEq D]

/-- The next step of the handler of one request. -/
def advance (ext : Externals D V) (app : AppState) (s : State D V Tid) (t : Tid) :
    Option (State D V Tid) :=
  match s.phase t with
  | .partition req entry k cached pending =>
    match req.texts[k]? with
    | some text =>
      match s.cache.get ext.hashText (req.cacheKey app) text with
      | some v => some (s.setPhase t (.partition req entry (k + 1) (cached.set k (some v)) pending))
      | none => some (s.setPhase t (.partition req entry (k + 1) cached (push text k pending)))
    | none =>
      -- all texts are probed: respond when none missed
      if pending.isEmpty then some (s.setPhase t (respond ext app req cached 0 "all hits"))
      else none
  | .scatter req cached pending ((text, v) :: todo) totalTokens =>
    let s' := { s with
      cache := s.cache.insert ext.hashText (req.cacheKey app) text v
      inserters := s.inserters ++ [t] }
    match positions text pending with
    | some ps => some (s'.setPhase t (.scatter req (fill cached ps v) pending todo totalTokens))
    | none => some (s'.setPhase t (.panicked "pending_text came from pending.keys()"))
  | .scatter req cached _ [] totalTokens =>
    some (s.setPhase t (respond ext app req cached totalTokens "every position filled"))
  | _ => none

/-- One step of the server. -/
def step (ext : Externals D V) (app : AppState) (s : State D V Tid) :
    Action D V Tid → Option (State D V Tid)
  | .begin t req =>
    match s.phase t with
    | .idle =>
      match accept app s.shutdown req with
      | .error e => some (s.setPhase t (.responded req (.error e)))
      | .ok entry =>
        some (s.setPhase t (.partition req entry 0 (List.replicate req.texts.length none) []))
    | _ => none
  | .advance t => advance ext app s t
  | .startInference t pendingTexts =>
    match s.phase t with
    | .partition req entry k cached pending =>
      if req.texts.length ≤ k ∧ pending ≠ [] ∧ pendingTexts.Perm (pending.map Prod.fst) then
        if app.workerPool || entry.model then
          some (s.setPhase t (.infer req entry cached pending pendingTexts))
        else some (s.setPhase t (.panicked notLoaded))
      else none
    | _ => none
  | .backend t b =>
    match s.phase t with
    | .infer req entry cached pending pendingTexts =>
      if b.Allowed app entry then
        match b.result pendingTexts with
        | .error e => some (s.setPhase t (.responded req (.error e)))
        | .ok (vectors, totalTokens) =>
          some ({ s with computed := s.computed ++ record app req pendingTexts vectors }.setPhase t
            (afterInference req cached pending pendingTexts vectors totalTokens))
      else none
    | _ => none
  | .abandon t =>
    match s.phase t with
    | .infer .. => some (s.setPhase t .abandoned)
    | _ => none
  | .evict key => some { s with cache := s.cache.evict key }
  | .shutdown => some { s with shutdown := true }

/-- The server as a machine. -/
def machine (Tid : Type) [DecidableEq Tid] (ext : Externals D V) (app : AppState) :
    Machine (State D V Tid) (Action D V Tid) where
  Init s := s = ⟨.new app.cacheMaxEntries, false, fun _ => .idle, [], []⟩
  step := step ext app

/-! ### What a step can do -/

/-- What one step can do, one constructor for each branch of the source. -/
inductive Trans (ext : Externals D V) (app : AppState) (s : State D V Tid) :
    Action D V Tid → State D V Tid → Prop
  | refuse {t req e} (hp : s.phase t = .idle) (ha : accept app s.shutdown req = .error e) :
      Trans ext app s (.begin t req) (s.setPhase t (.responded req (.error e)))
  | probe {t req entry} (hp : s.phase t = .idle) (ha : accept app s.shutdown req = .ok entry) :
      Trans ext app s (.begin t req)
        (s.setPhase t (.partition req entry 0 (List.replicate req.texts.length none) []))
  | hit {t req entry k cached pending text v}
      (hp : s.phase t = .partition req entry k cached pending) (ht : req.texts[k]? = some text)
      (hv : s.cache.get ext.hashText (req.cacheKey app) text = some v) :
      Trans ext app s (.advance t)
        (s.setPhase t (.partition req entry (k + 1) (cached.set k (some v)) pending))
  | miss {t req entry k cached pending text}
      (hp : s.phase t = .partition req entry k cached pending) (ht : req.texts[k]? = some text)
      (hv : s.cache.get ext.hashText (req.cacheKey app) text = none) :
      Trans ext app s (.advance t)
        (s.setPhase t (.partition req entry (k + 1) cached (push text k pending)))
  | allHits {t req entry k cached} (hp : s.phase t = .partition req entry k cached [])
      (ht : req.texts[k]? = none) :
      Trans ext app s (.advance t) (s.setPhase t (respond ext app req cached 0 "all hits"))
  | infer {t req entry k cached pending pendingTexts}
      (hp : s.phase t = .partition req entry k cached pending) (hk : req.texts.length ≤ k)
      (hperm : pendingTexts.Perm (pending.map Prod.fst)) :
      Trans ext app s (.startInference t pendingTexts)
        (s.setPhase t (.infer req entry cached pending pendingTexts))
  | notLoaded {t req entry k cached pending pendingTexts}
      (hp : s.phase t = .partition req entry k cached pending)
      (hm : (app.workerPool || entry.model) = false) :
      Trans ext app s (.startInference t pendingTexts) (s.setPhase t (.panicked notLoaded))
  | failed {t req entry cached pending pendingTexts b e}
      (hp : s.phase t = .infer req entry cached pending pendingTexts)
      (hb : b.result pendingTexts = .error e) :
      Trans ext app s (.backend t b) (s.setPhase t (.responded req (.error e)))
  | inferred {t req entry cached pending pendingTexts b vectors totalTokens}
      (hp : s.phase t = .infer req entry cached pending pendingTexts)
      (hb : b.result pendingTexts = .ok (vectors, totalTokens)) :
      Trans ext app s (.backend t b)
        ({ s with computed := s.computed ++ record app req pendingTexts vectors }.setPhase t
          (afterInference req cached pending pendingTexts vectors totalTokens))
  | insert {t req cached pending text v todo totalTokens ps}
      (hp : s.phase t = .scatter req cached pending ((text, v) :: todo) totalTokens)
      (hps : positions text pending = some ps) :
      Trans ext app s (.advance t)
        ({ s with
          cache := s.cache.insert ext.hashText (req.cacheKey app) text v
          inserters := s.inserters ++ [t] }.setPhase t
            (.scatter req (fill cached ps v) pending todo totalTokens))
  | unknownKey {t req cached pending text v todo totalTokens}
      (hp : s.phase t = .scatter req cached pending ((text, v) :: todo) totalTokens)
      (hps : positions text pending = none) :
      Trans ext app s (.advance t)
        ({ s with
          cache := s.cache.insert ext.hashText (req.cacheKey app) text v
          inserters := s.inserters ++ [t] }.setPhase t
            (.panicked "pending_text came from pending.keys()"))
  | finish {t req cached pending totalTokens}
      (hp : s.phase t = .scatter req cached pending [] totalTokens) :
      Trans ext app s (.advance t)
        (s.setPhase t (respond ext app req cached totalTokens "every position filled"))
  | abandon {t req entry cached pending pendingTexts}
      (hp : s.phase t = .infer req entry cached pending pendingTexts) :
      Trans ext app s (.abandon t) (s.setPhase t .abandoned)
  | evict (key : CacheKey D) : Trans ext app s (.evict key) { s with cache := s.cache.evict key }
  | shutdown : Trans ext app s .shutdown { s with shutdown := true }

variable {ext : Externals D V} {app : AppState} {s s' : State D V Tid} {a : Action D V Tid}

private theorem trans_of_advanceStep {t : Tid} (h : advance ext app s t = some s') :
    Trans ext app s (.advance t) s' := by
  simp only [advance] at h
  split at h
  · split at h
    · split at h <;> cases h
      · exact .hit ‹_› ‹_› ‹_›
      · exact .miss ‹_› ‹_› ‹_›
    · split at h <;> cases h
      rename_i hp _ ht hnil
      rw [List.isEmpty_iff] at hnil
      subst hnil
      exact .allHits hp ht
  · split at h <;> cases h
    · exact .insert ‹_› ‹_›
    · exact .unknownKey ‹_› ‹_›
  · cases h
    exact .finish ‹_›
  · cases h

/-- Every step is one of the transitions `Trans`. -/
theorem trans_of_step (h : step ext app s a = some s') : Trans ext app s a s' := by
  cases a with
  | begin t req =>
    simp only [step] at h
    split at h
    · split at h <;> cases h
      · exact .refuse ‹_› ‹_›
      · exact .probe ‹_› ‹_›
    · cases h
  | advance t => exact trans_of_advanceStep h
  | startInference t pendingTexts =>
    simp only [step] at h
    split at h
    · split at h
      · rename_i hstart
        split at h <;> cases h
        · exact .infer ‹_› hstart.1 hstart.2.2
        · exact .notLoaded ‹_› (Bool.eq_false_iff.mpr ‹_›)
      · cases h
    · cases h
  | backend t b =>
    simp only [step] at h
    split at h
    · split at h
      · split at h <;> cases h
        · exact .failed ‹_› ‹_›
        · exact .inferred ‹_› ‹_›
      · cases h
    · cases h
  | abandon t =>
    simp only [step] at h
    split at h <;> cases h
    exact .abandon ‹_›
  | evict key =>
    cases h
    exact .evict key
  | shutdown =>
    cases h
    exact .shutdown

end OxEmbed.Embeddings

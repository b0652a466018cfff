import Mathlib.Data.UInt
import OxEmbed.Embeddings.Handler
import OxEmbed.Ipc.WireFormat
import OxEmbed.Library.Text
import OxEmbed.Library.TotalCmp
import OxEmbed.Splade.Encode
import OxEmbed.Supervisor.Pool

/-!
# The sparse embeddings handler

The handler of `POST /embed_sparse` in `api_splade.rs`. With a worker pool it sends all texts to
the worker of the model, with the limit `top_k` cast to 32 bits, and then filters and truncates
what it receives; without one it encodes the texts one after another. The messages to and from the
worker are frames, whose size is capped.

## Main definitions

* `SparseEmbeddingsRequest`, `Reply` : the data of the handler.
* `accept`, `resolveSpladeName` : the checks.
* `workerPath`, `inProcessPath`, `sparseEmbeddings` : the handler in the two deployments.
* `LimitsAgree` : the limits for which both keep the same entries.
* `FitsFrames` : neither the request to the worker nor its reply is above the cap.

## Main results

* `workerEntries_eq_directEntries_iff` : when the two paths keep the same entries of a text.
* `modes_agree_iff` : when the two deployments return the same indices and values.
-/

namespace OxEmbed.Splade

open Embeddings (HttpError errorJson serverError)
open Pooling
open Pool (DispatchError)

variable {F : Type}

/-! ### Requests and replies -/

structure SparseEmbeddingsRequest (F : Type) where
  model : Option String
  input : List String
  topK : Option UInt64
  minWeight : Option F

structure SparseEmbeddingItem (F : Type) where
  index : ℕ
  indices : List UInt32
  values : List F
  deriving DecidableEq

structure SparseEmbeddingsResponse (F : Type) where
  model : String
  data : List (SparseEmbeddingItem F)
  deriving DecidableEq

inductive Reply (F : Type)
  | ok (r : SparseEmbeddingsResponse F)
  | error (e : HttpError)
  deriving DecidableEq

/-- The indices and values of a reply, if it has some. -/
def Reply.data : Reply F → Option (List (SparseEmbeddingItem F))
  | .ok r => some r.data
  | .error _ => none

/-- `DEFAULT_TOP_K`. -/
def defaultTopK : UInt64 := 256

/-- The parts of the shared state that the handler reads: the names of the models and whether the
server is shutting down. -/
structure AppState where
  splades : List String
  shutdown : Bool

/-- `resolve_splade_name`. -/
def resolveSpladeName (app : AppState) : Option String → Except String String
  | some name =>
    if name ∈ app.splades then .ok name else .error s!"splade model '{name}' not found"
  | none =>
    match app.splades with
    | [] => .error "no splade models configured"
    | [name] => .ok name
    | _ => .error "`model` is required when multiple splade models are configured"

/-- The checks on a request; an accepted request gets the name of its model. -/
def accept (app : AppState) (req : SparseEmbeddingsRequest F) : Except HttpError String :=
  if app.shutdown then
    .error ⟨503, some "5", .detail "server shutting down" "rate_limited"⟩
  else if req.input.isEmpty then .error (errorJson "input must not be empty")
  else if req.input.any Text.isBlank then
    .error (errorJson "input texts must not be empty or whitespace-only")
  else
    match resolveSpladeName app req.model with
    | .ok name => .ok name
    | .error msg => .error (errorJson msg)

/-! ### The worker path -/

variable (A : SpladeArith F) (S : SelectNth A) (M : SpladeModel) (sessions : Sessions F)
  (tokenizer : Tokenizer)

/-- The loaded model of the worker. A call that panics ends the blocking task with a join error, so
its reply is not read from here. -/
def spladeModel (cursors : List ℕ) : Ipc.LoadedModel F :=
  .splade fun texts maxSeqLen topK minWeight =>
    match encode A S M sessions tokenizer cursors texts maxSeqLen topK minWeight with
    | .ok sparse => .ok sparse
    | .error (.err e) => .error e
    | .error .panic => .error ""

/-- The worker's reply to a request; `joinErr` is the text of the join error when it panics. -/
def workerReply (joinErr : String) (cursors : List ℕ) (req : Ipc.SpladeRequest F) :
    Ipc.WorkerResponse F :=
  match encode A S M sessions tokenizer cursors req.texts req.maxSeqLen req.topK req.minWeight with
  | .error .panic => Ipc.inferenceReply (.splade req) (.error joinErr)
  | _ => Ipc.inferenceReply (.splade req) (.ok (spladeModel A S M sessions tokenizer cursors))

/-- `dispatch_splade` of the pool and of the client, when the exchange with the worker ends. A
worker that cannot write its reply closes the connection, and the client reads the end of it. -/
def dispatchSplade (P : Ipc.Postcard F) (requestId : UInt64) (joinErr : String) (cursors : List ℕ)
    (model : String) (texts : List String) (maxSeqLen topK : UInt32) (minWeight : F) :
    Except DispatchError (Ipc.WorkerResponse F) :=
  let req : Ipc.SpladeRequest F := ⟨requestId, model, texts, maxSeqLen, topK, minWeight⟩
  match Ipc.writeFrame P.encodeRequest (.splade req) with
  | .error e => .error (.ipc e)
  | .ok _ =>
    let reply := workerReply A S M sessions tokenizer joinErr cursors req
    match Ipc.writeFrame P.encodeResponse reply with
    | .error _ => .error (.ipc .other)
    | .ok _ =>
      match Ipc.acceptResponse requestId (.splade model texts maxSeqLen topK minWeight) reply with
      | .ok resp => .ok resp
      | .error e => .error (.ipc e)

/-- The item of a text, from the pairs that the worker sent. -/
def workerItem (topK : UInt64) (minWeight : F) (index : ℕ) (pairs : List (Entry F)) :
    SparseEmbeddingItem F :=
  let kept := pairs.filter fun p => A.gt p.2 minWeight
  { index
    indices := (kept.map Prod.fst).take topK.toNat
    values := (kept.map Prod.snd).take topK.toNat }

/-- The reply to what the dispatch returns. -/
def workerResult (modelName : String) (topK : UInt64) (minWeight : F) :
    Except DispatchError (Ipc.WorkerResponse F) → Reply F
  | .ok (.splade s) =>
    .ok ⟨modelName, s.sparse.zipIdx.map fun p => workerItem A topK minWeight p.2 p.1⟩
  | .ok (.err _ _) => .error (serverError "splade failed")
  | .ok _ => .error (serverError "splade failed: unexpected response kind")
  | .error (.timeout _ _) =>
    .error ⟨503, some "5", .detail "splade failed: worker respawning" "worker_unavailable"⟩
  | .error _ => .error (serverError "splade failed")

/-- The handler with a worker pool: `top_k as u32` keeps the low half of the limit. -/
def workerPath (P : Ipc.Postcard F) (requestId : UInt64) (joinErr : String) (cursors : List ℕ)
    (modelName : String) (texts : List String) (topK : UInt64) (minWeight : F) : Reply F :=
  workerResult A modelName topK minWeight
    (dispatchSplade A S M sessions tokenizer P requestId joinErr cursors modelName texts 0
      topK.toUInt32 minWeight)

/-! ### The path in process -/

/-- The item of a text, from its entries. -/
def directItem (index : ℕ) (entries : List (Entry F)) : SparseEmbeddingItem F :=
  ⟨index, entries.map Prod.fst, entries.map Prod.snd⟩

/-- The loop over the texts. -/
def inProcessLoop (joinErr : String) (topK : UInt64) (minWeight : F) :
    List ℕ → List (String × ℕ) → Except HttpError (List (SparseEmbeddingItem F))
  | _, [] => .ok []
  | cursors, (text, index) :: texts =>
    match encodeText A S M sessions tokenizer (cursors.headD 0) topK minWeight text with
    | .error (.err e) => .error (serverError e)
    | .error .panic => .error (serverError s!"splade task panicked: {joinErr}")
    | .ok entries =>
      match inProcessLoop joinErr topK minWeight cursors.tail texts with
      | .error e => .error e
      | .ok data => .ok (directItem index entries :: data)

/-- The handler without a worker pool. -/
def inProcessPath (joinErr : String) (cursors : List ℕ) (modelName : String)
    (texts : List String) (topK : UInt64) (minWeight : F) : Reply F :=
  match inProcessLoop A S M sessions tokenizer joinErr topK minWeight cursors texts.zipIdx with
  | .ok data => .ok ⟨modelName, data⟩
  | .error e => .error e

/-- `sparse_embeddings`, with one of the two paths. -/
def sparseEmbeddings (app : AppState) (req : SparseEmbeddingsRequest F)
    (path : String → List String → UInt64 → F → Reply F) : Reply F :=
  match accept app req with
  | .error e => .error e
  | .ok modelName =>
    path modelName req.input (req.topK.getD defaultTopK) (req.minWeight.getD A.zero)

/-! ### The entries that the paths keep -/

/-- What the worker path keeps of the active entries of a text. -/
def workerEntries (topK : UInt64) (entries : List (Entry F)) : List (Entry F) :=
  (topEntries A S (effectiveTopK topK.toUInt32).toNat entries).take topK.toNat

/-- What the path in process keeps. -/
def directEntries (topK : UInt64) (entries : List (Entry F)) : List (Entry F) :=
  if topK = 0 then [] else topEntries A S topK.toNat entries

/-- Of entries with the same weight, the selection keeps the first ones, in their order. -/
def SelectsInOrder (k : ℕ) (entries : List (Entry F)) : Prop :=
  ((S.select (k - 1) entries).take k).insertionSort (Heavier A) =
    (entries.insertionSort (Heavier A)).take k

/-- The limit passes through 32 bits, or it does not matter that it does not: no more entries are
active than its low half, which is not `0`; or the low half is `0`, so that the worker does not
limit at all, and no more entries are active than the limit. When more are, of which there are more
than `2 ^ 32` then, the selection in process has to be in order. -/
def LimitsAgree (topK : UInt64) (entries : List (Entry F)) : Prop :=
  topK.toNat < 2 ^ 32 ∨
  (topK.toUInt32 ≠ 0 ∧ entries.length ≤ topK.toUInt32.toNat) ∨
  (topK.toUInt32 = 0 ∧ (entries.length ≤ topK.toNat ∨ SelectsInOrder A S topK.toNat entries))

instance [DecidableEq F] (k : ℕ) (entries : List (Entry F)) :
    Decidable (SelectsInOrder A S k entries) := inferInstanceAs (Decidable (_ = _))

instance [DecidableEq F] (topK : UInt64) (entries : List (Entry F)) :
    Decidable (LimitsAgree A S topK entries) := inferInstanceAs (Decidable (_ ∨ _ ∨ _))

variable {A S M sessions tokenizer} {entries : List (Entry F)} {topK : UInt64} {k : ℕ}

theorem toNat_toUInt32 (topK : UInt64) : topK.toUInt32.toNat = topK.toNat % 2 ^ 32 :=
  UInt64.toNat_toUInt32 topK

theorem toNat_effectiveTopK (topK : UInt32) :
    (effectiveTopK topK).toNat = if topK = 0 then 2 ^ 64 - 1 else topK.toNat := by
  rw [effectiveTopK]
  split <;> rfl

/-- A limit below `2 ^ 32` passes unchanged. -/
theorem workerEntries_of_lt (h : topK.toNat < 2 ^ 32) :
    workerEntries A S topK entries = directEntries A S topK entries := by
  have hnat : topK.toUInt32.toNat = topK.toNat := by
    rw [toNat_toUInt32, Nat.mod_eq_of_lt h]
  rw [workerEntries, directEntries]
  split
  next hzero => rw [hzero, show (0 : UInt64).toNat = 0 from rfl, List.take_zero]
  next hzero =>
    have hlow : topK.toUInt32 ≠ 0 := by
      intro hlow
      rw [hlow] at hnat
      exact hzero (UInt64.toNat_inj.1 hnat.symm)
    have heffective : (effectiveTopK topK.toUInt32).toNat = topK.toNat := by
      rw [toNat_effectiveTopK, if_neg hlow, hnat]
    rw [heffective, List.take_of_length_le]
    rw [length_topEntries]
    omega

/-- **When the two paths keep the same entries of a text.** -/
theorem workerEntries_eq_directEntries_iff (hlen : entries.length < 2 ^ 64) :
    workerEntries A S topK entries = directEntries A S topK entries ↔
      LimitsAgree A S topK entries := by
  by_cases hlt : topK.toNat < 2 ^ 32
  · exact iff_of_true (workerEntries_of_lt hlt) (.inl hlt)
  have hne : topK ≠ 0 := by
    rintro rfl
    exact hlt (by decide)
  have hnat := toNat_toUInt32 topK
  have hmod := Nat.mod_lt topK.toNat (show 0 < 2 ^ 32 by decide)
  rw [workerEntries, directEntries, if_neg hne, toNat_effectiveTopK, LimitsAgree]
  simp only [hlt, false_or]
  by_cases hlow : topK.toUInt32 = 0
  · have hsort : topEntries A S (2 ^ 64 - 1) entries = entries.insertionSort (Heavier A) :=
      topEntries_of_le (by omega)
    rw [if_pos hlow, hsort]
    simp only [hlow, ne_eq, not_true_eq_false, false_and, false_or, true_and]
    by_cases hle : entries.length ≤ topK.toNat
    · refine iff_of_true ?_ (.inl hle)
      rw [topEntries_of_le hle, List.take_of_length_le (by rwa [List.length_insertionSort])]
    · rw [topEntries, if_pos (by omega), SelectsInOrder]
      simp only [hle, false_or]
      exact eq_comm
  · rw [if_neg hlow]
    simp only [hlow, ne_eq, not_false_eq_true, true_and, false_and, or_false]
    constructor
    · intro heq
      have hcount := congrArg List.length heq
      rw [List.length_take, length_topEntries, length_topEntries] at hcount
      omega
    · intro hle
      rw [topEntries_of_le hle, topEntries_of_le (by omega),
        List.take_of_length_le (by rw [List.length_insertionSort]; omega)]

/-! ### The replies -/

/-- What `encodeText` keeps of a text with the tokens `ids`. -/
def keptEntries (A : SpladeArith F) (S : SelectNth A) (M : SpladeModel)
    (graph : Inputs → ArrayViewD F) (topK : UInt64) (minWeight : F) (ids : List UInt32) :
    List (Entry F) :=
  if ids = [] then [] else directEntries A S topK (activeEntries A M graph minWeight ids)

/-- The vectors of a worker for texts that all have tokens. -/
def workerSparse (A : SpladeArith F) (S : SelectNth A) (M : SpladeModel) (tokenizer : Tokenizer)
    (graph : Inputs → ArrayViewD F) (topK : UInt64) (minWeight : F) (texts : List String) :
    List (List (Entry F)) :=
  texts.map fun text =>
    match tokenize M tokenizer text with
    | .ok ids => keptEntries A S M graph (effectiveTopK topK.toUInt32) minWeight ids
    | .error _ => []

/-- The request to the worker and the reply with these vectors are not above the cap of a frame. -/
def FitsFrames (P : Ipc.Postcard F) (requestId : UInt64) (modelName : String)
    (texts : List String) (topK : UInt64) (minWeight : F) (sparse : List (List (Entry F))) : Prop :=
  (P.encodeRequest (.splade ⟨requestId, modelName, texts, 0, topK.toUInt32, minWeight⟩)).length ≤
    Ipc.maxFrameBytes ∧
  (P.encodeResponse (.splade ⟨requestId, sparse⟩)).length ≤ Ipc.maxFrameBytes

/-- The two deployments fail at a text; or the messages of the worker fit into frames, and both
keep the same entries of all texts. -/
def AgreeOn (A : SpladeArith F) (S : SelectNth A) (M : SpladeModel) (tokenizer : Tokenizer)
    (graph : Inputs → ArrayViewD F) (P : Ipc.Postcard F) (requestId : UInt64) (modelName : String)
    (topK : UInt64) (minWeight : F) (texts : List String) : Prop :=
  (∃ text ∈ texts, ∃ e, tokenize M tokenizer text = .error e) ∨
  (FitsFrames P requestId modelName texts topK minWeight
      (workerSparse A S M tokenizer graph topK minWeight texts) ∧
    ∀ text ∈ texts, ∀ ids, tokenize M tokenizer text = .ok ids →
      ids = [] ∨ LimitsAgree A S topK (activeEntries A M graph minWeight ids))

section Replies

variable {graph : Inputs → ArrayViewD F} {minWeight : F} {text : String} {ids : List UInt32}
  {cursors : List ℕ} {texts : List String} {joinErr modelName : String}

theorem effectiveTopK_ne_zero (topK : UInt32) : effectiveTopK topK ≠ 0 := by
  intro h
  have hnat := toNat_effectiveTopK topK
  rw [h] at hnat
  split at hnat
  · cases hnat
  next hne => exact hne (UInt32.toNat_inj.1 hnat.symm)

section Compute

variable (hgraph : sessions.Compute M graph) (hM : M.sessions ≠ 0)

include hgraph hM

theorem encodeText_of_ok (cursor : ℕ) (topK : UInt64) (minWeight : F)
    (htext : tokenize M tokenizer text = .ok ids) :
    encodeText A S M sessions tokenizer cursor topK minWeight text =
      .ok (keptEntries A S M graph topK minWeight ids) := by
  rw [encodeText, htext]
  dsimp only
  rw [keptEntries]
  split
  next hids => rw [encodeSparse, if_pos hids]
  next hids =>
    rw [directEntries]
    split
    next hzero => rw [encodeSparse, if_neg hids, if_pos hzero]
    next hzero => exact encodeSparse_of_compute hgraph hM cursor hids hzero minWeight

/-- The worker's vectors, when all texts have tokens. -/
theorem encodeTexts_of_ok {ids : String → List UInt32} (cursors : List ℕ)
    (htexts : ∀ text ∈ texts, tokenize M tokenizer text = .ok (ids text)) :
    encodeTexts A S M sessions tokenizer topK minWeight cursors texts =
      .ok (texts.map fun text => keptEntries A S M graph topK minWeight (ids text)) := by
  induction texts generalizing cursors with
  | nil => rfl
  | cons text texts ih =>
    rw [encodeTexts, encodeText_of_ok hgraph hM _ _ _ (htexts text List.mem_cons_self),
      ih cursors.tail fun text htext => htexts text (List.mem_cons_of_mem _ htext)]
    rfl

theorem inProcessLoop_of_ok {ids : String → List UInt32} (cursors : List ℕ) (start : ℕ)
    (htexts : ∀ text ∈ texts, tokenize M tokenizer text = .ok (ids text)) :
    inProcessLoop A S M sessions tokenizer joinErr topK minWeight cursors (texts.zipIdx start) =
      .ok ((texts.zipIdx start).map fun p =>
        directItem p.2 (keptEntries A S M graph topK minWeight (ids p.1))) := by
  induction texts generalizing cursors start with
  | nil => rfl
  | cons text texts ih =>
    rw [List.zipIdx_cons, inProcessLoop,
      encodeText_of_ok hgraph hM _ _ _ (htexts text List.mem_cons_self)]
    dsimp only
    rw [ih cursors.tail (start + 1) fun text htext => htexts text (List.mem_cons_of_mem _ htext)]
    rfl

theorem encodeTexts_of_error (cursors : List ℕ)
    (htexts : ∃ text ∈ texts, ∃ e, tokenize M tokenizer text = .error e) :
    ∃ e, encodeTexts A S M sessions tokenizer topK minWeight cursors texts = .error (.err e) := by
  induction texts generalizing cursors with
  | nil =>
    obtain ⟨text, hmem, -⟩ := htexts
    cases hmem
  | cons text texts ih =>
    rw [encodeTexts]
    match htext : tokenize M tokenizer text with
    | .error e =>
      refine ⟨e, ?_⟩
      rw [encodeText, htext]
    | .ok ids =>
      obtain ⟨text', hmem, e, he⟩ := htexts
      rcases List.mem_cons.1 hmem with rfl | hmem
      · rw [htext] at he
        cases he
      obtain ⟨e', he'⟩ := ih cursors.tail ⟨text', hmem, e, he⟩
      refine ⟨e', ?_⟩
      rw [encodeText_of_ok hgraph hM _ _ _ htext, he']

theorem inProcessLoop_of_error (cursors : List ℕ) (start : ℕ)
    (htexts : ∃ text ∈ texts, ∃ e, tokenize M tokenizer text = .error e) :
    ∃ e, inProcessLoop A S M sessions tokenizer joinErr topK minWeight cursors
      (texts.zipIdx start) = .error e := by
  induction texts generalizing cursors start with
  | nil =>
    obtain ⟨text, hmem, -⟩ := htexts
    cases hmem
  | cons text texts ih =>
    rw [List.zipIdx_cons, inProcessLoop]
    match htext : tokenize M tokenizer text with
    | .error e =>
      refine ⟨serverError e, ?_⟩
      rw [encodeText, htext]
    | .ok ids =>
      obtain ⟨text', hmem, e, he⟩ := htexts
      rcases List.mem_cons.1 hmem with rfl | hmem
      · rw [htext] at he
        cases he
      obtain ⟨e', he'⟩ := ih cursors.tail (start + 1) ⟨text', hmem, e, he⟩
      refine ⟨e', ?_⟩
      rw [encodeText_of_ok hgraph hM _ _ _ htext, he']

end Compute

/-- The reply of the worker path to the vectors of the worker: an error, when the request or the
reply is above the cap. -/
theorem workerPath_of_ok (P : Ipc.Postcard F) (requestId : UInt64) (joinErr modelName : String)
    {sparse : List (List (Entry F))} (hlen : sparse.length = texts.length)
    (hencode : encode A S M sessions tokenizer cursors texts 0 topK.toUInt32 minWeight =
      .ok sparse) :
    (FitsFrames P requestId modelName texts topK minWeight sparse →
      workerPath A S M sessions tokenizer P requestId joinErr cursors modelName texts topK
        minWeight =
          .ok ⟨modelName, sparse.zipIdx.map fun p => workerItem A topK minWeight p.2 p.1⟩) ∧
    (¬ FitsFrames P requestId modelName texts topK minWeight sparse →
      workerPath A S M sessions tokenizer P requestId joinErr cursors modelName texts topK
        minWeight = .error (serverError "splade failed")) := by
  have hreply : workerReply A S M sessions tokenizer joinErr cursors
      ⟨requestId, modelName, texts, 0, topK.toUInt32, minWeight⟩ =
        .splade ⟨requestId, sparse⟩ := by
    simp only [workerReply, hencode, Ipc.inferenceReply, spladeModel, Ipc.LoadedModel.respond]
  rw [workerPath, dispatchSplade]
  dsimp only
  rw [hreply]
  constructor
  · rintro ⟨hrequest, hresponse⟩
    rw [Ipc.writeFrame_eq_ok_iff.2 ⟨hrequest, rfl⟩, Ipc.writeFrame_eq_ok_iff.2 ⟨hresponse, rfl⟩]
    simp [Ipc.acceptResponse, Ipc.WorkerResponse.requestId, Ipc.Dispatch.check, Ipc.checkOutputs,
      hlen, workerResult]
  · intro hfits
    rw [FitsFrames, not_and_or, not_le, not_le] at hfits
    rcases hfits with hrequest | hresponse
    · rw [Ipc.writeFrame_eq_error_iff.2 ⟨hrequest, rfl⟩]
      rfl
    · cases hwrite : Ipc.writeFrame P.encodeRequest
          (.splade ⟨requestId, modelName, texts, 0, topK.toUInt32, minWeight⟩) with
      | error e => rfl
      | ok bytes =>
        dsimp only
        rw [Ipc.writeFrame_eq_error_iff.2 ⟨hresponse, rfl⟩]
        rfl

/-- A text without tokens is an error, whatever the sizes of the messages are. -/
theorem workerPath_of_error {P : Ipc.Postcard F} {requestId : UInt64} {e : String}
    (hencode : encode A S M sessions tokenizer cursors texts 0 topK.toUInt32 minWeight =
      .error (.err e)) :
    workerPath A S M sessions tokenizer P requestId joinErr cursors modelName texts topK minWeight =
      .error (serverError "splade failed") := by
  have hreply : workerReply A S M sessions tokenizer joinErr cursors
      ⟨requestId, modelName, texts, 0, topK.toUInt32, minWeight⟩ = .err requestId e := by
    simp only [workerReply, hencode, Ipc.inferenceReply, spladeModel, Ipc.LoadedModel.respond]
  rw [workerPath, dispatchSplade]
  dsimp only
  rw [hreply]
  split
  · rfl
  · split
    · rfl
    · simp [Ipc.acceptResponse, Ipc.WorkerResponse.requestId, Ipc.Dispatch.check, workerResult]

theorem eq_of_map_eq {l l' : List (Entry F)} (hfst : l.map Prod.fst = l'.map Prod.fst)
    (hsnd : l.map Prod.snd = l'.map Prod.snd) : l = l' := by
  rw [← List.zip_unzip l, ← List.zip_unzip l', List.unzip_fst, List.unzip_snd, List.unzip_fst,
    List.unzip_snd, hfst, hsnd]

theorem directItem_inj {index : ℕ} {l l' : List (Entry F)} :
    directItem index l = directItem index l' ↔ l = l' := by
  refine ⟨fun h => ?_, fun h => h ▸ rfl⟩
  obtain ⟨-, hfst, hsnd⟩ := SparseEmbeddingItem.mk.inj h
  exact eq_of_map_eq hfst hsnd

/-- The handler's own filter drops nothing. -/
theorem workerItem_eq {index : ℕ} {pairs : List (Entry F)}
    (hgt : ∀ e ∈ pairs, A.gt e.2 minWeight = true) :
    workerItem A topK minWeight index pairs = directItem index (pairs.take topK.toNat) := by
  rw [workerItem, List.filter_eq_self.2 hgt, directItem, List.map_take, List.map_take]

/-- What the worker path returns for a text. -/
theorem workerItem_kept (hgraph : sessions.Compute M graph) (hM : M.sessions ≠ 0) (index : ℕ)
    (topK : UInt64) (ids : List UInt32) :
    workerItem A topK minWeight index
        (keptEntries A S M graph (effectiveTopK topK.toUInt32) minWeight ids) =
      directItem index (if ids = [] then []
        else workerEntries A S topK (activeEntries A M graph minWeight ids)) := by
  rw [keptEntries]
  split
  · rw [workerItem_eq (by simp), List.take_nil]
  · rw [directEntries, if_neg (effectiveTopK_ne_zero _), workerItem_eq fun e he =>
      gt_of_mem_activeEntries hgraph hM (mem_of_mem_topEntries he), workerEntries]

end Replies

/-- The model with a pool of another size. -/
def SpladeModel.withPool (M : SpladeModel) (count : ℕ) : SpladeModel :=
  { M with sessions := count }

/-- When the two deployments return the same entries of a text. -/
theorem workerItem_eq_directItem_iff {graph : Inputs → ArrayViewD F} {workerPool pool : ℕ}
    {workerSessions : Sessions F} (hworkerPool : workerPool ≠ 0) (hpool : pool ≠ 0)
    (hworker : workerSessions.Compute (M.withPool workerPool) graph)
    (hsessions : sessions.Compute (M.withPool pool) graph) (topK : UInt64) (minWeight : F)
    (index : ℕ) (ids : List UInt32) :
    workerItem A topK minWeight index (keptEntries A S (M.withPool workerPool) graph
        (effectiveTopK topK.toUInt32) minWeight ids) =
      directItem index (keptEntries A S (M.withPool pool) graph topK minWeight ids) ↔
    (ids = [] ∨ LimitsAgree A S topK (activeEntries A M graph minWeight ids)) := by
  rw [workerItem_kept hworker hworkerPool, directItem_inj, keptEntries]
  by_cases hnil : ids = []
  · rw [if_pos hnil, if_pos hnil]
    exact iff_of_true rfl (.inl hnil)
  · rw [if_neg hnil, if_neg hnil]
    simp only [hnil, false_or]
    exact workerEntries_eq_directEntries_iff
      (length_activeEntries_lt hsessions hpool minWeight ids)

theorem exists_tokens {tokenizer : Tokenizer} {texts : List String}
    (hfail : ¬ ∃ text ∈ texts, ∃ e, tokenize M tokenizer text = .error e) :
    ∃ ids : String → List UInt32, ∀ text ∈ texts, tokenize M tokenizer text = .ok (ids text) := by
  have hids : ∀ text, ∃ ids, text ∈ texts → tokenize M tokenizer text = .ok ids := by
    intro text
    match htext : tokenize M tokenizer text with
    | .ok ids => exact ⟨ids, fun _ => rfl⟩
    | .error e => exact ⟨[], fun hmem => absurd ⟨text, hmem, e, htext⟩ hfail⟩
  choose ids hids using hids
  exact ⟨ids, hids⟩

theorem workerSparse_eq {graph : Inputs → ArrayViewD F} {texts : List String} {minWeight : F}
    {ids : String → List UInt32}
    (hids : ∀ text ∈ texts, tokenize M tokenizer text = .ok (ids text)) :
    workerSparse A S M tokenizer graph topK minWeight texts = texts.map fun text =>
      keptEntries A S M graph (effectiveTopK topK.toUInt32) minWeight (ids text) :=
  List.map_congr_left fun text hmem => by rw [hids text hmem]

/-- When the two deployments return the same entries of texts that have tokens. -/
theorem data_eq_iff_of_tokens {graph : Inputs → ArrayViewD F} {workerPool pool : ℕ}
    {workerSessions : Sessions F} (hworkerPool : workerPool ≠ 0) (hpool : pool ≠ 0)
    (hworker : workerSessions.Compute (M.withPool workerPool) graph)
    (hsessions : sessions.Compute (M.withPool pool) graph) (P : Ipc.Postcard F)
    (requestId : UInt64) (workerJoinErr joinErr modelName : String)
    (workerCursors cursors : List ℕ) (topK : UInt64) (minWeight : F) {texts : List String}
    {ids : String → List UInt32}
    (hids : ∀ text ∈ texts, tokenize M tokenizer text = .ok (ids text)) :
    (workerPath A S (M.withPool workerPool) workerSessions tokenizer P requestId workerJoinErr
        workerCursors modelName texts topK minWeight).data =
      (inProcessPath A S (M.withPool pool) sessions tokenizer joinErr cursors modelName texts topK
        minWeight).data ↔
    FitsFrames P requestId modelName texts topK minWeight
        (workerSparse A S M tokenizer graph topK minWeight texts) ∧
      ∀ text ∈ texts, ids text = [] ∨
        LimitsAgree A S topK (activeEntries A M graph minWeight (ids text)) := by
  have hworkerTexts : encodeTexts A S (M.withPool workerPool) workerSessions tokenizer
      (effectiveTopK topK.toUInt32) minWeight workerCursors texts =
      .ok (texts.map fun text => keptEntries A S (M.withPool workerPool) graph
        (effectiveTopK topK.toUInt32) minWeight (ids text)) :=
    encodeTexts_of_ok hworker hworkerPool workerCursors hids
  obtain ⟨hfits, htooLarge⟩ := workerPath_of_ok P requestId workerJoinErr modelName (by simp)
    hworkerTexts
  have hsparse : workerSparse A S M tokenizer graph topK minWeight texts =
      texts.map fun text => keptEntries A S (M.withPool workerPool) graph
        (effectiveTopK topK.toUInt32) minWeight (ids text) := workerSparse_eq hids
  rw [← hsparse] at hfits htooLarge
  rw [inProcessPath, inProcessLoop_of_ok hsessions hpool cursors 0 hids]
  by_cases hcap : FitsFrames P requestId modelName texts topK minWeight
      (workerSparse A S M tokenizer graph topK minWeight texts)
  swap
  -- the worker path is an error, and the path in process is none
  · rw [htooLarge hcap]
    refine iff_of_false (fun h => ?_) fun h => hcap h.1
    cases h
  rw [hfits hcap, hsparse, Reply.data, Reply.data, Option.some.injEq, List.zipIdx_map,
    List.map_map, List.map_inj_left]
  simp only [← hsparse, hcap, true_and, Function.comp_apply, Prod.map]
  have hitem (text : String) (index : ℕ) := workerItem_eq_directItem_iff (A := A) (S := S)
    hworkerPool hpool hworker hsessions topK minWeight index (ids text)
  constructor
  · intro hitems text hmem
    obtain ⟨i, hi, htext⟩ := List.getElem_of_mem hmem
    refine (hitem text i).1 (hitems (text, i) ?_)
    rw [List.mk_mem_zipIdx_iff_getElem?, ← htext, List.getElem?_eq_getElem]
  · intro hlimits p hp
    exact (hitem p.1 p.2).2 (hlimits p.1 (List.fst_mem_of_mem_zipIdx hp))

/-- **When the two deployments return the same indices and values**, for every request that is
accepted and every graph. -/
theorem modes_agree_iff (A : SpladeArith F) (S : SelectNth A) (M : SpladeModel)
    (graph : Inputs → ArrayViewD F) (tokenizer : Tokenizer) (P : Ipc.Postcard F)
    {workerPool pool : ℕ} {workerSessions sessions : Sessions F} (hworkerPool : workerPool ≠ 0)
    (hpool : pool ≠ 0) (hworker : workerSessions.Compute (M.withPool workerPool) graph)
    (hsessions : sessions.Compute (M.withPool pool) graph) (app : AppState)
    (req : SparseEmbeddingsRequest F) {modelName : String}
    (haccept : accept app req = .ok modelName) (requestId : UInt64)
    (workerJoinErr joinErr : String) (workerCursors cursors : List ℕ) :
    (sparseEmbeddings A app req (workerPath A S (M.withPool workerPool) workerSessions tokenizer P
        requestId workerJoinErr workerCursors)).data =
      (sparseEmbeddings A app req (inProcessPath A S (M.withPool pool) sessions tokenizer joinErr
        cursors)).data ↔
    AgreeOn A S M tokenizer graph P requestId modelName (req.topK.getD defaultTopK)
      (req.minWeight.getD A.zero) req.input := by
  generalize htopK : req.topK.getD defaultTopK = topK
  generalize hminWeight : req.minWeight.getD A.zero = minWeight
  rw [sparseEmbeddings, sparseEmbeddings, haccept]
  dsimp only
  rw [htopK, hminWeight]
  by_cases hfail : ∃ text ∈ req.input, ∃ e, tokenize M tokenizer text = .error e
  · obtain ⟨e, he⟩ : ∃ e, encodeTexts A S (M.withPool workerPool) workerSessions tokenizer
        (effectiveTopK topK.toUInt32) minWeight workerCursors req.input = .error (.err e) :=
      encodeTexts_of_error hworker hworkerPool workerCursors hfail
    obtain ⟨e', he'⟩ : ∃ e, inProcessLoop A S (M.withPool pool) sessions tokenizer joinErr topK
        minWeight cursors (req.input.zipIdx 0) = .error e :=
      inProcessLoop_of_error hsessions hpool cursors 0 hfail
    rw [workerPath_of_error he, inProcessPath, he']
    exact iff_of_true rfl (.inl hfail)
  · obtain ⟨ids, hids⟩ := exists_tokens hfail
    rw [data_eq_iff_of_tokens hworkerPool hpool hworker hsessions P requestId workerJoinErr joinErr
      modelName workerCursors cursors topK minWeight hids, AgreeOn, or_iff_right hfail]
    refine and_congr_right fun _ => ⟨fun h text hmem ids' hids' => ?_, fun h text hmem =>
      h text hmem _ (hids text hmem)⟩
    obtain rfl := Except.ok.inj ((hids text hmem).symm.trans hids')
    exact h text hmem

/-! ### A limit above 32 bits -/

/-- `f32` by its bits, on `0`, `1` and what a logit of `1` leads to: `1 + 1` is `2`, whose `ln` is
rounded. -/
def bitsArith : SpladeArith UInt32 where
  zero := 0
  one := 0x3F800000
  ofInt i := if i = 0 then 0 else 0x3F800000
  add x y := if x = 0 then y else if y = 0 then x else 0x40000000
  mul x y := if x = 0x3F800000 then y else if y = 0x3F800000 then x else 0
  ln x := if x = 0x40000000 then 0x3F317218 else 0
  isZero x := decide (x = 0)
  gt x y := decide (TotalCmp.totalKey y.toBitVec < TotalCmp.totalKey x.toBitVec)
  totalCmp x y := compare (TotalCmp.totalKey x.toBitVec) (TotalCmp.totalKey y.toBitVec)

/-- Selection by sorting. -/
def bitsSelect : SelectNth bitsArith :=
  sortSelect (show bitsArith.ComparesBy fun x => TotalCmp.totalKey x.toBitVec from fun _ _ => rfl)

/-- A model with two terms in its vocabulary. -/
def twoTerms : SpladeModel := ⟨512, 2, 1⟩

/-- All its logits are `1`. -/
def twoTermsGraph (x : Inputs) : ArrayViewD UInt32 :=
  ⟨[(1, 2 * x.inputIds.cols), (x.inputIds.cols, 2), (2, 1)], fun _ => 0x3F800000⟩

def twoTermsSessions : Sessions UInt32 := fun _ x => .logits (twoTermsGraph x)

def twoTermsTokenizer : Tokenizer := fun _ => .ok [101, 4937, 102]

theorem twoTermsSessions_compute (pool : ℕ) :
    twoTermsSessions.Compute (twoTerms.withPool pool) twoTermsGraph :=
  ⟨fun _ _ => rfl, fun _ => rfl⟩

def twoTermsApp : AppState := ⟨["splade"], false⟩

def catRequest (topK : UInt64) : SparseEmbeddingsRequest UInt32 := ⟨none, ["cat"], some topK, none⟩

/-- The two deployments at a limit. -/
def twoTermsReplies (topK : UInt64) : Reply UInt32 × Reply UInt32 :=
  (sparseEmbeddings bitsArith twoTermsApp (catRequest topK)
    (workerPath bitsArith bitsSelect (twoTerms.withPool 1) twoTermsSessions twoTermsTokenizer
      .wireFormat 1 "" [0]),
   sparseEmbeddings bitsArith twoTermsApp (catRequest topK)
    (inProcessPath bitsArith bitsSelect (twoTerms.withPool 1) twoTermsSessions twoTermsTokenizer ""
      [0]))

/-- With the limit `2 ^ 32 + 1` the worker path drops one of two active terms. -/
theorem modes_disagree :
    (twoTermsReplies (2 ^ 32 + 1)).1.data = some [⟨0, [0], [0x3F317218]⟩] ∧
    (twoTermsReplies (2 ^ 32 + 1)).2.data = some [⟨0, [0, 1], [0x3F317218, 0x3F317218]⟩] := by
  decide +kernel

/-- With the limit `2 ^ 32` both return the two terms. -/
theorem modes_agree_iff_two_terms :
    (twoTermsReplies (2 ^ 32)).1.data = (twoTermsReplies (2 ^ 32)).2.data :=
  (modes_agree_iff bitsArith bitsSelect twoTerms twoTermsGraph twoTermsTokenizer .wireFormat
    (by decide) (by decide) (twoTermsSessions_compute 1) (twoTermsSessions_compute 1) twoTermsApp
    (catRequest (2 ^ 32)) (show accept twoTermsApp (catRequest (2 ^ 32)) = .ok "splade" by decide)
    1 "" "" [0] [0]).2
    (.inr ⟨⟨by decide +kernel, by decide +kernel⟩, fun text hmem ids hids => by
      obtain rfl := List.mem_singleton.1 hmem
      obtain rfl := Except.ok.inj hids
      exact .inr (by decide +kernel)⟩)

end OxEmbed.Splade

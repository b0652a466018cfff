import OxEmbed.Ipc.Replies
import OxEmbed.Splade.Modes

/-!
# The sparse vectors over the socket

A reply of `POST /embed_sparse` with status 200 that came through a worker process is the one that
the server would have computed itself, whatever the calls, cancellations, kills and respawns on the
sockets are between the request and its response. The limit has to pass through 32 bits.

## Main definitions

* `IsSplade` : the models that a worker runs, one for each stand of its cursor.
* `Returned`, `Served` : a response to a request, and what is to hold of the reply to it.

## Main results

* `served_of_reachable` : every reply over the socket is served.
-/

namespace OxEmbed.Splade

open Pooling

variable {F : Type} (A : SpladeArith F) (S : SelectNth A) (M : SpladeModel)

/-- A model is the loaded one, with the values of its cursor at the texts of one call. -/
def IsSplade (sessions : Sessions F) (tokenizer : Tokenizer) (m : Ipc.LoadedModel F) : Prop :=
  ∃ cursors, m = spladeModel A S M sessions tokenizer cursors

/-- The worker `w` has answered the call of a request, and the pool returns the response. -/
def Returned (s : Ipc.State F) (w : ℕ) (modelName : String) (texts : List String) (topK : UInt64)
    (minWeight : F) (resp : Ipc.WorkerResponse F) : Prop :=
  ∃ i call c k, s.calls i = some call ∧
    call.dispatch = .splade modelName texts 0 topK.toUInt32 minWeight ∧
    call.phase = .returned (some c) (.ok resp) ∧ s.conns c = some k ∧ k.worker = w

/-- The reply to a response is an error, or the reply that any pool of sessions in process gives. -/
def Served (graph : Inputs → ArrayViewD F) (tokenizer : Tokenizer) (modelName : String)
    (texts : List String) (topK : UInt64) (minWeight : F) (resp : Ipc.WorkerResponse F) : Prop :=
  (∃ e, workerResult A modelName topK minWeight (.ok resp) = .error e) ∨
    ∀ (pool : ℕ) (sessions : Sessions F) (joinErr : String) (cursors : List ℕ), pool ≠ 0 →
      sessions.Compute (M.withPool pool) graph →
      workerResult A modelName topK minWeight (.ok resp) =
        inProcessPath A S (M.withPool pool) sessions tokenizer joinErr cursors modelName texts topK
          minWeight

variable {A S M} {graph : Inputs → ArrayViewD F} {tokenizer : Tokenizer} {P : Ipc.Postcard F}
  {s : Ipc.State F} {w workerPool : ℕ} {workerSessions : Sessions F} {modelName : String}
  {texts : List String} {topK : UInt64} {minWeight : F} {resp : Ipc.WorkerResponse F}

/-- What the worker computes for the texts is what the path in process returns. -/
theorem served_of_encode {requestId : UInt64} {cursors : List ℕ}
    {sparse : List (List (Entry F))} (hworkerPool : workerPool ≠ 0)
    (hworker : workerSessions.Compute (M.withPool workerPool) graph)
    (hlimits : ∀ text ∈ texts, ∀ ids, tokenize M tokenizer text = .ok ids →
      ids = [] ∨ LimitsAgree A S topK (activeEntries A M graph minWeight ids))
    (hencode : encode A S (M.withPool workerPool) workerSessions tokenizer cursors texts 0
      topK.toUInt32 minWeight = .ok sparse) :
    Served A S M graph tokenizer modelName texts topK minWeight (.splade ⟨requestId, sparse⟩) := by
  right
  intro pool sessions joinErr inProcess hpool hsessions
  have hfail : ¬ ∃ text ∈ texts, ∃ e, tokenize M tokenizer text = .error e := by
    intro hfail
    obtain ⟨e, he⟩ : ∃ e, encodeTexts A S (M.withPool workerPool) workerSessions tokenizer
        (effectiveTopK topK.toUInt32) minWeight cursors texts = .error (.err e) :=
      encodeTexts_of_error hworker hworkerPool cursors hfail
    rw [encode, he] at hencode
    cases hencode
  obtain ⟨ids, hids⟩ := exists_tokens hfail
  have htexts : encodeTexts A S (M.withPool workerPool) workerSessions tokenizer
      (effectiveTopK topK.toUInt32) minWeight cursors texts = .ok (texts.map fun text =>
        keptEntries A S (M.withPool workerPool) graph (effectiveTopK topK.toUInt32) minWeight
          (ids text)) := encodeTexts_of_ok hworker hworkerPool cursors hids
  rw [encode, htexts] at hencode
  obtain rfl := Except.ok.inj hencode
  have hloop : inProcessLoop A S (M.withPool pool) sessions tokenizer joinErr topK minWeight
      inProcess (texts.zipIdx 0) = .ok ((texts.zipIdx 0).map fun p => directItem p.2
        (keptEntries A S (M.withPool pool) graph topK minWeight (ids p.1))) :=
    inProcessLoop_of_ok hsessions hpool inProcess 0 hids
  rw [inProcessPath, hloop, workerResult, List.zipIdx_map, List.map_map]
  dsimp only
  congr 2
  refine List.map_congr_left fun p hp => ?_
  have hmem : p.1 ∈ texts := List.fst_mem_of_mem_zipIdx hp
  exact (workerItem_eq_directItem_iff hworkerPool hpool hworker hsessions topK minWeight p.2
    (ids p.1)).2 (hlimits p.1 hmem _ (hids p.1 hmem))

/-- **Every reply over the socket is the one that the server would compute itself**, in every
reachable state of the socket protocol. -/
theorem served_of_reachable (hP : P.Lawful) (hworkerPool : workerPool ≠ 0)
    (hworker : workerSessions.Compute (M.withPool workerPool) graph)
    (hs : (Ipc.machine P).Reachable
      (Ipc.Runs (IsSplade A S (M.withPool workerPool) workerSessions tokenizer) w) s)
    (hreturned : Returned s w modelName texts topK minWeight resp)
    (hlimits : ∀ text ∈ texts, ∀ ids, tokenize M tokenizer text = .ok ids →
      ids = [] ∨ LimitsAgree A S topK (activeEntries A M graph minWeight ids)) :
    Served A S M graph tokenizer modelName texts topK minWeight resp := by
  obtain ⟨i, call, c, k, hi, hdispatch, hphase, hc, hk⟩ := hreturned
  obtain ⟨hreply, -⟩ := Ipc.reply_of_returned hP hs (fun _ _ h => h) hi hphase hc hk
  rcases hreply with ⟨id, message, rfl⟩ | ⟨m, ⟨cursors, rfl⟩, hresp⟩
  · exact .inl ⟨_, rfl⟩
  rw [Ipc.Call.request, hdispatch, Ipc.Dispatch.request, spladeModel,
    Ipc.LoadedModel.respond] at hresp
  cases hencode : encode A S (M.withPool workerPool) workerSessions tokenizer cursors texts 0
      topK.toUInt32 minWeight with
  | ok sparse =>
    simp only [hencode] at hresp
    rw [hresp]
    exact served_of_encode hworkerPool hworker hlimits hencode
  | error failure =>
    left
    cases failure <;> simp only [hencode] at hresp <;> exact hresp ▸ ⟨_, rfl⟩

/-- Words for the floats, with the identity for `ln`. -/
def wordArith : SpladeArith UInt32 where
  zero := 0
  one := 1
  ofInt i := UInt32.ofNat i.toNat
  add := (· + ·)
  mul := (· * ·)
  ln := id
  isZero x := decide (x = 0)
  gt x y := decide (y.toNat < x.toNat)
  totalCmp x y := compare x.toNat y.toNat

/-- Selection by sorting. -/
def wordSelect : SelectNth wordArith :=
  sortSelect (show wordArith.ComparesBy UInt32.toNat from fun _ _ => rfl)

/-- The logits of an entry of the vocabulary are its number, plus one. -/
def wordGraph (x : Inputs) : ArrayViewD UInt32 :=
  ⟨[(1, 2 * x.inputIds.cols), (x.inputIds.cols, 2), (2, 1)],
    fun o => UInt32.ofNat (o.toNat % 2 + 1)⟩

def wordSessions : Sessions UInt32 := fun _ x => .logits (wordGraph x)

theorem wordSessions_compute (pool : ℕ) :
    wordSessions.Compute (twoTerms.withPool pool) wordGraph := ⟨fun _ _ => rfl, fun _ => rfl⟩

/-- The action is no reply of the model. -/
def noInference : Ipc.Action UInt32 → Bool
  | .server _ (.inferred _) => false
  | _ => true

theorem runs_of_noInference {Q : Ipc.LoadedModel UInt32 → Prop} {w : ℕ} {s : Ipc.State UInt32}
    {a : Ipc.Action UInt32} (h : noInference a = true) : Ipc.Runs Q w s a := by
  unfold Ipc.Runs
  split
  · cases h
  · trivial

/-- The worker of the two terms, with its cursor at zero. -/
def wordModel : Ipc.LoadedModel UInt32 :=
  spladeModel wordArith wordSelect (twoTerms.withPool 1) wordSessions twoTermsTokenizer [0]

/-- The heavier one of the two terms, as the worker sends it. -/
def heaviest : Ipc.WorkerResponse UInt32 := .splade ⟨0, [[(1, 3)]]⟩

/-- A call is answered while another one to the same worker is cancelled. -/
theorem served_of_reachable_cancelled :
    ∃ s, Returned s 0 "splade" ["cat"] 1 0 heaviest ∧
      (s.calls 1).map Ipc.Call.phase = some .cancelled ∧
      workerResult wordArith "splade" 1 0 (.ok heaviest) = .ok ⟨"splade", [⟨0, [1], [3]⟩]⟩ ∧
      Served wordArith wordSelect twoTerms wordGraph twoTermsTokenizer "splade" ["cat"] 1 0
        heaviest := by
  obtain ⟨s₁, h₁, s₂, h₂, s, h₃, hcall, hworker, hcancelled⟩ :
      ∃ s₁ ∈ (Ipc.machine Ipc.Postcard.wireFormat).runUnder (fun _ a => noInference a = true) .start
        [.spawn 0 "splade" 8 1, .newClient 0 2,
          .begin 0 0 (.splade "splade" ["cat"] 0 1 0), .call 0 .acquire, .call 0 (.connect 0 0),
          .begin 1 0 (.splade "splade" ["dog"] 0 1 0), .call 1 .acquire, .call 1 (.connect 1 0),
          .call 1 (.send 3), .call 0 (.send 64), .call 0 .flush, .server 0 .accept,
          .server 1 .accept, .call 1 .cancel, .server 0 .read, .server 0 .fetchAdd,
          .server 0 .acquire, .server 0 .fetchSub],
        ∃ s₂ ∈ (Ipc.machine Ipc.Postcard.wireFormat).step s₁
            (.server 0 (.inferred (.ok wordModel))),
          ∃ s ∈ (Ipc.machine Ipc.Postcard.wireFormat).runUnder (fun _ a => noInference a = true) s₂
            [.server 0 (.write 64), .server 1 .readEnd, .call 0 .receive],
            s.calls 0 = some ⟨0, 0, .splade "splade" ["cat"] 0 1 0,
              .returned (some 0) (.ok heaviest)⟩ ∧
            (s.conns 0).map Ipc.Conn.worker = some 0 ∧
            (s.calls 1).map Ipc.Call.phase = some .cancelled := by
    decide +kernel
  obtain ⟨k, hk, hw⟩ := Option.map_eq_some_iff.1 hworker
  let Q := IsSplade wordArith wordSelect (twoTerms.withPool 1) wordSessions twoTermsTokenizer
  have hstart : (Ipc.machine Ipc.Postcard.wireFormat).Reachable (Ipc.Runs Q 0) s₁ :=
    (Machine.Reachable.of_runUnder rfl h₁).strengthen fun _ _ _ _ h _ => runs_of_noInference h
  have hinfer : (Ipc.machine Ipc.Postcard.wireFormat).Reachable (Ipc.Runs Q 0) s₂ :=
    hstart.step (a := .server 0 (.inferred (.ok wordModel))) (fun _ _ _ => ⟨[0], rfl⟩) h₂
  have hreach : (Ipc.machine Ipc.Postcard.wireFormat).Reachable (Ipc.Runs Q 0) s :=
    hinfer.path ((Machine.Path.of_runUnder h₃).mono fun _ _ h => runs_of_noInference h)
  have hreturned : Returned s 0 "splade" ["cat"] 1 0 heaviest :=
    ⟨0, _, 0, k, hcall, rfl, rfl, hk, hw⟩
  exact ⟨s, hreturned, hcancelled, by decide, served_of_reachable Ipc.Postcard.wireFormat_lawful
    one_ne_zero (wordSessions_compute 1) hreach hreturned fun _ _ _ _ => .inr (.inl (by decide))⟩

end OxEmbed.Splade

import Mathlib.Data.List.Forall2
import OxEmbed.Ipc.Protocol

/-!
# The accept loop of a worker

The task that a worker runs for each connection, in `bin/worker.rs`. It reads request frames one
after another, counts itself among the waiters, waits for an inference permit, runs the model on
the blocking pool and writes one response frame for each request.

A step of the task ends at an await point or at an atomic operation on the counter `WAITERS`,
which the tasks of all connections share. A socket buffers any number of bytes. Writing succeeds
while the peer holds its end of the connection and fails afterwards; the end of the stream is seen
once the peer has dropped its end. Whether the inference task fails, and what the model computes at
this call, are choices of the schedule.

## Main definitions

* `LoadedModel`, `inferenceReply` : the models, and the reply that the blocking task makes.
* `Worker`, `Task`, `Conn` : the counters of a worker, the program point of the task of a
  connection, and a connection with the bytes in flight.
* `ServerEvent`, `serve` : one step of the task of a connection.
* `Produced` : the responses that a worker can make for a request.
* `Conn.Answered` : what was written on a connection, at each program point.

## Main results

* `Produced.requestId_eq` : every response carries the id of its request.
* `answered_of_serve` : every step of a task keeps `Conn.Answered`.
-/

namespace OxEmbed.Ipc

open Framing

variable {F : Type}

/-! ### The loaded model -/

/-- A loaded model, given by what it computes at one call. -/
inductive LoadedModel (F : Type)
  | embed (infer : List String → UInt32 → Except String (List (List F) × UInt32))
  | rerank (score : String → List String → UInt32 → Except String (List F))
  | splade (encode : List String → UInt32 → UInt32 → F →
      Except String (List (List (UInt32 × F))))

def LoadedModel.kind : LoadedModel F → String
  | .embed _ => "embed"
  | .rerank _ => "rerank"
  | .splade _ => "splade"

/-- The closure that runs on the blocking pool. -/
def LoadedModel.respond : LoadedModel F → WorkerRequest F → WorkerResponse F
  | .embed infer, .embed r =>
    match infer r.texts r.maxSeqLen with
    | .ok (vectors, dims) => .embed ⟨r.requestId, vectors, dims⟩
    | .error e => .err r.requestId e
  | .rerank score, .rerank r =>
    match score r.query r.documents r.maxSeqLen with
    | .ok scores => .rerank ⟨r.requestId, scores⟩
    | .error e => .err r.requestId e
  | .splade encode, .splade r =>
    match encode r.texts r.maxSeqLen r.topK r.minWeight with
    | .ok sparse => .splade ⟨r.requestId, sparse⟩
    | .error e => .err r.requestId e
  | m, req => .err req.requestId
      ("kind mismatch: model is " ++ m.kind ++ ", request is " ++ req.kind)

/-- The reply after the blocking task, which fails with a join error when inference panics. -/
def inferenceReply (req : WorkerRequest F) : Except String (LoadedModel F) → WorkerResponse F
  | .ok m => m.respond req
  | .error e => .err req.requestId ("spawn_blocking join error: " ++ e)

/-! ### Workers and connections -/

/-- A worker process: the kind of its model and the counters that its tasks share. -/
structure Worker where
  kind : String
  maxWaiters : ℕ
  /-- `WAITERS`. -/
  waiters : ℕ
  /-- The free permits of the inference semaphore. -/
  permits : ℕ
  /-- The semaphore was closed; no step does this. -/
  semaphoreClosed : Bool
  alive : Bool
  deriving DecidableEq

/-- Whether the task looks at the result of writing a response. -/
inductive OnWriteError
  /-- `let _ = write_frame(..)`, then the next request. -/
  | ignored
  /-- Leave the loop. -/
  | checked
  deriving DecidableEq

/-- Why the task of a connection ended. -/
inductive Closed (F : Type)
  /-- No further request could be read. -/
  | readEnded
  /-- The response to the request encodes to more than the cap. -/
  | tooLarge (req : WorkerRequest F)
  /-- The peer has dropped its end. -/
  | writeFailed
  /-- The worker was killed, possibly while it handled a request. -/
  | killed (unanswered : Option (WorkerRequest F))
  deriving DecidableEq

/-- The program point of the task of a connection. -/
inductive Task (F : Type)
  /-- The connection waits to be accepted. -/
  | backlog
  /-- In `read_frame`. -/
  | reading
  /-- Before `WAITERS.fetch_add`. -/
  | admitting (req : WorkerRequest F)
  /-- About to leave the waiters and reply with an error. -/
  | rejecting (req : WorkerRequest F) (message : String)
  /-- In `acquire_owned`. -/
  | waiting (req : WorkerRequest F)
  /-- A permit was acquired, before `WAITERS.fetch_sub`. -/
  | granted (req : WorkerRequest F)
  /-- Awaiting the blocking task. -/
  | inferring (req : WorkerRequest F)
  /-- In `write_frame`, with the bytes not written yet. -/
  | writing (rest : List UInt8) (onError : OnWriteError)
  | closed (why : Closed F)
  deriving DecidableEq

/-- A connection to a worker. -/
structure Conn (F : Type) where
  /-- The worker that listened on the socket. -/
  worker : ℕ
  /-- The dispatch call that opened the connection, if it was one. -/
  peer : Option ℕ
  /-- The peer holds its end of the connection. -/
  peerOpen : Bool
  /-- The bytes written by the peer and not read by the task. -/
  toWorker : List UInt8
  /-- The bytes written by the task. -/
  toPeer : List UInt8
  task : Task F
  /-- History: the requests that the task has read. -/
  requests : List (WorkerRequest F)
  /-- History: the responses that the task began to write. -/
  responses : List (WorkerResponse F)
  deriving DecidableEq

/-- The choices of the schedule for the task of a connection. -/
inductive ServerEvent (F : Type)
  | accept
  /-- `read_frame` returns a message or malformed data. -/
  | read
  /-- `read_frame` fails because the peer has dropped its end. -/
  | readEnd
  | fetchAdd
  | fetchSub
  | acquire
  /-- The blocking task ends, with the behaviour of the model or with a join error. -/
  | inferred (r : Except String (LoadedModel F))
  /-- `write_frame` writes some more bytes. -/
  | write (n : ℕ)
  /-- `write_frame` returns. -/
  | written
  /-- `write_frame` fails because the peer has dropped its end. -/
  | writeFail

/-- Give back the permit that is held while a checked response is written. -/
def Worker.leave (w : Worker) : OnWriteError → Worker
  | .ignored => w
  | .checked => { w with permits := w.permits + 1 }

/-- The program point after `write_frame` has failed. -/
def Task.afterWriteError (why : Closed F) : OnWriteError → Task F
  | .ignored => .reading
  | .checked => .closed why

/-- The blocking task runs the model that the worker has loaded. -/
def RunsModel (w : Worker) : Except String (LoadedModel F) → Prop
  | .ok m => m.kind = w.kind
  | .error _ => True

instance (w : Worker) (r : Except String (LoadedModel F)) : Decidable (RunsModel w r) :=
  match r with
  | .ok m => inferInstanceAs (Decidable (m.kind = w.kind))
  | .error _ => isTrue trivial

/-- Call `write_frame` with the response to a request. -/
def reply (P : Postcard F) (w : Worker) (k : Conn F) (req : WorkerRequest F)
    (resp : WorkerResponse F) (onError : OnWriteError) : Worker × Conn F :=
  match writeFrame P.encodeResponse resp with
  | .ok bytes => (w, { k with
      task := .writing bytes onError
      responses := k.responses ++ [resp] })
  | .error _ => (w.leave onError, { k with task := .afterWriteError (.tooLarge req) onError })

/-- One step of the task of a connection. -/
def serve (P : Postcard F) (w : Worker) (k : Conn F) (ev : ServerEvent F) :
    Option (Worker × Conn F) :=
  match ev, k.task with
  | .accept, .backlog => some (w, { k with task := .reading })
  | .read, .reading =>
    match readFrame P.decodeRequest k.toWorker with
    | none => none
    | some (.ok (req, rest)) => some (w, { k with
        task := .admitting req
        toWorker := rest
        requests := k.requests ++ [req] })
    | some (.error _) => some (w, { k with task := .closed .readEnded })
  | .readEnd, .reading =>
    if k.peerOpen then none else some (w, { k with task := .closed .readEnded })
  | .fetchAdd, .admitting req =>
    let waitersNow := w.waiters
    some ({ w with waiters := w.waiters + 1 }, { k with
      task := if waitersNow ≥ w.maxWaiters then .rejecting req "worker queue overflow"
        else .waiting req })
  | .acquire, .waiting req =>
    if w.semaphoreClosed then
      some (w, { k with task := .rejecting req "worker semaphore closed" })
    else if w.permits = 0 then none
    else some ({ w with permits := w.permits - 1 }, { k with task := .granted req })
  | .fetchSub, .rejecting req message =>
    some (reply P { w with waiters := w.waiters - 1 } k req
      (.err req.requestId message) .ignored)
  | .fetchSub, .granted req =>
    some ({ w with waiters := w.waiters - 1 }, { k with task := .inferring req })
  | .inferred r, .inferring req =>
    if RunsModel w r then some (reply P w k req (inferenceReply req r) .checked) else none
  | .write n, .writing rest onError =>
    if k.peerOpen ∧ 0 < n ∧ rest ≠ [] then
      some (w, { k with
        task := .writing (rest.drop n) onError
        toPeer := k.toPeer ++ rest.take n })
    else none
  | .written, .writing [] onError => some (w.leave onError, { k with task := .reading })
  | .writeFail, .writing _ onError =>
    if k.peerOpen then none
    else some (w.leave onError, { k with task := .afterWriteError .writeFailed onError })
  | _, _ => none

/-- What one step of a task can do, one constructor for each branch of the source. -/
inductive Serves (P : Postcard F) (w : Worker) (k : Conn F) :
    ServerEvent F → Worker → Conn F → Prop
  | accept (hk : k.task = .backlog) : Serves P w k .accept w { k with task := .reading }
  | read {req : WorkerRequest F} {rest : List UInt8} (hk : k.task = .reading)
      (hr : readFrame P.decodeRequest k.toWorker = some (.ok (req, rest))) :
      Serves P w k .read w
        { k with task := .admitting req, toWorker := rest, requests := k.requests ++ [req] }
  | malformed {e : IoError} (hk : k.task = .reading)
      (hr : readFrame P.decodeRequest k.toWorker = some (.error e)) :
      Serves P w k .read w { k with task := .closed .readEnded }
  | readEnd (hk : k.task = .reading) (hpeer : k.peerOpen = false) :
      Serves P w k .readEnd w { k with task := .closed .readEnded }
  | overflow {req : WorkerRequest F} (hk : k.task = .admitting req)
      (hfull : w.maxWaiters ≤ w.waiters) :
      Serves P w k .fetchAdd { w with waiters := w.waiters + 1 }
        { k with task := .rejecting req "worker queue overflow" }
  | enqueue {req : WorkerRequest F} (hk : k.task = .admitting req)
      (hroom : w.waiters < w.maxWaiters) :
      Serves P w k .fetchAdd { w with waiters := w.waiters + 1 } { k with task := .waiting req }
  | refused {req : WorkerRequest F} (hk : k.task = .waiting req)
      (hclosed : w.semaphoreClosed = true) :
      Serves P w k .acquire w { k with task := .rejecting req "worker semaphore closed" }
  | acquire {req : WorkerRequest F} (hk : k.task = .waiting req)
      (hopen : w.semaphoreClosed = false) (hpermit : w.permits ≠ 0) :
      Serves P w k .acquire { w with permits := w.permits - 1 } { k with task := .granted req }
  | reject {req : WorkerRequest F} {message : String} {w' : Worker} {k' : Conn F}
      (hk : k.task = .rejecting req message)
      (h : reply P { w with waiters := w.waiters - 1 } k req (.err req.requestId message)
        .ignored = (w', k')) : Serves P w k .fetchSub w' k'
  | grant {req : WorkerRequest F} (hk : k.task = .granted req) :
      Serves P w k .fetchSub { w with waiters := w.waiters - 1 } { k with task := .inferring req }
  | inferred {req : WorkerRequest F} {w' : Worker} {k' : Conn F}
      (r : Except String (LoadedModel F)) (hk : k.task = .inferring req) (hr : RunsModel w r)
      (h : reply P w k req (inferenceReply req r) .checked = (w', k')) :
      Serves P w k (.inferred r) w' k'
  | write {rest : List UInt8} {onError : OnWriteError} (n : ℕ)
      (hk : k.task = .writing rest onError) (hpeer : k.peerOpen = true) (hn : 0 < n)
      (hrest : rest ≠ []) : Serves P w k (.write n) w
        { k with task := .writing (rest.drop n) onError, toPeer := k.toPeer ++ rest.take n }
  | written {onError : OnWriteError} (hk : k.task = .writing [] onError) :
      Serves P w k .written (w.leave onError) { k with task := .reading }
  | writeFail {rest : List UInt8} {onError : OnWriteError} (hk : k.task = .writing rest onError)
      (hpeer : k.peerOpen = false) :
      Serves P w k .writeFail (w.leave onError)
        { k with task := .afterWriteError .writeFailed onError }

variable {P : Postcard F} {w w' : Worker} {k k' : Conn F} {ev : ServerEvent F}

/-- **Step lemma of a task.** Every step is one of the transitions `Serves`. -/
theorem serves_of_serve (h : serve P w k ev = some (w', k')) : Serves P w k ev w' k' := by
  unfold serve at h
  split at h
  next hk => cases h; exact .accept hk
  next hk =>
    split at h
    · cases h
    next hr => cases h; exact .read hk hr
    next hr => cases h; exact .malformed hk hr
  next hk =>
    split at h
    · cases h
    next hpeer => cases h; exact .readEnd hk (Bool.eq_false_of_not_eq_true hpeer)
  next req hk =>
    cases h
    by_cases hfull : w.waiters ≥ w.maxWaiters
    · rw [if_pos hfull]
      exact .overflow hk hfull
    · rw [if_neg hfull]
      exact .enqueue hk (by omega)
  next hk =>
    split at h
    next hclosed => cases h; exact .refused hk hclosed
    next hopen =>
      split at h
      · cases h
      next hpermit => cases h; exact .acquire hk (Bool.eq_false_of_not_eq_true hopen) hpermit
  next hk => exact .reject hk (Option.some.inj h)
  next hk => cases h; exact .grant hk
  next hk =>
    split at h
    next hr => exact .inferred _ hk hr (Option.some.inj h)
    · cases h
  next hk =>
    split at h
    next hwrite => cases h; exact .write _ hk hwrite.1 hwrite.2.1 hwrite.2.2
    · cases h
  next hk => cases h; exact .written hk
  next hk =>
    split at h
    · cases h
    next hpeer => cases h; exact .writeFail hk (Bool.eq_false_of_not_eq_true hpeer)
  · cases h

/-! ### Progress of a task -/

theorem reply_cases {req : WorkerRequest F} {resp : WorkerResponse F} {onError : OnWriteError}
    (h : reply P w k req resp onError = (w', k')) :
    ((P.encodeResponse resp).length ≤ maxFrameBytes ∧ w' = w ∧ k' = { k with
        task := .writing (frame (P.encodeResponse resp)) onError
        responses := k.responses ++ [resp] }) ∨
      maxFrameBytes < (P.encodeResponse resp).length ∧ w' = w.leave onError ∧
        k' = { k with task := .afterWriteError (.tooLarge req) onError } := by
  unfold reply at h
  split at h
  next hw =>
    obtain ⟨hlen, rfl⟩ := writeFrame_eq_ok_iff.mp hw
    cases h
    exact .inl ⟨hlen, rfl, rfl⟩
  next hw =>
    cases h
    exact .inr ⟨(writeFrame_eq_error_iff.mp hw).1, rfl, rfl⟩

/-- A bound on the steps of a task before it reads the next request or ends. -/
def Task.remaining : Task F → ℕ
  | .admitting _ => maxFrameBytes + 9
  | .waiting _ => maxFrameBytes + 8
  | .granted _ => maxFrameBytes + 7
  | .inferring _ | .rejecting _ _ => maxFrameBytes + 6
  | .writing rest _ => rest.length + 1
  | _ => 0

/-- A task that handles a request can make a step, unless it waits for a permit. -/
theorem exists_serve (P : Postcard F) (hhandling : 0 < k.task.remaining)
    (hpermit : ∀ req, k.task = .waiting req → w.permits ≠ 0) :
    ∃ ev w' k', serve P w k ev = some (w', k') := by
  unfold serve
  cases hk : k.task with
  | admitting req => exact ⟨.fetchAdd, _, _, rfl⟩
  | rejecting req message => exact ⟨.fetchSub, _, _, rfl⟩
  | waiting req =>
    refine ⟨.acquire, ?_⟩
    simp only [if_neg (hpermit req hk)]
    split <;> exact ⟨_, _, rfl⟩
  | granted req => exact ⟨.fetchSub, _, _, rfl⟩
  | inferring req => exact ⟨.inferred (.error ""), _, _, rfl⟩
  | writing rest onError =>
    cases hpeer : k.peerOpen with
    | false => exact ⟨.writeFail, _, _, rfl⟩
    | true =>
      cases rest with
      | nil => exact ⟨.written, _, _, rfl⟩
      | cons b rest => exact ⟨.write 1, _, _, if_pos ⟨rfl, one_pos, List.cons_ne_nil b rest⟩⟩
  | _ =>
    rw [hk] at hhandling
    exact absurd hhandling (Nat.lt_irrefl 0)

/-- Every step of a task that handles a request brings it closer to the end of the request. -/
theorem remaining_lt_of_serve (h : serve P w k ev = some (w', k'))
    (hhandling : 0 < k.task.remaining) : k'.task.remaining < k.task.remaining := by
  have hreply {w₀ : Worker} {req : WorkerRequest F} {resp : WorkerResponse F} {o : OnWriteError}
      (heq : reply P w₀ k req resp o = (w', k')) : k'.task.remaining < maxFrameBytes + 6 := by
    rcases reply_cases heq with ⟨hlen, -, rfl⟩ | ⟨-, -, rfl⟩
    · simp only [Task.remaining, length_frame]
      omega
    · cases o <;> exact Nat.succ_pos _
  cases serves_of_serve h with
  | accept hk => simp [hk, Task.remaining] at hhandling
  | read hk => simp [hk, Task.remaining] at hhandling
  | malformed hk => simp [hk, Task.remaining] at hhandling
  | readEnd hk => simp [hk, Task.remaining] at hhandling
  | reject hk heq =>
    rw [hk]
    exact hreply heq
  | inferred r hk hr heq =>
    rw [hk]
    exact hreply heq
  | @write rest onError n hk hpeer hn hrest =>
    have hpos : 0 < rest.length := List.length_pos_iff.mpr hrest
    simp only [hk, Task.remaining, List.length_drop]
    omega
  | @writeFail rest onError hk =>
    rw [hk]
    cases onError <;> exact Nat.succ_pos _
  | _ => simp [*, Task.remaining]

/-! ### What is written on a connection -/

/-- The texts of the error replies that are made without running the model. -/
def IsRejection (message : String) : Prop :=
  message = "worker queue overflow" ∨ message = "worker semaphore closed"

/-- The responses that a worker with a model of the given kind can make for a request. -/
inductive Produced (kind : String) (req : WorkerRequest F) : WorkerResponse F → Prop
  | rejected {message : String} (h : IsRejection message) :
      Produced kind req (.err req.requestId message)
  | inferred (m : LoadedModel F) (h : m.kind = kind) : Produced kind req (m.respond req)
  | panicked (e : String) :
      Produced kind req (.err req.requestId ("spawn_blocking join error: " ++ e))

theorem LoadedModel.respond_requestId (m : LoadedModel F) (req : WorkerRequest F) :
    (m.respond req).requestId = req.requestId := by
  fun_cases LoadedModel.respond m req <;> rfl

/-- **Every response carries the id of its request**, on every path of the task. -/
theorem Produced.requestId_eq {kind : String} {req : WorkerRequest F} {resp : WorkerResponse F}
    (h : Produced kind req resp) : resp.requestId = req.requestId := by
  cases h with
  | rejected => rfl
  | inferred m => exact m.respond_requestId req
  | panicked => rfl

/-- The request that a task is handling and has not begun to answer. -/
def Task.unanswered : Task F → Option (WorkerRequest F)
  | .admitting req | .rejecting req _ | .waiting req | .granted req | .inferring req => some req
  | .closed (.tooLarge req) => some req
  | .closed (.killed req) => req
  | _ => none

/-- The bytes of a response that the task has not written yet. -/
def Task.unsent : Task F → List UInt8
  | .writing rest _ => rest
  | _ => []

/-- The bytes of some responses. -/
def wire (P : Postcard F) (responses : List (WorkerResponse F)) : List UInt8 :=
  frames (responses.map P.encodeResponse)

/-- What was written on a connection to a worker with a model of the given kind. -/
structure Conn.Answered (P : Postcard F) (kind : String) (k : Conn F) : Prop where
  /-- The responses answer the requests in order, all but the one that is being handled. -/
  answered : ∃ reqs, k.requests = reqs ++ k.task.unanswered.toList ∧
    List.Forall₂ (Produced kind) reqs k.responses
  /-- Nothing but the frames of the responses is written. -/
  onlyFrames : k.toPeer <+: wire P k.responses
  /-- While the peer holds its end, no byte is lost, unless the worker is killed. -/
  wire_eq : k.peerOpen = true → (∀ req, k.task ≠ .closed (.killed req)) →
    k.toPeer ++ k.task.unsent = wire P k.responses
  fits : ∀ resp ∈ k.responses, (P.encodeResponse resp).length ≤ maxFrameBytes
  rejecting : ∀ req message, k.task = .rejecting req message → IsRejection message
  /-- A response is left out only when it encodes to more than the cap. -/
  tooLarge : ∀ req, k.task = .closed (.tooLarge req) →
    ∃ resp, Produced kind req resp ∧ maxFrameBytes < (P.encodeResponse resp).length
  writeFailed : k.task = .closed .writeFailed → k.peerOpen = false

/-- The task changes its program point and neither answers a request nor takes one. -/
theorem Conn.Answered.setTask {kind : String} (h : k.Answered P kind) {t : Task F}
    (hunanswered : t.unanswered = k.task.unanswered) (hunsent : t.unsent = k.task.unsent)
    (hkilled : ∀ req, k.task ≠ .closed (.killed req))
    (hrejecting : ∀ req message, t = .rejecting req message → IsRejection message)
    (htooLarge : ∀ req, t ≠ .closed (.tooLarge req))
    (hwriteFailed : t = .closed .writeFailed → k.peerOpen = false) :
    ({ k with task := t } : Conn F).Answered P kind where
  answered := by
    obtain ⟨reqs, hreqs, hall⟩ := h.answered
    exact ⟨reqs, by rw [hreqs, hunanswered], hall⟩
  onlyFrames := h.onlyFrames
  wire_eq hpeer _ := by
    rw [hunsent]
    exact h.wire_eq hpeer hkilled
  fits := h.fits
  rejecting := hrejecting
  tooLarge req ht := absurd ht (htooLarge req)
  writeFailed := hwriteFailed

/-- The reply to the request that is being handled is written, or it is too large. -/
theorem Conn.Answered.of_reply {kind : String} (h : k.Answered P kind) {req : WorkerRequest F}
    {resp : WorkerResponse F} {onError : OnWriteError}
    (heq : reply P w k req resp onError = (w', k'))
    (hreq : k.task.unanswered = some req)
    (hunsent : k.task.unsent = []) (hkilled : ∀ req, k.task ≠ .closed (.killed req))
    (hresp : Produced kind req resp)
    (hfits : onError = .ignored → (P.encodeResponse resp).length ≤ maxFrameBytes) :
    k'.Answered P kind := by
  obtain ⟨reqs, hreqs, hall⟩ := h.answered
  have hwire := h.wire_eq
  rw [hreq] at hreqs
  rcases reply_cases heq with ⟨hlen, rfl, rfl⟩ | ⟨hlen, rfl, rfl⟩
  · have happend : wire P (k.responses ++ [resp]) =
        wire P k.responses ++ frame (P.encodeResponse resp) := by simp [wire]
    refine ⟨⟨reqs ++ [req], ?_, ?_⟩, ?_, fun hpeer _ => ?_, ?_, ?_, ?_, ?_⟩
    · simpa [Task.unanswered] using hreqs
    · exact List.rel_append hall (.cons hresp .nil)
    · rw [happend]
      exact h.onlyFrames.trans (List.prefix_append _ _)
    · rw [happend, ← hwire hpeer hkilled, hunsent, List.append_nil]
      rfl
    · intro r hr
      rcases List.mem_append.mp hr with hr | hr
      · exact h.fits r hr
      · rw [List.mem_singleton.mp hr]
        exact hlen
    · exact fun _ _ ht => nomatch ht
    · exact fun _ ht => nomatch ht
    · exact fun ht => nomatch ht
  · cases onError with
    | ignored => exact absurd (hfits rfl) (by omega)
    | checked =>
      refine ⟨⟨reqs, hreqs, hall⟩, h.onlyFrames, fun hpeer _ => ?_, h.fits, ?_, ?_, ?_⟩
      · rw [← hwire hpeer hkilled, hunsent]
        rfl
      · exact fun _ _ ht => nomatch ht
      · rintro _ ⟨⟩
        exact ⟨resp, hresp, hlen⟩
      · exact fun ht => nomatch ht

theorem Postcard.Lawful.fits_rejection (hP : P.Lawful) (requestId : UInt64) {message : String}
    (h : IsRejection message) :
    (P.encodeResponse (.err requestId message)).length ≤ maxFrameBytes := by
  have hsize : message.utf8ByteSize < 128 := by
    rcases h with rfl | rfl <;> decide
  have hlen := hP.length_encode_err requestId message hsize
  have hcap : 140 ≤ maxFrameBytes := by decide
  omega

/-- **Step lemma of a connection.** Every step of the task keeps the record of what was written. -/
theorem answered_of_serve (hP : P.Lawful) (h : k.Answered P w.kind)
    (hstep : serve P w k ev = some (w', k')) : k'.Answered P w.kind := by
  cases serves_of_serve hstep with
  | accept hk =>
    exact h.setTask (by rw [hk]; rfl) (by rw [hk]; rfl) (by simp [hk]) nofun nofun nofun
  | @read req rest hk hr =>
    obtain ⟨reqs, hreqs, hall⟩ := h.answered
    refine ⟨⟨reqs, ?_, hall⟩, h.onlyFrames, fun hpeer _ => ?_, h.fits, nofun, nofun, nofun⟩
    · simpa [hk, Task.unanswered] using hreqs
    · simpa [hk, Task.unsent] using h.wire_eq hpeer (by simp [hk])
  | malformed hk =>
    exact h.setTask (by rw [hk]; rfl) (by rw [hk]; rfl) (by simp [hk]) nofun nofun nofun
  | readEnd hk =>
    exact h.setTask (by rw [hk]; rfl) (by rw [hk]; rfl) (by simp [hk]) nofun nofun nofun
  | overflow hk =>
    refine h.setTask (by rw [hk]; rfl) (by rw [hk]; rfl) (by simp [hk]) ?_ nofun nofun
    rintro _ _ ⟨⟩
    exact .inl rfl
  | enqueue hk =>
    exact h.setTask (by rw [hk]; rfl) (by rw [hk]; rfl) (by simp [hk]) nofun nofun nofun
  | refused hk =>
    refine h.setTask (by rw [hk]; rfl) (by rw [hk]; rfl) (by simp [hk]) ?_ nofun nofun
    rintro _ _ ⟨⟩
    exact .inr rfl
  | acquire hk =>
    exact h.setTask (by rw [hk]; rfl) (by rw [hk]; rfl) (by simp [hk]) nofun nofun nofun
  | @reject req message _ _ hk heq =>
    have hm := h.rejecting req message hk
    exact h.of_reply heq (by rw [hk]; rfl) (by rw [hk]; rfl) (by simp [hk]) (.rejected hm)
      (fun _ => hP.fits_rejection req.requestId hm)
  | grant hk =>
    exact h.setTask (by rw [hk]; rfl) (by rw [hk]; rfl) (by simp [hk]) nofun nofun nofun
  | @inferred req _ _ r hk hr heq =>
    have hresp : Produced w.kind req (inferenceReply req r) := by
      cases r with
      | ok m => exact .inferred m hr
      | error e => exact .panicked e
    exact h.of_reply heq (by rw [hk]; rfl) (by rw [hk]; rfl) (by simp [hk]) hresp nofun
  | @write rest onError n hk hpeer hn hrest =>
    obtain ⟨reqs, hreqs, hall⟩ := h.answered
    have hwire := h.wire_eq hpeer (by simp [hk])
    rw [hk, Task.unsent, ← List.take_append_drop n rest, ← List.append_assoc] at hwire
    refine ⟨⟨reqs, ?_, hall⟩, ⟨_, hwire⟩, fun _ _ => hwire, h.fits, nofun, nofun, nofun⟩
    simpa [hk, Task.unanswered] using hreqs
  | written hk =>
    exact h.setTask (by rw [hk]; rfl) (by rw [hk]; rfl) (by simp [hk]) nofun nofun nofun
  | @writeFail rest onError hk hpeer =>
    obtain ⟨reqs, hreqs, hall⟩ := h.answered
    have hnot : ¬ k.peerOpen = true := by simp [hpeer]
    refine ⟨⟨reqs, ?_, hall⟩, h.onlyFrames, fun hopen _ => absurd hopen hnot, h.fits, ?_, ?_, ?_⟩
    · cases onError <;> simpa [hk, Task.unanswered, Task.afterWriteError] using hreqs
    · cases onError <;> exact nofun
    · cases onError <;> exact nofun
    · exact fun _ => hpeer

end OxEmbed.Ipc

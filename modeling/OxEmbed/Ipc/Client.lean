import Mathlib.Data.List.Basic
import Mathlib.Logic.Function.Basic
import OxEmbed.Ipc.Worker
import OxEmbed.Library.Machine

/-!
# The clients of the worker socket

The clients of `ipc/client.rs` together with the workers they talk to. A dispatch call takes the
next id of its client, waits for a permit of the client's semaphore, opens a connection of its own,
writes one request frame, reads one response frame, and checks the id and the number of outputs.
Its connection is a local variable of the call, so it is dropped when the call returns and when the
caller drops the call at any of its awaits.

The supervisor makes a new client, with ids from `0`, for each worker that it spawns; calls of
older clients may still be running, and connect to whichever worker listens on the socket then.
Connections that no dispatch call made (the probe of `WorkerClient::connect`, other processes)
carry arbitrary bytes. An operation on a socket may fail at any moment.

## Main definitions

* `Dispatch`, `acceptResponse` : the three dispatch functions, and their checks of a response.
* `Client`, `Call`, `State`, `Action` : the clients, the calls and the whole system.
* `step`, `machine` : one step, and the system as a machine.
* `Trans` : what a step can do.

## Main results

* `acceptResponse_eq_ok` : a response that passes the checks is the response that was read.
* `trans_of_step` : every step is one of the transitions `Trans`.
-/

namespace OxEmbed.Ipc

variable {F : Type}

/-! ### The dispatch functions -/

/-- The arguments of `dispatch_embed`, `dispatch_rerank` or `dispatch_splade`. -/
inductive Dispatch (F : Type)
  | embed (model : String) (texts : List String) (maxSeqLen : UInt32)
  | rerank (model query : String) (documents : List String) (maxSeqLen : UInt32)
  | splade (model : String) (texts : List String) (maxSeqLen topK : UInt32) (minWeight : F)
  deriving DecidableEq

/-- The request that a dispatch function sends. -/
def Dispatch.request (requestId : UInt64) : Dispatch F → WorkerRequest F
  | .embed model texts maxSeqLen => .embed ⟨requestId, model, texts, maxSeqLen⟩
  | .rerank model query documents maxSeqLen =>
    .rerank ⟨requestId, model, query, documents, maxSeqLen⟩
  | .splade model texts maxSeqLen topK minWeight =>
    .splade ⟨requestId, model, texts, maxSeqLen, topK, minWeight⟩

/-- Check the number of outputs of a response. -/
def checkOutputs (outputs inputs : String) (got want : ℕ) (resp : WorkerResponse F) :
    Except IoError (WorkerResponse F) :=
  if got ≠ want then
    .error (.invalidData s!"worker returned {got} {outputs} for {want} {inputs}")
  else .ok resp

/-- The check of a dispatch function on the response of `send_request`. -/
def Dispatch.check : Dispatch F → WorkerResponse F → Except IoError (WorkerResponse F)
  | .embed _ texts _, .embed ok =>
    checkOutputs "vectors" "input texts" ok.vectors.length texts.length (.embed ok)
  | .rerank _ _ documents _, .rerank ok =>
    checkOutputs "scores" "documents" ok.scores.length documents.length (.rerank ok)
  | .splade _ texts _ _ _, .splade ok =>
    checkOutputs "sparse vectors" "texts" ok.sparse.length texts.length (.splade ok)
  | _, resp => .ok resp

/-- The checks on a response that was read: of its id in `send_request`, then of its outputs. -/
def acceptResponse (requestId : UInt64) (d : Dispatch F) (resp : WorkerResponse F) :
    Except IoError (WorkerResponse F) :=
  if resp.requestId ≠ requestId then
    .error (.invalidData s!"response id {resp.requestId} != request id {requestId}")
  else d.check resp

theorem checkOutputs_eq_ok {outputs inputs : String} {got want : ℕ} {resp r : WorkerResponse F} :
    checkOutputs outputs inputs got want resp = .ok r ↔ got = want ∧ resp = r := by
  rw [checkOutputs]
  split <;> simp_all

/-- A response that passes the checks is the response that was read. -/
theorem acceptResponse_eq_ok {requestId : UInt64} {d : Dispatch F} {resp r : WorkerResponse F}
    (h : acceptResponse requestId d resp = .ok r) : d.check resp = .ok r ∧ resp = r := by
  rw [acceptResponse] at h
  split at h
  · cases h
  · refine ⟨h, ?_⟩
    unfold Dispatch.check at h
    split at h
    · exact (checkOutputs_eq_ok.mp h).2
    · exact (checkOutputs_eq_ok.mp h).2
    · exact (checkOutputs_eq_ok.mp h).2
    · exact Except.ok.inj h

/-- A response made for the request of a dispatch function that passes its check is `Err` or has
the kind of the request and one output for each input. -/
theorem Produced.answers {kind : String} {requestId : UInt64} {d : Dispatch F}
    {resp r : WorkerResponse F} (h : Produced kind (d.request requestId) resp)
    (hcheck : d.check resp = .ok r) : Answers (d.request requestId) resp := by
  cases h with
  | rejected => cases d <;> trivial
  | panicked => cases d <;> trivial
  | inferred m =>
    cases m with
    | embed infer =>
      cases d with
      | embed model texts maxSeqLen =>
        simp only [Dispatch.request, LoadedModel.respond] at hcheck ⊢
        cases hinfer : infer texts maxSeqLen with
        | ok v =>
          rw [hinfer] at hcheck
          exact (checkOutputs_eq_ok.mp hcheck).1
        | error e => trivial
      | _ => trivial
    | rerank score =>
      cases d with
      | rerank model query documents maxSeqLen =>
        simp only [Dispatch.request, LoadedModel.respond] at hcheck ⊢
        cases hscore : score query documents maxSeqLen with
        | ok scores =>
          rw [hscore] at hcheck
          exact (checkOutputs_eq_ok.mp hcheck).1
        | error e => trivial
      | _ => trivial
    | splade encode =>
      cases d with
      | splade model texts maxSeqLen topK minWeight =>
        simp only [Dispatch.request, LoadedModel.respond] at hcheck ⊢
        cases hencode : encode texts maxSeqLen topK minWeight with
        | ok sparse =>
          rw [hencode] at hcheck
          exact (checkOutputs_eq_ok.mp hcheck).1
        | error e => trivial
      | _ => trivial

/-! ### Clients, calls and the system -/

/-- A `WorkerClient`. -/
structure Client where
  /-- The free permits of its semaphore. -/
  permits : ℕ
  /-- `request_counter`. -/
  counter : UInt64
  deriving DecidableEq

/-- The program point of a dispatch call. -/
inductive CallPhase (F : Type)
  /-- In `semaphore.acquire`. -/
  | acquiring
  /-- In `UnixStream::connect`. -/
  | connecting
  /-- In `write_frame`, with the bytes not written yet. -/
  | writing (c : ℕ) (rest : List UInt8)
  /-- In `read_frame`. -/
  | reading (c : ℕ)
  /-- The call has returned; it used the connection `c`, if it opened one. -/
  | returned (c : Option ℕ) (r : Except IoError (WorkerResponse F))
  /-- The caller dropped the call. -/
  | cancelled
  deriving DecidableEq

/-- The connection of a call. -/
def CallPhase.conn : CallPhase F → Option ℕ
  | .writing c _ | .reading c => some c
  | .returned c _ => c
  | _ => none

/-- The call holds a permit of its client. -/
def CallPhase.HoldsPermit : CallPhase F → Bool
  | .connecting | .writing _ _ | .reading _ => true
  | _ => false

/-- A dispatch call. -/
structure Call (F : Type) where
  client : ℕ
  requestId : UInt64
  dispatch : Dispatch F
  phase : CallPhase F
  deriving DecidableEq

/-- The request of a call. -/
def Call.request (call : Call F) : WorkerRequest F := call.dispatch.request call.requestId

/-- The clients of a supervisor with the workers they talk to. -/
structure State (F : Type) where
  workers : ℕ → Option Worker
  clients : ℕ → Option Client
  conns : ℕ → Option (Conn F)
  calls : ℕ → Option (Call F)

/-- The choices of the schedule for a dispatch call. -/
inductive CallEvent
  | acquire
  /-- The call connects to the worker `w`, with the new connection `c`. -/
  | connect (c w : ℕ)
  /-- The call writes some more bytes. -/
  | send (n : ℕ)
  /-- `write_frame` returns. -/
  | flush
  /-- `read_frame` returns a message or malformed data. -/
  | receive
  /-- An operation on the socket fails. -/
  | fail
  /-- The caller drops the call. -/
  | cancel
  deriving DecidableEq

/-- The actions of a schedule. -/
inductive Action (F : Type)
  /-- A worker process starts to listen. -/
  | spawn (w : ℕ) (kind : String) (maxWaiters poolSize : ℕ)
  | kill (w : ℕ)
  /-- `WorkerClient::connect` returns a client. -/
  | newClient (cl conns : ℕ)
  /-- A dispatch function is called and takes an id. -/
  | begin (i cl : ℕ) (d : Dispatch F)
  | call (i : ℕ) (ev : CallEvent)
  /-- A connection to the worker `w` that no dispatch call made. -/
  | foreign (c w : ℕ)
  | foreignWrite (c : ℕ) (bytes : List UInt8)
  | foreignClose (c : ℕ)
  /-- The task of the connection `c` makes a step. -/
  | server (c : ℕ) (ev : ServerEvent F)

/-- A new connection. -/
def Conn.new (w : ℕ) (peer : Option ℕ) : Conn F :=
  ⟨w, peer, true, [], [], .backlog, [], []⟩

/-- The end of the worker is gone. -/
def Conn.kill (k : Conn F) : Conn F :=
  { k with task := match k.task with
      | .closed why => .closed why
      | t => .closed (.killed t.unanswered) }

namespace State

variable (s : State F)

@[simps workers] def setWorker (w : ℕ) (wk : Worker) : State F :=
  { s with workers := Function.update s.workers w (some wk) }

def setClient (cl : ℕ) (client : Client) : State F :=
  { s with clients := Function.update s.clients cl (some client) }

@[simps] def setConn (c : ℕ) (k : Conn F) : State F :=
  { s with conns := Function.update s.conns c (some k) }

@[simps] def setCall (i : ℕ) (call : Call F) : State F :=
  { s with calls := Function.update s.calls i (some call) }

/-- The peer of a connection, if there is one, drops its end. -/
@[simps conns] def hangUp (c : Option ℕ) : State F :=
  { s with
    conns := fun c' =>
      if c = some c' then (s.conns c').map fun k => { k with peerOpen := false } else s.conns c' }

/-- Give back a permit of a client. -/
def releasePermit (cl : ℕ) : State F :=
  { s with
    clients := Function.update s.clients cl
      ((s.clients cl).map fun client => { client with permits := client.permits + 1 }) }

/-- A call that holds a permit ends: its local variables are dropped. -/
def finish (i : ℕ) (call : Call F) (phase : CallPhase F) : State F :=
  ((s.setCall i { call with phase }).hangUp call.phase.conn).releasePermit call.client

/-- The process of a worker ends: so do the tasks of its connections. -/
def kill (w : ℕ) (wk : Worker) : State F :=
  { s with
    workers := Function.update s.workers w (some { wk with alive := false })
    conns := fun c => (s.conns c).map fun k => if k.worker = w then k.kill else k }

end State

/-! ### One step -/

/-- One step of a dispatch call. -/
def callStep (P : Postcard F) (s : State F) (i : ℕ) (call : Call F) (ev : CallEvent) :
    Option (State F) :=
  match ev, call.phase with
  | .acquire, .acquiring =>
    match s.clients call.client with
    | some client =>
      if client.permits = 0 then none
      else some ((s.setClient call.client { client with permits := client.permits - 1 }).setCall i
        { call with phase := .connecting })
    | none => none
  | .connect c w, .connecting =>
    match s.conns c, s.workers w with
    | none, some wk =>
      if wk.alive then
        match writeFrame P.encodeRequest call.request with
        | .ok bytes => some ((s.setConn c (.new w (some i))).setCall i
            { call with phase := .writing c bytes })
        | .error e => some ((s.setConn c { Conn.new w (some i) with peerOpen := false }).finish i
            call (.returned (some c) (.error e)))
      else none
    | _, _ => none
  | .send n, .writing c rest =>
    match s.conns c with
    | some k => some ((s.setConn c { k with toWorker := k.toWorker ++ rest.take n }).setCall i
        { call with phase := .writing c (rest.drop n) })
    | none => none
  | .flush, .writing c [] => some (s.setCall i { call with phase := .reading c })
  | .receive, .reading c =>
    match s.conns c with
    | some k =>
      match readFrame P.decodeResponse k.toPeer with
      | some (.ok (resp, _)) => some (s.finish i call
          (.returned (some c) (acceptResponse call.requestId call.dispatch resp)))
      | some (.error e) => some (s.finish i call (.returned (some c) (.error e)))
      | none => none
    | none => none
  | .cancel, .acquiring => some (s.setCall i { call with phase := .cancelled })
  | .fail, phase =>
    if phase.HoldsPermit then some (s.finish i call (.returned phase.conn (.error .other)))
    else none
  | .cancel, phase => if phase.HoldsPermit then some (s.finish i call .cancelled) else none
  | _, _ => none

/-- One step of the system. -/
def step (P : Postcard F) (s : State F) : Action F → Option (State F)
  | .spawn w kind maxWaiters poolSize =>
    match s.workers w with
    | none => some (s.setWorker w ⟨kind, maxWaiters, 0, poolSize, false, true⟩)
    | some _ => none
  | .kill w =>
    match s.workers w with
    | some wk => if wk.alive then some (s.kill w wk) else none
    | none => none
  | .newClient cl conns =>
    match s.clients cl with
    | none => if conns = 0 then none else some (s.setClient cl ⟨conns, 0⟩)
    | some _ => none
  | .begin i cl d =>
    match s.calls i, s.clients cl with
    | none, some client =>
      some ((s.setClient cl { client with counter := client.counter + 1 }).setCall i
        ⟨cl, client.counter, d, .acquiring⟩)
    | _, _ => none
  | .call i ev =>
    match s.calls i with
    | some call => callStep P s i call ev
    | none => none
  | .foreign c w =>
    match s.conns c, s.workers w with
    | none, some wk => if wk.alive then some (s.setConn c (.new w none)) else none
    | _, _ => none
  | .foreignWrite c bytes =>
    match s.conns c with
    | some k =>
      if k.peer = none ∧ k.peerOpen then
        some (s.setConn c { k with toWorker := k.toWorker ++ bytes })
      else none
    | none => none
  | .foreignClose c =>
    match s.conns c with
    | some k => if k.peer = none then some (s.hangUp (some c)) else none
    | none => none
  | .server c ev =>
    match s.conns c with
    | some k =>
      match s.workers k.worker with
      | some wk =>
        if wk.alive then
          (serve P wk k ev).map fun r => (s.setWorker k.worker r.1).setConn c r.2
        else none
      | none => none
    | none => none

/-- Nothing runs yet. -/
def State.start : State F := ⟨fun _ => none, fun _ => none, fun _ => none, fun _ => none⟩

/-- The system as a machine. -/
def machine (P : Postcard F) : Machine (State F) (Action F) := ⟨(· = .start), step P⟩

/-! ### What a step can do -/

/-- What one step of a dispatch call can do. -/
inductive CallTrans (P : Postcard F) (s : State F) (i : ℕ) (call : Call F) :
    CallEvent → State F → Prop
  | acquire {client : Client} (hp : call.phase = .acquiring)
      (hcl : s.clients call.client = some client) (hpermit : client.permits ≠ 0) :
      CallTrans P s i call .acquire
        ((s.setClient call.client { client with permits := client.permits - 1 }).setCall i
          { call with phase := .connecting })
  | connect {c w : ℕ} {wk : Worker} {bytes : List UInt8} (hp : call.phase = .connecting)
      (hc : s.conns c = none) (hw : s.workers w = some wk) (halive : wk.alive = true)
      (hbytes : writeFrame P.encodeRequest call.request = .ok bytes) :
      CallTrans P s i call (.connect c w)
        ((s.setConn c (.new w (some i))).setCall i { call with phase := .writing c bytes })
  | requestTooLarge {c w : ℕ} {wk : Worker} {e : IoError} (hp : call.phase = .connecting)
      (hc : s.conns c = none) (hw : s.workers w = some wk) (halive : wk.alive = true)
      (he : writeFrame P.encodeRequest call.request = .error e) :
      CallTrans P s i call (.connect c w)
        ((s.setConn c { Conn.new w (some i) with peerOpen := false }).finish i call
          (.returned (some c) (.error e)))
  | send {c : ℕ} {rest : List UInt8} {k : Conn F} (n : ℕ) (hp : call.phase = .writing c rest)
      (hc : s.conns c = some k) :
      CallTrans P s i call (.send n)
        ((s.setConn c { k with toWorker := k.toWorker ++ rest.take n }).setCall i
          { call with phase := .writing c (rest.drop n) })
  | flush {c : ℕ} (hp : call.phase = .writing c []) :
      CallTrans P s i call .flush (s.setCall i { call with phase := .reading c })
  | receive {c : ℕ} {k : Conn F} {resp : WorkerResponse F} {rest : List UInt8}
      (hp : call.phase = .reading c) (hc : s.conns c = some k)
      (hr : readFrame P.decodeResponse k.toPeer = some (.ok (resp, rest))) :
      CallTrans P s i call .receive (s.finish i call
        (.returned (some c) (acceptResponse call.requestId call.dispatch resp)))
  | malformed {c : ℕ} {k : Conn F} {e : IoError} (hp : call.phase = .reading c)
      (hc : s.conns c = some k) (hr : readFrame P.decodeResponse k.toPeer = some (.error e)) :
      CallTrans P s i call .receive (s.finish i call (.returned (some c) (.error e)))
  | cancelAcquire (hp : call.phase = .acquiring) :
      CallTrans P s i call .cancel (s.setCall i { call with phase := .cancelled })
  | fail (hp : call.phase.HoldsPermit = true) :
      CallTrans P s i call .fail (s.finish i call (.returned call.phase.conn (.error .other)))
  | cancel (hp : call.phase.HoldsPermit = true) :
      CallTrans P s i call .cancel (s.finish i call .cancelled)

/-- What one step of the system can do. -/
inductive Trans (P : Postcard F) (s : State F) : Action F → State F → Prop
  | spawn {w : ℕ} (kind : String) (maxWaiters poolSize : ℕ) (hw : s.workers w = none) :
      Trans P s (.spawn w kind maxWaiters poolSize)
        (s.setWorker w ⟨kind, maxWaiters, 0, poolSize, false, true⟩)
  | kill {w : ℕ} {wk : Worker} (hw : s.workers w = some wk) (halive : wk.alive = true) :
      Trans P s (.kill w) (s.kill w wk)
  | newClient {cl conns : ℕ} (hcl : s.clients cl = none) (hconns : conns ≠ 0) :
      Trans P s (.newClient cl conns) (s.setClient cl ⟨conns, 0⟩)
  | begin {i cl : ℕ} {client : Client} (d : Dispatch F) (hi : s.calls i = none)
      (hcl : s.clients cl = some client) :
      Trans P s (.begin i cl d)
        ((s.setClient cl { client with counter := client.counter + 1 }).setCall i
          ⟨cl, client.counter, d, .acquiring⟩)
  | call {i : ℕ} {ev : CallEvent} {call : Call F} {s' : State F} (hi : s.calls i = some call)
      (h : CallTrans P s i call ev s') : Trans P s (.call i ev) s'
  | foreign {c w : ℕ} {wk : Worker} (hc : s.conns c = none) (hw : s.workers w = some wk)
      (halive : wk.alive = true) : Trans P s (.foreign c w) (s.setConn c (.new w none))
  | foreignWrite {c : ℕ} {k : Conn F} (bytes : List UInt8) (hc : s.conns c = some k)
      (hpeer : k.peer = none) : Trans P s (.foreignWrite c bytes)
        (s.setConn c { k with toWorker := k.toWorker ++ bytes })
  | foreignClose {c : ℕ} {k : Conn F} (hc : s.conns c = some k) (hpeer : k.peer = none) :
      Trans P s (.foreignClose c) (s.hangUp (some c))
  | server {c : ℕ} {k k' : Conn F} {wk wk' : Worker} {ev : ServerEvent F}
      (hc : s.conns c = some k) (hw : s.workers k.worker = some wk) (halive : wk.alive = true)
      (h : serve P wk k ev = some (wk', k')) :
      Trans P s (.server c ev) ((s.setWorker k.worker wk').setConn c k')

variable {P : Postcard F} {s s' : State F} {i : ℕ} {call : Call F} {ev : CallEvent}
  {a : Action F}

theorem callTrans_of_callStep (h : callStep P s i call ev = some s') :
    CallTrans P s i call ev s' := by
  unfold callStep at h
  split at h
  next hp =>
    split at h
    next hcl =>
      split at h
      · cases h
      next hpermit => cases h; exact .acquire hp hcl hpermit
    · cases h
  next hp =>
    split at h
    next hc hw =>
      split at h
      next halive =>
        split at h
        next hbytes => cases h; exact .connect hp hc hw halive hbytes
        next he => cases h; exact .requestTooLarge hp hc hw halive he
      · cases h
    · cases h
  next hp =>
    split at h
    next hc => cases h; exact .send _ hp hc
    · cases h
  next hp => cases h; exact .flush hp
  next hp =>
    split at h
    next hc =>
      split at h
      next hr => cases h; exact .receive hp hc hr
      next hr => cases h; exact .malformed hp hc hr
      · cases h
    · cases h
  next hp => cases h; exact .cancelAcquire hp
  next =>
    split at h
    next hp => cases h; exact .fail hp
    · cases h
  next =>
    split at h
    next hp => cases h; exact .cancel hp
    · cases h
  · cases h

/-- **Step lemma.** Every step is one of the transitions `Trans`. -/
theorem trans_of_step (h : step P s a = some s') : Trans P s a s' := by
  unfold step at h
  split at h
  next =>
    split at h
    next hw => cases h; exact .spawn _ _ _ hw
    · cases h
  next =>
    split at h
    next hw =>
      split at h
      next halive => cases h; exact .kill hw halive
      · cases h
    · cases h
  next =>
    split at h
    next hcl =>
      split at h
      · cases h
      next hconns => cases h; exact .newClient hcl hconns
    · cases h
  next =>
    split at h
    next hi hcl => cases h; exact .begin _ hi hcl
    · cases h
  next =>
    split at h
    next hi => exact .call hi (callTrans_of_callStep h)
    · cases h
  next =>
    split at h
    next hc hw =>
      split at h
      next halive => cases h; exact .foreign hc hw halive
      · cases h
    · cases h
  next =>
    split at h
    next hc =>
      split at h
      next hpeer => cases h; exact .foreignWrite _ hc hpeer.1
      · cases h
    · cases h
  next =>
    split at h
    next hc =>
      split at h
      next hpeer => cases h; exact .foreignClose hc hpeer
      · cases h
    · cases h
  next =>
    split at h
    next hc =>
      split at h
      next hw =>
        split at h
        next halive =>
          obtain ⟨⟨wk', k'⟩, hserve, rfl⟩ := Option.map_eq_some_iff.mp h
          exact .server hc hw halive hserve
        · cases h
      · cases h
    · cases h

end OxEmbed.Ipc

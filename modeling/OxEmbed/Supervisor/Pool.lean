import OxEmbed.Ipc.Client

/-!
# Dispatch through the worker pool, in time

The dispatch functions of `supervisor/pool.rs`, with a clock in milliseconds. A call looks up the
supervisor of its model, polls for a live client until a deadline, and then performs the IPC
exchange of `WorkerClient`: wait for a permit of the client's semaphore, connect, write the
request, read the response. The probe of a heartbeat performs the same exchange, without the
search, so it takes its turn at the semaphore.

Steps that wait for nothing take no time: the clock stands still while a call is about to look up
its supervisor or to check the client slot, or while a permit is free for which a call waits, and a
timer ends at its moment. Everything that waits for a worker, or for another call to give back a
permit, takes as long as the schedule likes, so the workers are arbitrary. So are the moments at
which supervisors are added and their client slots change. The semaphore is fair: permits go to the
calls that wait in the order in which they asked.

## Main definitions

* `PoolConfig`, `DispatchError`, `Phase`, `Call`, `State` : the data.
* `step`, `machine` : one step, and the pool as a machine.
* `Moves`, `SemaphoreStep`, `Trans` : what one step can do.
* `DispatchBounded` : no call is pending for longer than the timeout and one poll interval.

## Main results

* `trans_of_step` : every step is one of the transitions `Trans`.
* `getClient_bounded` : the search for a client is within the bound in every run.
-/

namespace OxEmbed.Pool

open Ipc (IoError WorkerResponse)

variable {F : Type}

/-- `DISPATCH_POLL_INTERVAL`, in milliseconds. -/
def dispatchPollInterval : ℕ := 200

/-- The fields of a `WorkerPool` that do not change. -/
structure PoolConfig where
  /-- In milliseconds. -/
  dispatchTimeout : ℕ

/-- The errors of the dispatch functions. -/
inductive DispatchError
  | noWorker (model : String)
  | timeout (model : String) (timeoutSecs : ℕ)
  | ipc (e : IoError)
  deriving DecidableEq

/-- The program point of a dispatch call. -/
inductive Phase (F : Type)
  /-- About to look up the supervisor. -/
  | lookup
  /-- About to check the client slot of the supervisor. -/
  | polling (sup deadline : ℕ)
  | sleeping (sup deadline wake : ℕ)
  /-- In `semaphore.acquire`. -/
  | acquiring (sup client : ℕ)
  /-- In `UnixStream::connect`. -/
  | connecting (sup client : ℕ)
  /-- In `write_frame`. -/
  | writing (sup client : ℕ)
  /-- In `read_frame`. -/
  | reading (sup client : ℕ)
  | returned (r : Except DispatchError (WorkerResponse F))
  /-- The caller dropped the call. -/
  | dropped
  deriving DecidableEq

namespace Phase

/-- The call has not returned. -/
def Pending : Phase F → Bool
  | .returned _ | .dropped => false
  | _ => true

/-- The call is in its IPC exchange. -/
def InIpc : Phase F → Bool
  | .acquiring _ _ | .connecting _ _ | .writing _ _ | .reading _ _ => true
  | _ => false

/-- The client for whose permit the call waits. -/
def waits : Phase F → Option ℕ
  | .acquiring _ client => some client
  | _ => none

/-- The client whose permit the call holds. -/
def permit : Phase F → Option ℕ
  | .connecting _ client | .writing _ client | .reading _ client => some client
  | _ => none

/-- The call may still wait at the time `now`, with these permits free. -/
def MayWait (permits : ℕ → ℕ) (now : ℕ) : Phase F → Bool
  | .lookup | .polling _ _ => false
  | .sleeping _ _ wake => decide (now ≤ wake)
  | .acquiring _ client => decide (permits client = 0)
  | _ => true

theorem permit_of_waits {p : Phase F} {client : ℕ} (h : p.waits = some client) :
    p.permit = none := by
  cases p <;> first | rfl | cases h

theorem waits_of_permit {p : Phase F} {client : ℕ} (h : p.permit = some client) :
    p.waits = none := by
  cases p <;> first | rfl | cases h

end Phase

/-- A dispatch call, or a probe of a heartbeat. -/
structure Call (F : Type) where
  model : String
  /-- The time at which the call began. -/
  start : ℕ
  phase : Phase F
  /-- The time at which the call got its permit, once it has one. -/
  since : ℕ
  /-- The call is a probe. -/
  probe : Bool
  deriving DecidableEq

/-- The pool, its supervisors and the calls in the order in which they began. -/
structure State (F : Type) where
  clock : ℕ
  /-- The supervisor registered for a model. -/
  workers : String → Option ℕ
  /-- The client slot of each supervisor. -/
  client : ℕ → Option ℕ
  /-- The stamp of the last success of each supervisor. -/
  lastSuccess : ℕ → ℕ
  /-- The free permits of each client. -/
  permits : ℕ → ℕ
  /-- The calls that wait for a permit of each client, the first to get one in front. -/
  queue : ℕ → List ℕ
  calls : List (Call F)

/-- The choices of the schedule for a call in its IPC exchange. -/
inductive IpcEvent (F : Type)
  | acquire
  /-- Connecting succeeds or fails. -/
  | connected (r : Except IoError Unit)
  /-- Writing the request succeeds or fails. -/
  | wrote (r : Except IoError Unit)
  /-- The dispatch function of the client returns. -/
  | answered (r : Except IoError (WorkerResponse F))

/-- The actions of a schedule. -/
inductive Action (F : Type)
  /-- Some time passes. -/
  | tick (d : ℕ)
  /-- `WorkerPool::add`. -/
  | add (model : String) (sup : ℕ)
  /-- A watchdog changes a client slot. -/
  | setClient (sup : ℕ) (client : Option ℕ)
  | begin (model : String)
  /-- The heartbeat of a supervisor sends a probe. -/
  | probe (model : String) (sup : ℕ)
  /-- A call that looks for a client performs its next step. -/
  | advance (i : ℕ)
  | ipc (i : ℕ) (ev : IpcEvent F)
  /-- The caller drops a call. -/
  | drop (i : ℕ)

/-- A response that stamps the last success. -/
def IsSuccess : WorkerResponse F → Bool
  | .err _ _ => false
  | _ => true

namespace State

variable (s : State F)

/-- A call moves to another program point. -/
def setPhase (i : ℕ) (call : Call F) (phase : Phase F) : State F :=
  { s with calls := s.calls.set i { call with phase } }

/-- A call asks for a permit. -/
def enqueue (i client : ℕ) : State F :=
  { s with queue := Function.update s.queue client (s.queue client ++ [i]) }

/-- A call no longer waits for a permit. -/
def dequeue (i client : ℕ) : State F :=
  { s with queue := Function.update s.queue client ((s.queue client).filter (· ≠ i)) }

/-- The permit that a call holds is given back; a call that waits for one no longer does. -/
def release (i : ℕ) : Phase F → State F
  | .acquiring _ client => s.dequeue i client
  | .connecting _ client | .writing _ client | .reading _ client =>
    { s with permits := Function.update s.permits client (s.permits client + 1) }
  | _ => s

/-- `supervisor.record_success()`. -/
def recordSuccess (sup : ℕ) : State F :=
  { s with lastSuccess := Function.update s.lastSuccess sup s.clock }

/-- A call returns. -/
def finish (i : ℕ) (call : Call F) (r : Except DispatchError (WorkerResponse F)) : State F :=
  (s.setPhase i call (.returned r)).release i call.phase

end State

/-- A step of a call that looks for a client. -/
def getClientStep (cfg : PoolConfig) (s : State F) (i : ℕ) (call : Call F) : Option (State F) :=
  match call.phase with
  | .lookup =>
    match s.workers call.model with
    | none => some (s.finish i call (.error (.noWorker call.model)))
    | some sup => some (s.setPhase i call (.polling sup (s.clock + cfg.dispatchTimeout)))
  | .polling sup deadline =>
    match s.client sup with
    | some client => some ((s.enqueue i client).setPhase i call (.acquiring sup client))
    | none =>
      if s.clock ≥ deadline then
        some (s.finish i call (.error (.timeout call.model (cfg.dispatchTimeout / 1000))))
      else some (s.setPhase i call (.sleeping sup deadline (s.clock + dispatchPollInterval)))
  | .sleeping sup deadline wake =>
    if s.clock ≥ wake then some (s.setPhase i call (.polling sup deadline)) else none
  | _ => none

/-- A step of a call in its IPC exchange. -/
def ipcStep (s : State F) (i : ℕ) (call : Call F) (ev : IpcEvent F) : Option (State F) :=
  match ev, call.phase with
  | .acquire, .acquiring sup client =>
    match s.permits client, s.queue client with
    | n + 1, first :: _ =>
      if first = i then
        some ({ s with permits := Function.update s.permits client n }.dequeue i client |>.setPhase
          i { call with since := s.clock } (.connecting sup client))
      else none
    | _, _ => none
  | .connected (.ok _), .connecting sup client =>
    some (s.setPhase i call (.writing sup client))
  | .connected (.error e), .connecting _ _ => some (s.finish i call (.error (.ipc e)))
  | .wrote (.ok _), .writing sup client => some (s.setPhase i call (.reading sup client))
  | .wrote (.error e), .writing _ _ => some (s.finish i call (.error (.ipc e)))
  | .answered (.ok resp), .reading sup _ =>
    let s' := if IsSuccess resp && !call.probe then s.recordSuccess sup else s
    some (s'.finish i call (.ok resp))
  | .answered (.error e), .reading _ _ => some (s.finish i call (.error (.ipc e)))
  | _, _ => none

/-- One step of the pool. -/
def step (cfg : PoolConfig) (s : State F) : Action F → Option (State F)
  | .tick d =>
    if 0 < d ∧ ∀ call ∈ s.calls, call.phase.MayWait s.permits (s.clock + d) then
      some { s with clock := s.clock + d }
    else none
  | .add model sup => some { s with workers := Function.update s.workers model (some sup) }
  | .setClient sup client => some { s with client := Function.update s.client sup client }
  | .begin model => some { s with calls := s.calls ++ [⟨model, s.clock, .lookup, s.clock, false⟩] }
  | .probe model sup =>
    match s.client sup with
    | some client =>
      let call := ⟨model, s.clock, .acquiring sup client, s.clock, true⟩
      some { s.enqueue s.calls.length client with calls := s.calls ++ [call] }
    | none => none
  | .advance i =>
    match s.calls[i]? with
    | some call => getClientStep cfg s i call
    | none => none
  | .ipc i ev =>
    match s.calls[i]? with
    | some call => ipcStep s i call ev
    | none => none
  | .drop i =>
    match s.calls[i]? with
    | some call =>
      if call.phase.Pending then some ((s.setPhase i call .dropped).release i call.phase) else none
    | none => none

/-- The pool as a machine: no call has begun, a client has at least one permit, and everything else
is arbitrary. -/
def machine (cfg : PoolConfig) : Machine (State F) (Action F) where
  Init s := s.calls = [] ∧ ∀ client, s.queue client = [] ∧ 0 < s.permits client
  step := step cfg

/-! ### What a step can do -/

/-- The program point that a step of a call leads to. -/
inductive Moves (cfg : PoolConfig) (s : State F) (call : Call F) : Phase F → Prop
  | found {sup : ℕ} (hp : call.phase = .lookup) (hw : s.workers call.model = some sup) :
      Moves cfg s call (.polling sup (s.clock + cfg.dispatchTimeout))
  | client {sup deadline client : ℕ} (hp : call.phase = .polling sup deadline)
      (hc : s.client sup = some client) : Moves cfg s call (.acquiring sup client)
  | sleep {sup deadline : ℕ} (hp : call.phase = .polling sup deadline)
      (hearly : s.clock < deadline) :
      Moves cfg s call (.sleeping sup deadline (s.clock + dispatchPollInterval))
  | wake {sup deadline wake : ℕ} (hp : call.phase = .sleeping sup deadline wake)
      (hwake : wake ≤ s.clock) : Moves cfg s call (.polling sup deadline)
  | ipc {phase : Phase F} (hp : call.phase.InIpc = true) (hphase : phase.InIpc = true) :
      Moves cfg s call phase
  | ended {phase : Phase F} (hp : call.phase.Pending = true) (hphase : phase.Pending = false) :
      Moves cfg s call phase

/-- What an action that takes call `i` from `call` to `call'` does to the semaphore of its
client. -/
inductive SemaphoreStep (s : State F) (a : Action F) (i : ℕ) (call call' : Call F)
    (s' : State F) : Prop
  | apart (hwaits : call.phase.waits = none) (hwaits' : call'.phase.waits = none)
      (hpermit : call'.phase.permit = call.phase.permit) (hsince : call'.since = call.since)
      (hpermits : s'.permits = s.permits) (hqueue : s'.queue = s.queue)
  | join {sup deadline client : ℕ} (ha : a = .advance i) (hp : call.phase = .polling sup deadline)
      (hclient : s.client sup = some client) (hwaits' : call'.phase.waits = some client)
      (hpermits : s'.permits = s.permits)
      (hqueue : s'.queue = Function.update s.queue client (s.queue client ++ [i]))
  | acquire {client n : ℕ} {rest : List ℕ} (hwaits : call.phase.waits = some client)
      (hfree : s.permits client = n + 1) (hhead : s.queue client = i :: rest)
      (hpermit' : call'.phase.permit = some client) (hsince : call'.since = s.clock)
      (hpermits : s'.permits = Function.update s.permits client n)
      (hqueue : s'.queue = Function.update s.queue client ((s.queue client).filter (· ≠ i)))
  | leave {client : ℕ} (hwaits : call.phase.waits = some client)
      (hended : call'.phase.Pending = false) (hpermits : s'.permits = s.permits)
      (hqueue : s'.queue = Function.update s.queue client ((s.queue client).filter (· ≠ i)))
  | giveBack {client : ℕ} (hpermit : call.phase.permit = some client)
      (hended : call'.phase.Pending = false)
      (hpermits : s'.permits = Function.update s.permits client (s.permits client + 1))
      (hqueue : s'.queue = s.queue)

/-- What one step can do to the clock, to the calls and to the semaphores. -/
inductive Trans (cfg : PoolConfig) (s : State F) : Action F → State F → Prop
  | tick {d : ℕ} (hd : 0 < d)
      (hwait : ∀ call ∈ s.calls, call.phase.MayWait s.permits (s.clock + d) = true) :
      Trans cfg s (.tick d) { s with clock := s.clock + d }
  | environment {a : Action F} {s' : State F} (hclock : s'.clock = s.clock)
      (hcalls : s'.calls = s.calls) (hpermits : s'.permits = s.permits)
      (hqueue : s'.queue = s.queue) : Trans cfg s a s'
  | begin (model : String) : Trans cfg s (.begin model)
      { s with calls := s.calls ++ [⟨model, s.clock, .lookup, s.clock, false⟩] }
  | probe {model : String} {sup client : ℕ} (hclient : s.client sup = some client) :
      Trans cfg s (.probe model sup) { s.enqueue s.calls.length client with
        calls := s.calls ++ [⟨model, s.clock, .acquiring sup client, s.clock, true⟩] }
  | move {a : Action F} {i : ℕ} {call call' : Call F} {s' : State F}
      (hi : s.calls[i]? = some call) (h : Moves cfg s call call'.phase)
      (hstart : call'.start = call.start) (hprobe : call'.probe = call.probe)
      (hclock : s'.clock = s.clock) (hcalls : s'.calls = s.calls.set i call')
      (hsem : SemaphoreStep s a i call call' s') :
      Trans cfg s a s'

variable {cfg : PoolConfig} {s s' : State F} {i : ℕ} {call : Call F} {a : Action F}
  {ev : IpcEvent F}

/-- An action takes call `i` from `call` to another program point. -/
def Steps (cfg : PoolConfig) (s : State F) (a : Action F) (i : ℕ) (call : Call F)
    (s' : State F) : Prop :=
  ∃ call' : Call F, Moves cfg s call call'.phase ∧ call'.start = call.start ∧
    call'.probe = call.probe ∧ s'.clock = s.clock ∧ s'.calls = s.calls.set i call' ∧
    SemaphoreStep s a i call call' s'

@[simp] theorem State.release_clock (p : Phase F) : (s.release i p).clock = s.clock := by
  cases p <;> rfl

@[simp] theorem State.release_calls (p : Phase F) : (s.release i p).calls = s.calls := by
  cases p <;> rfl

@[simp] theorem State.release_lastSuccess (p : Phase F) :
    (s.release i p).lastSuccess = s.lastSuccess := by
  cases p <;> rfl

/-- A call that ends leaves the semaphore. -/
theorem steps_of_release {phase : Phase F} (hp : call.phase.Pending = true)
    (hphase : phase.Pending = false) (hclock : s'.clock = s.clock) (hcalls : s'.calls = s.calls)
    (hpermits : s'.permits = s.permits) (hqueue : s'.queue = s.queue) :
    Steps cfg s a i call ((s'.setPhase i call phase).release i call.phase) := by
  have hnone : phase.waits = none ∧ phase.permit = none := by
    cases phase <;> first | exact ⟨rfl, rfl⟩ | cases hphase
  refine ⟨{ call with phase }, .ended hp hphase, rfl, rfl, ?_, ?_, ?_⟩
  · rw [State.release_clock]
    exact hclock
  · rw [State.release_calls, State.setPhase, hcalls]
  · cases hcall : call.phase with
    | lookup | polling | sleeping =>
      refine .apart (by rw [hcall]; rfl) hnone.1 (by rw [hcall, hnone.2]; rfl) rfl hpermits hqueue
    | acquiring sup client =>
      have hwaits : call.phase.waits = some client := by rw [hcall]; rfl
      refine .leave hwaits hphase hpermits ?_
      simp only [State.release, State.dequeue, State.setPhase, hqueue]
    | connecting sup client | writing sup client | reading sup client =>
      have hpermit : call.phase.permit = some client := by rw [hcall]; rfl
      refine .giveBack hpermit hphase ?_ hqueue
      simp only [State.release, State.setPhase, hpermits]
    | returned | dropped => simp [hcall, Phase.Pending] at hp

theorem steps_of_getClientStep (h : getClientStep cfg s i call = some s') :
    Steps cfg s (.advance i) i call s' := by
  unfold getClientStep at h
  split at h
  next hp =>
    have hover : call.phase.Pending = true := by rw [hp]; rfl
    split at h
    next => cases h; exact steps_of_release hover rfl rfl rfl rfl rfl
    next hw =>
      cases h
      exact ⟨{ call with phase := _ }, .found hp hw, rfl, rfl, rfl, rfl,
        .apart (by rw [hp]; rfl) rfl (by rw [hp]; rfl) rfl rfl rfl⟩
  next hp =>
    have hover : call.phase.Pending = true := by rw [hp]; rfl
    split at h
    next hc =>
      cases h
      exact ⟨{ call with phase := _ }, .client hp hc, rfl, rfl, rfl, rfl,
        .join rfl hp hc rfl rfl rfl⟩
    next =>
      split at h
      next => cases h; exact steps_of_release hover rfl rfl rfl rfl rfl
      next hearly =>
        cases h
        exact ⟨{ call with phase := _ }, .sleep hp (Nat.lt_of_not_le hearly), rfl, rfl, rfl, rfl,
          .apart (by rw [hp]; rfl) rfl (by rw [hp]; rfl) rfl rfl rfl⟩
  next hp =>
    split at h
    next hwake =>
      cases h
      exact ⟨{ call with phase := _ }, .wake hp hwake, rfl, rfl, rfl, rfl,
        .apart (by rw [hp]; rfl) rfl (by rw [hp]; rfl) rfl rfl rfl⟩
    · cases h
  · cases h

theorem steps_of_ipcStep (cfg : PoolConfig) (h : ipcStep s i call ev = some s') :
    Steps cfg s (.ipc i ev) i call s' := by
  unfold ipcStep at h
  split at h
  next hp =>
    split at h
    next hfree hhead =>
      split at h
      next hfirst =>
        cases h
        subst hfirst
        exact ⟨{ call with phase := .connecting _ _, since := s.clock },
          .ipc (by rw [hp]; rfl) rfl,
          rfl, rfl, rfl, rfl, .acquire (by rw [hp]; rfl) hfree hhead rfl rfl rfl rfl⟩
      · cases h
    · cases h
  next hp =>
    cases h
    exact ⟨{ call with phase := .writing _ _ }, .ipc (by rw [hp]; rfl) rfl, rfl, rfl, rfl, rfl,
      .apart (by rw [hp]; rfl) rfl (by rw [hp]; rfl) rfl rfl rfl⟩
  next hp => cases h; exact steps_of_release (by rw [hp]; rfl) rfl rfl rfl rfl rfl
  next hp =>
    cases h
    exact ⟨{ call with phase := .reading _ _ }, .ipc (by rw [hp]; rfl) rfl, rfl, rfl, rfl, rfl,
      .apart (by rw [hp]; rfl) rfl (by rw [hp]; rfl) rfl rfl rfl⟩
  next hp => cases h; exact steps_of_release (by rw [hp]; rfl) rfl rfl rfl rfl rfl
  next hp =>
    cases h
    refine steps_of_release (by rw [hp]; rfl) rfl ?_ ?_ ?_ ?_ <;> split <;> rfl
  next hp => cases h; exact steps_of_release (by rw [hp]; rfl) rfl rfl rfl rfl rfl
  · cases h

/-- **Step lemma.** Every step is one of the transitions `Trans`. -/
theorem trans_of_step (h : step cfg s a = some s') : Trans cfg s a s' := by
  unfold step at h
  split at h
  next =>
    split at h
    next htick => cases h; exact .tick htick.1 htick.2
    · cases h
  next => cases h; exact .environment rfl rfl rfl rfl
  next => cases h; exact .environment rfl rfl rfl rfl
  next => cases h; exact .begin _
  next =>
    split at h
    next hclient => cases h; exact .probe hclient
    · cases h
  next =>
    split at h
    next hi =>
      obtain ⟨call', hmoves, hstart, hprobe, hclock, hcalls, hsem⟩ := steps_of_getClientStep h
      exact .move hi hmoves hstart hprobe hclock hcalls hsem
    · cases h
  next =>
    split at h
    next hi =>
      obtain ⟨call', hmoves, hstart, hprobe, hclock, hcalls, hsem⟩ := steps_of_ipcStep cfg h
      exact .move hi hmoves hstart hprobe hclock hcalls hsem
    · cases h
  next i =>
    split at h
    next call hi =>
      split at h
      next hp =>
        cases h
        have hsteps : Steps cfg s (.drop i) i call
            ((s.setPhase i call .dropped).release i call.phase) :=
          steps_of_release hp rfl rfl rfl rfl rfl
        obtain ⟨call', hmoves, hstart, hprobe, hclock, hcalls, hsem⟩ := hsteps
        exact .move hi hmoves hstart hprobe hclock hcalls hsem
      · cases h
    · cases h

theorem lastSuccess_of_getClientStep (h : getClientStep cfg s i call = some s') :
    s'.lastSuccess = s.lastSuccess := by
  unfold getClientStep at h
  split at h
  next => split at h <;> cases h <;> simp [State.finish, State.setPhase]
  next =>
    split at h
    next => cases h; rfl
    next => split at h <;> cases h <;> simp [State.finish, State.setPhase]
  next =>
    split at h
    next => cases h; rfl
    · cases h
  · cases h

theorem lastSuccess_of_ipcStep (h : ipcStep s i call ev = some s') :
    s'.lastSuccess = s.lastSuccess ∨
      ∃ sup client resp, ev = .answered (.ok resp) ∧ call.phase = .reading sup client ∧
        IsSuccess resp = true ∧ call.probe = false ∧
        s'.lastSuccess = Function.update s.lastSuccess sup s.clock := by
  unfold ipcStep at h
  split at h
  next =>
    split at h
    next => split at h <;> cases h; exact .inl rfl
    · cases h
  next => cases h; exact .inl rfl
  next => cases h; exact .inl (by simp [State.finish, State.setPhase])
  next => cases h; exact .inl rfl
  next => cases h; exact .inl (by simp [State.finish, State.setPhase])
  next hp =>
    cases h
    split
    next hresp =>
      rw [Bool.and_eq_true, Bool.not_eq_true'] at hresp
      exact .inr ⟨_, _, _, rfl, hp, hresp.1, hresp.2, by
        simp [State.finish, State.setPhase, State.recordSuccess]⟩
    · exact .inl (by simp [State.finish, State.setPhase])
  next => cases h; exact .inl (by simp [State.finish, State.setPhase])
  · cases h

/-- Only a dispatch that receives a response other than an error stamps the last success. -/
theorem answered_of_lastSuccess_ne {sup : ℕ} (h : step cfg s a = some s')
    (hne : s'.lastSuccess sup ≠ s.lastSuccess sup) :
    ∃ i call client resp, a = .ipc i (.answered (.ok resp)) ∧ s.calls[i]? = some call ∧
      call.phase = .reading sup client ∧ IsSuccess resp = true ∧ call.probe = false := by
  have hsame (hlast : s'.lastSuccess = s.lastSuccess) : False := hne (congrFun hlast sup)
  unfold step at h
  split at h
  next =>
    split at h
    next => cases h; exact (hsame rfl).elim
    · cases h
  next => cases h; exact (hsame rfl).elim
  next => cases h; exact (hsame rfl).elim
  next => cases h; exact (hsame rfl).elim
  next =>
    split at h
    next => cases h; exact (hsame rfl).elim
    · cases h
  next =>
    split at h
    next => exact (hsame (lastSuccess_of_getClientStep h)).elim
    · cases h
  next i ev =>
    split at h
    next call hi =>
      obtain ⟨sup', client, resp, rfl, hp, hresp, hprobe, hlast⟩ :=
        (lastSuccess_of_ipcStep h).resolve_left hsame
      rw [hlast, Function.update_apply] at hne
      split at hne
      next hsup => exact ⟨i, call, client, resp, rfl, hi, hsup ▸ hp, hresp, hprobe⟩
      · exact absurd rfl hne
    · cases h
  next =>
    split at h
    next =>
      split at h
      next => cases h; exact (hsame (by simp [State.setPhase])).elim
      · cases h
    · cases h

/-! ### The bound -/

/-- The time at which a call has to be over. -/
def Call.bound (cfg : PoolConfig) (call : Call F) : ℕ :=
  call.start + cfg.dispatchTimeout + dispatchPollInterval

/-- No dispatch is pending for longer than the timeout and one poll interval. -/
def DispatchBounded (cfg : PoolConfig) (s : State F) : Prop :=
  ∀ call ∈ s.calls, call.probe = false → call.phase.Pending = true → s.clock ≤ call.bound cfg

/-- What holds of a call that looks for a client. -/
def Searching (cfg : PoolConfig) (clock : ℕ) (call : Call F) : Prop :=
  match call.phase with
  | .lookup => clock = call.start
  | .polling _ deadline =>
    deadline = call.start + cfg.dispatchTimeout ∧ clock ≤ call.bound cfg
  | .sleeping _ deadline wake =>
    deadline = call.start + cfg.dispatchTimeout ∧ wake ≤ call.bound cfg ∧ clock ≤ wake
  | _ => True

theorem Moves.searching {call' : Call F} (h : Moves cfg s call call'.phase)
    (hstart : call'.start = call.start) (hcall : Searching cfg s.clock call) :
    Searching cfg s.clock call' := by
  have hbound : call'.bound cfg = call.bound cfg := by rw [Call.bound, hstart, Call.bound]
  rw [Searching, hstart, hbound]
  rw [Searching] at hcall
  generalize call'.phase = phase at h ⊢
  cases h with
  | found hp =>
    rw [hp] at hcall
    refine ⟨congrArg (· + cfg.dispatchTimeout) hcall, ?_⟩
    rw [Call.bound, ← hcall]
    omega
  | client => trivial
  | sleep hp hearly =>
    rw [hp] at hcall
    refine ⟨hcall.1, ?_, Nat.le_add_right _ _⟩
    rw [hcall.1] at hearly
    exact Nat.add_le_add_right hearly.le _
  | wake hp =>
    rw [hp] at hcall
    exact ⟨hcall.1, hcall.2.2.trans hcall.2.1⟩
  | ipc _ hphase =>
    cases phase with
    | acquiring | connecting | writing | reading => trivial
    | _ => cases hphase
  | ended _ hphase =>
    cases phase with
    | returned | dropped => trivial
    | _ => cases hphase

variable {C : State F → Action F → Prop}

/-- **Run lemma.** In every run, a call that looks for a client is within its deadlines. -/
theorem searching_of_reachable (hs : (machine cfg).Reachable C s) :
    ∀ call ∈ s.calls, Searching cfg s.clock call := by
  refine hs.invariant (P := fun s => ∀ call ∈ s.calls, Searching cfg s.clock call) ?_ ?_
  · intro s hinit call hcall
    rw [hinit.1] at hcall
    cases hcall
  · intro s a s' h _ hstep
    cases trans_of_step hstep with
    | @tick d hd hwait =>
      intro call hcall
      have hold := h call hcall
      have hmay := hwait call hcall
      rw [Searching] at hold ⊢
      cases hp : call.phase with
      | lookup | polling => simp [hp, Phase.MayWait] at hmay
      | sleeping sup deadline wake =>
        rw [hp] at hold hmay
        exact ⟨hold.1, hold.2.1, of_decide_eq_true hmay⟩
      | _ => trivial
    | environment hclock hcalls =>
      rw [hclock, hcalls]
      exact h
    | begin | probe =>
      intro call hcall
      rcases List.mem_append.mp hcall with hcall | hcall
      · exact h call hcall
      · rw [List.mem_singleton.mp hcall]
        trivial
    | move hi hmoves hstart _ hclock hcalls =>
      rw [hclock, hcalls]
      intro c hc
      rcases List.mem_or_eq_of_mem_set hc with hc | rfl
      · exact h c hc
      · exact hmoves.searching hstart (h _ (List.mem_of_getElem? hi))

/-- The search for a client is within the bound in every run. -/
theorem getClient_bounded (hs : (machine cfg).Reachable C s) (hcall : call ∈ s.calls)
    (hp : call.phase.Pending = true) (hipc : call.phase.InIpc = false) :
    s.clock ≤ call.bound cfg := by
  have h := searching_of_reachable hs call hcall
  rw [Searching] at h
  cases hphase : call.phase with
  | lookup =>
    rw [hphase] at h
    rw [h, Call.bound]
    omega
  | polling =>
    rw [hphase] at h
    exact h.2
  | sleeping =>
    rw [hphase] at h
    exact h.2.2.trans h.2.1
  | returned | dropped => simp [hphase, Phase.Pending] at hp
  | _ => simp [hphase, Phase.InIpc] at hipc

/-- The default timeout. -/
def defaultConfig : PoolConfig := ⟨30000⟩

/-- No supervisor is registered yet; every client will have one permit. -/
def idle : State ℕ := ⟨0, fun _ => none, fun _ => none, fun _ => 0, fun _ => 1, fun _ => [], []⟩

theorem idle_init : (machine defaultConfig).Init idle := ⟨rfl, fun _ => ⟨rfl, Nat.one_pos⟩⟩

/-- A worker accepts the connection, reads the request and never answers. -/
theorem not_dispatchBounded_hang :
    ¬ ∀ s : State ℕ, (machine defaultConfig).Reachable (fun _ _ => True) s →
      DispatchBounded defaultConfig s := by
  intro h
  obtain ⟨s, hs, call, hcall, hprobe, hp, hlate⟩ :
      ∃ s ∈ (machine (F := ℕ) defaultConfig).runUnder (fun _ _ => True)
        idle
        [.add "e5" 0, .setClient 0 (some 0), .begin "e5", .advance 0, .advance 0,
          .ipc 0 .acquire, .ipc 0 (.connected (.ok ())), .ipc 0 (.wrote (.ok ())), .tick 30201],
        ∃ call ∈ s.calls, call.probe = false ∧ call.phase.Pending = true ∧
          call.bound defaultConfig < s.clock := by
    decide
  have hreach : (machine defaultConfig).Reachable (fun _ _ => True) s :=
    .of_runUnder idle_init hs
  have hbounded := h s hreach call hcall hprobe hp
  omega

end OxEmbed.Pool

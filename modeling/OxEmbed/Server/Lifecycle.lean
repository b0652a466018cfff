import OxEmbed.Batcher.Drain

/-!
# The life of the server

The server from the start of its HTTP listener to its end, as `main.rs` arranges it in process: the
handlers call `embed_tokens` on the batchers of the models, a signal cancels the shutdown token, the
listener closes after the drain timeout, `axum::serve` returns when no handler is left, and
`drain_batchers` takes the batchers out of the shared state and shuts them down at the same time.

Every handler holds a clone of the shared state, and so may the task of a connection for a while
after its handler has returned; nothing clones the `Arc` of a batcher. A client that goes away drops
its handler at an await, which drops the receiver of the call that the handler is in. The hash maps
yield the batchers in some order, and when a timeout fires is a choice of the schedule.

The field `received` of a state is a history variable: no step reads it.

## Main definitions

* `HandlerPhase`, `MainPhase`, `State`, `Action` : the parties and the choices of a schedule.
* `step`, `machine` : the server as a machine.
* `Trans` : what a step can do, one constructor for each branch of the source.

## Main results

* `trans_of_step` : every step is one of the transitions `Trans`.
-/

namespace OxEmbed.Server

open Batcher (BatcherConfig BatchError RatioArith Shutdown)

/-- What the handler of a request does. -/
inductive HandlerPhase (B : Type)
  /-- Not in a call of `embed_tokens`. -/
  | running
  /-- In the call `r` of the batcher `b`, between the depth check and `try_send`. -/
  | sending (b : B) (r : ℕ)
  /-- In the call `r` of the batcher `b`, awaiting the reply. -/
  | awaiting (b : B) (r : ℕ)
  deriving DecidableEq

/-- The call of a handler. -/
def HandlerPhase.call {B : Type} : HandlerPhase B → Option (B × ℕ)
  | .running => none
  | .sending b r | .awaiting b r => some (b, r)

/-- How far `main` is. -/
inductive MainPhase (B : Type)
  /-- In `axum::serve`. -/
  | serving
  /-- `axum::serve` has returned. -/
  | returned
  /-- In `drain_batchers`: the tasks of the join set that have not begun, and those in
  `DynamicBatcher::shutdown`. With none left the drain is complete. -/
  | draining (todo running : List B)
  /-- `drain_batchers` has returned because the shared state has another owner. -/
  | skipped
  deriving DecidableEq

structure State (B V : Type) where
  /-- The shutdown token is cancelled. -/
  shutdown : Bool
  /-- `shutdown_signal` has not returned. -/
  listening : Bool
  /-- The number of the requests so far. -/
  requests : ℕ
  /-- The handlers that have not returned. -/
  handlers : ℕ → Option (HandlerPhase B)
  /-- The clones of the shared state that tasks of connections hold without a handler. -/
  lingering : ℕ
  main : MainPhase B
  batchers : B → Shutdown V
  /-- The batchers whose timeout fired, and that are not yet cut. -/
  aborting : List B
  /-- The batchers whose timeout fired. -/
  timedOut : List B
  /-- History: what the calls of the handlers returned. -/
  received : List (ℕ × B × ℕ × Except BatchError (List V))

inductive Action (B V : Type)
  /-- A request arrives and its handler starts; its connection may have been accepted before the
  listener closed. -/
  | arrive
  /-- The handler `h` calls `embed_tokens` and checks the depth of the queue. -/
  | call (h : ℕ) (b : B) (tokenIds : List (List UInt32))
  | trySend (h : ℕ)
  /-- The call that the handler awaits returns. -/
  | receive (h : ℕ)
  | respond (h : ℕ)
  /-- The client of the request goes away. -/
  | disconnect (h : ℕ)
  /-- The task of a connection drops its clone of the shared state. -/
  | release
  /-- The worker of a batcher moves. -/
  | work (b : B) (a : Batcher.Action V)
  /-- SIGTERM or SIGINT. -/
  | signal
  /-- `shutdown_signal` returns, and the listener closes. -/
  | closeListener
  | serveReturns
  /-- `drain_batchers` takes the batchers in this order. -/
  | collect (order : List B)
  /-- `DynamicBatcher::shutdown` begins and drops the sender. -/
  | begin (b : B)
  /-- The worker of a batcher ended, and so does its shutdown. -/
  | join (b : B)
  /-- The timeout of a shutdown fires. -/
  | timeout (b : B)
  /-- The abort takes effect. -/
  | abort (b : B)

variable {F V B : Type} [DecidableEq B]

namespace State

variable (s : State B V)

/-- No handler is left. -/
def noHandler : Bool := (List.range s.requests).all fun h => (s.handlers h).isNone

@[simps] def setHandler (h : ℕ) (p : Option (HandlerPhase B)) : State B V :=
  { s with handlers := Function.update s.handlers h p }

@[simps] def setBatcher (b : B) (t : Shutdown V) : State B V :=
  { s with batchers := Function.update s.batchers b t }

/-- The call of a handler returns. -/
@[simps] def finishCall (h : ℕ) (b : B) (r : ℕ) (x : Except BatchError (List V)) : State B V :=
  { s with
    handlers := Function.update s.handlers h (some .running)
    received := s.received ++ [(h, b, r, x)] }

/-- A handler ends. -/
@[simps] def endHandler (h : ℕ) : State B V :=
  { s with handlers := Function.update s.handlers h none, lingering := s.lingering + 1 }

/-- What the call `r` of the batcher `b` returned without waiting for a reply. -/
def refusal (b : B) (r : ℕ) : Option (Except BatchError (List V)) :=
  (s.batchers b).batcher.returned.lookup r

end State

variable [RatioArith F]

/-- One step of a batcher, with its shutdown. -/
def State.batcherStep (cfg : B → BatcherConfig F) (s : State B V) (b : B)
    (a : Batcher.ShutdownAction V) : Option (State B V) :=
  (Shutdown.step (cfg b) (s.batchers b) a).map fun t => s.setBatcher b t

/-- One step of the server; `entries` are the batchers of the models. -/
def step (cfg : B → BatcherConfig F) (entries : List B) (s : State B V) :
    Action B V → Option (State B V)
  | .arrive =>
    if s.main = .serving then
      some { s.setHandler s.requests (some .running) with requests := s.requests + 1 }
    else none
  | .call h b tokenIds =>
    match s.handlers h with
    | some .running =>
      let r := (s.batchers b).batcher.nextCall
      (s.batcherStep cfg b (.batcher (.submit tokenIds))).map fun s' =>
        -- an empty request and a full queue return at once
        match s'.refusal b r with
        | some x => s'.finishCall h b r x
        | none => s'.setHandler h (some (.sending b r))
    | _ => none
  | .trySend h =>
    match s.handlers h with
    | some (.sending b r) =>
      match (s.batchers b).batcher.checked.find? fun item => item.reply = r with
      | some item =>
        (s.batcherStep cfg b (.batcher (.trySend item))).map fun s' =>
          match s'.refusal b r with
          | some x => s'.finishCall h b r x
          | none => s'.setHandler h (some (.awaiting b r))
      | none => none
    | _ => none
  | .receive h =>
    match s.handlers h with
    | some (.awaiting b r) =>
      match (s.batchers b).results r with
      | x :: _ => some (s.finishCall h b r x)
      | [] => none
    | _ => none
  | .respond h =>
    match s.handlers h with
    | some .running => some (s.endHandler h)
    | _ => none
  | .disconnect h =>
    match s.handlers h with
    | some .running => some (s.endHandler h)
    | some (.awaiting b r) =>
      (s.batcherStep cfg b (.batcher (.cancel r))).map fun s' => s'.endHandler h
    -- no await lies between the depth check and `try_send`
    | _ => none
  | .release => if s.lingering = 0 then none else some { s with lingering := s.lingering - 1 }
  | .work b a => if a.advances then s.batcherStep cfg b (.batcher a) else none
  | .signal => some { s with shutdown := true }
  | .closeListener => if s.shutdown then some { s with listening := false } else none
  | .serveReturns =>
    if s.main = .serving ∧ s.listening = false ∧ s.noHandler then
      some { s with main := .returned }
    else none
  | .collect order =>
    if s.main = .returned ∧ order.Perm entries then
      some { s with main := if s.lingering = 0 then .draining order [] else .skipped }
    else none
  | .begin b =>
    match s.main with
    | .draining todo running =>
      if b ∈ todo then
        (s.batcherStep cfg b (.batcher .close)).map fun s' =>
          { s' with main := .draining (todo.erase b) (b :: running) }
      else none
    | _ => none
  | .join b =>
    match s.main with
    | .draining todo running =>
      if b ∈ running ∧ (s.batchers b).batcher.phase.Over then
        some { s with main := .draining todo (running.erase b) }
      else none
    | _ => none
  | .timeout b =>
    match s.main with
    | .draining todo running =>
      if b ∈ running then
        some { s with
          main := .draining todo (running.erase b)
          aborting := b :: s.aborting
          timedOut := b :: s.timedOut }
      else none
    | _ => none
  | .abort b =>
    if b ∈ s.aborting then
      (s.batcherStep cfg b .abort).map fun s' => { s' with aborting := s'.aborting.erase b }
    else none

/-- The server when it starts to listen. -/
def start : State B V where
  shutdown := false
  listening := true
  requests := 0
  handlers _ := none
  lingering := 0
  main := .serving
  batchers _ := ⟨Batcher.start, []⟩
  aborting := []
  timedOut := []
  received := []

/-- The server as a machine. -/
def machine (V : Type) (cfg : B → BatcherConfig F) (entries : List B) :
    Machine (State B V) (Action B V) where
  Init s := (∀ b, 0 < (cfg b).maxQueue.toNat) ∧ entries.Nodup ∧ s = start
  step := step cfg entries

/-! ### What a step can do -/

/-- What one step can do, one constructor for each branch of the source. -/
inductive Trans (cfg : B → BatcherConfig F) (entries : List B) (s : State B V) :
    Action B V → State B V → Prop
  | arrive (hm : s.main = .serving) :
      Trans cfg entries s .arrive
        { s.setHandler s.requests (some .running) with requests := s.requests + 1 }
  | returned {h b tokenIds t x} (hp : s.handlers h = some .running)
      (ht : Shutdown.step (cfg b) (s.batchers b) (.batcher (.submit tokenIds)) = some t)
      (hx : t.batcher.returned.lookup (s.batchers b).batcher.nextCall = some x) :
      Trans cfg entries s (.call h b tokenIds)
        ((s.setBatcher b t).finishCall h b (s.batchers b).batcher.nextCall x)
  | checked {h b tokenIds t} (hp : s.handlers h = some .running)
      (ht : Shutdown.step (cfg b) (s.batchers b) (.batcher (.submit tokenIds)) = some t)
      (hx : t.batcher.returned.lookup (s.batchers b).batcher.nextCall = none) :
      Trans cfg entries s (.call h b tokenIds)
        ((s.setBatcher b t).setHandler h
          (some (.sending b (s.batchers b).batcher.nextCall)))
  | rejected {h b r item t x} (hp : s.handlers h = some (.sending b r))
      (hi : item ∈ (s.batchers b).batcher.checked) (hr : item.reply = r)
      (ht : Shutdown.step (cfg b) (s.batchers b) (.batcher (.trySend item)) = some t)
      (hx : t.batcher.returned.lookup r = some x) :
      Trans cfg entries s (.trySend h) ((s.setBatcher b t).finishCall h b r x)
  | sent {h b r item t} (hp : s.handlers h = some (.sending b r))
      (hi : item ∈ (s.batchers b).batcher.checked) (hr : item.reply = r)
      (ht : Shutdown.step (cfg b) (s.batchers b) (.batcher (.trySend item)) = some t)
      (hx : t.batcher.returned.lookup r = none) :
      Trans cfg entries s (.trySend h)
        ((s.setBatcher b t).setHandler h (some (.awaiting b r)))
  | receive {h b r x} (hp : s.handlers h = some (.awaiting b r))
      (hx : x ∈ (s.batchers b).results r) :
      Trans cfg entries s (.receive h) (s.finishCall h b r x)
  | respond {h} (hp : s.handlers h = some .running) :
      Trans cfg entries s (.respond h) (s.endHandler h)
  | leave {h} (hp : s.handlers h = some .running) :
      Trans cfg entries s (.disconnect h) (s.endHandler h)
  | cancel {h b r t} (hp : s.handlers h = some (.awaiting b r))
      (ht : Shutdown.step (cfg b) (s.batchers b) (.batcher (.cancel r)) = some t) :
      Trans cfg entries s (.disconnect h) ((s.setBatcher b t).endHandler h)
  | release : Trans cfg entries s .release { s with lingering := s.lingering - 1 }
  | work {b a t} (ha : a.advances = true)
      (ht : Shutdown.step (cfg b) (s.batchers b) (.batcher a) = some t) :
      Trans cfg entries s (.work b a) (s.setBatcher b t)
  | signal : Trans cfg entries s .signal { s with shutdown := true }
  | closeListener : Trans cfg entries s .closeListener { s with listening := false }
  | serveReturns (hm : s.main = .serving) (hl : s.listening = false)
      (hh : s.noHandler = true) : Trans cfg entries s .serveReturns { s with main := .returned }
  | collect {order} (hm : s.main = .returned) (ho : order.Perm entries) :
      Trans cfg entries s (.collect order) { s with main := .draining order [] }
  | skip {order} (hm : s.main = .returned) :
      Trans cfg entries s (.collect order) { s with main := .skipped }
  | begin {b todo running t} (hm : s.main = .draining todo running) (hb : b ∈ todo)
      (ht : Shutdown.step (cfg b) (s.batchers b) (.batcher .close) = some t) :
      Trans cfg entries s (.begin b)
        { s.setBatcher b t with main := .draining (todo.erase b) (b :: running) }
  | join {b todo running} (hm : s.main = .draining todo running) (hb : b ∈ running)
      (ho : (s.batchers b).batcher.phase.Over = true) :
      Trans cfg entries s (.join b) { s with main := .draining todo (running.erase b) }
  | timeout {b todo running} (hm : s.main = .draining todo running) (hb : b ∈ running) :
      Trans cfg entries s (.timeout b)
        { s with
          main := .draining todo (running.erase b)
          aborting := b :: s.aborting
          timedOut := b :: s.timedOut }
  | abort {b t} (hb : b ∈ s.aborting)
      (ht : Shutdown.step (cfg b) (s.batchers b) .abort = some t) :
      Trans cfg entries s (.abort b)
        { s.setBatcher b t with aborting := s.aborting.erase b }

variable {cfg : B → BatcherConfig F} {entries : List B} {s s' : State B V} {a : Action B V}

theorem batcherStep_eq_some {b : B} {a : Batcher.ShutdownAction V}
    (h : s.batcherStep cfg b a = some s') :
    ∃ t, Shutdown.step (cfg b) (s.batchers b) a = some t ∧ s' = s.setBatcher b t := by
  obtain ⟨t, ht, rfl⟩ := Option.map_eq_some_iff.1 h
  exact ⟨t, ht, rfl⟩

omit [RatioArith F] in
theorem refusal_setBatcher (b : B) (t : Shutdown V) (r : ℕ) :
    (s.setBatcher b t).refusal b r = t.batcher.returned.lookup r := by
  rw [State.refusal, State.setBatcher_batchers, Function.update_self]

/-- Every step is one of the transitions `Trans`. -/
theorem trans_of_step (h : step cfg entries s a = some s') : Trans cfg entries s a s' := by
  cases a with
  | arrive =>
    simp only [step] at h
    split at h <;> cases h
    exact .arrive ‹_›
  | call h₀ b tokenIds =>
    simp only [step] at h
    split at h
    next hp =>
      obtain ⟨s₁, hs₁, rfl⟩ := Option.map_eq_some_iff.1 h
      obtain ⟨t, ht, rfl⟩ := batcherStep_eq_some hs₁
      rw [refusal_setBatcher]
      split
      next x hx => exact .returned hp ht hx
      next hx => exact .checked hp ht hx
    · cases h
  | trySend h₀ =>
    simp only [step] at h
    split at h
    next b r hp =>
      split at h
      next item hfind =>
        obtain ⟨s₁, hs₁, rfl⟩ := Option.map_eq_some_iff.1 h
        obtain ⟨t, ht, rfl⟩ := batcherStep_eq_some hs₁
        have hi := List.mem_of_find?_eq_some hfind
        have hr : item.reply = r := by simpa using List.find?_some hfind
        rw [refusal_setBatcher]
        split
        next x hx => exact .rejected hp hi hr ht hx
        next hx => exact .sent hp hi hr ht hx
      · cases h
    · cases h
  | receive h₀ =>
    simp only [step] at h
    split at h
    next b r hp =>
      split at h <;> cases h
      next x rest hx => exact .receive hp (hx ▸ List.mem_cons_self)
    · cases h
  | respond h₀ =>
    simp only [step] at h
    split at h <;> cases h
    exact .respond ‹_›
  | disconnect h₀ =>
    simp only [step] at h
    split at h
    · cases h
      exact .leave ‹_›
    next b r hp =>
      obtain ⟨s₁, hs₁, rfl⟩ := Option.map_eq_some_iff.1 h
      obtain ⟨t, ht, rfl⟩ := batcherStep_eq_some hs₁
      exact .cancel hp ht
    · cases h
  | release =>
    simp only [step] at h
    split at h <;> cases h
    exact .release
  | work b a =>
    simp only [step] at h
    split at h
    next ha =>
      obtain ⟨t, ht, rfl⟩ := batcherStep_eq_some h
      exact .work ha ht
    · cases h
  | signal =>
    cases h
    exact .signal
  | closeListener =>
    simp only [step] at h
    split at h <;> cases h
    exact .closeListener
  | serveReturns =>
    simp only [step] at h
    split at h
    next hc =>
      cases h
      exact .serveReturns hc.1 hc.2.1 hc.2.2
    · cases h
  | collect order =>
    simp only [step] at h
    split at h
    next hc =>
      cases h
      split
      · exact .collect hc.1 hc.2
      · exact .skip hc.1
    · cases h
  | begin b =>
    simp only [step] at h
    split at h
    next todo running hm =>
      split at h
      next hb =>
        obtain ⟨s₁, hs₁, rfl⟩ := Option.map_eq_some_iff.1 h
        obtain ⟨t, ht, rfl⟩ := batcherStep_eq_some hs₁
        exact .begin hm hb ht
      · cases h
    · cases h
  | join b =>
    simp only [step] at h
    split at h
    next todo running hm =>
      split at h
      next hb =>
        cases h
        exact .join hm hb.1 hb.2
      · cases h
    · cases h
  | timeout b =>
    simp only [step] at h
    split at h
    next todo running hm =>
      split at h <;> cases h
      exact .timeout hm ‹_›
    · cases h
  | abort b =>
    simp only [step] at h
    split at h
    next hb =>
      obtain ⟨s₁, hs₁, rfl⟩ := Option.map_eq_some_iff.1 h
      obtain ⟨t, ht, rfl⟩ := batcherStep_eq_some hs₁
      exact .abort hb ht
    · cases h

end OxEmbed.Server

import OxEmbed.Ipc.Matching

/-!
# What a step does to a connection and to a worker

A step of the clients and workers changes the program point of at most one task, and the counters
of at most one worker: those of a task that makes a step, or of a worker that is killed. The
lemmas say this for one connection and for one worker, whatever the step is.

## Main definitions

* `Conn.SameTask` : two states of a connection between which its task has made no step.
* `ConnStep`, `WorkerStep` : what a step does to one connection, and to one worker.

## Main results

* `connStep_of_trans`, `workerStep_of_trans` : every step does one of these things.
-/

namespace OxEmbed.Ipc

variable {F : Type} {P : Postcard F} {s s' : State F} {a : Action F}

/-- The task of the connection and what it has read and written are the same. -/
structure Conn.SameTask (k k' : Conn F) : Prop where
  worker : k'.worker = k.worker
  peer : k'.peer = k.peer
  task : k'.task = k.task
  requests : k'.requests = k.requests
  responses : k'.responses = k.responses
  toPeer : k'.toPeer = k.toPeer

theorem Conn.SameTask.refl (k : Conn F) : k.SameTask k := ⟨rfl, rfl, rfl, rfl, rfl, rfl⟩

theorem Conn.SameTask.hangUp (k : Conn F) : k.SameTask { k with peerOpen := false } :=
  ⟨rfl, rfl, rfl, rfl, rfl, rfl⟩

theorem Conn.SameTask.receive (k : Conn F) (bytes : List UInt8) :
    k.SameTask { k with toWorker := bytes } := ⟨rfl, rfl, rfl, rfl, rfl, rfl⟩

/-! ### One connection -/

/-- What a step does to the connection `c`. -/
inductive ConnStep (P : Postcard F) (s : State F) (a : Action F) (s' : State F) (c : ℕ) : Prop
  | absent (ha : ∀ ev, a ≠ .server c ev) (hc : s.conns c = none) (hc' : s'.conns c = none)
  | opened {k' : Conn F} {wk : Worker} (ha : ∀ ev, a ≠ .server c ev) (hc : s.conns c = none)
      (hc' : s'.conns c = some k') (hw : s.workers k'.worker = some wk)
      (hnew : (Conn.new k'.worker k'.peer).SameTask k')
  | kept {k k' : Conn F} (ha : ∀ ev, a ≠ .server c ev) (hc : s.conns c = some k)
      (hc' : s'.conns c = some k') (hkeep : k.SameTask k')
  | killed {k : Conn F} (ha : a = .kill k.worker) (hc : s.conns c = some k)
      (hc' : s'.conns c = some k.kill)
  | served {k k' : Conn F} {wk wk' : Worker} {ev : ServerEvent F} (ha : a = .server c ev)
      (hc : s.conns c = some k) (hw : s.workers k.worker = some wk) (halive : wk.alive = true)
      (hserve : serve P wk k ev = some (wk', k')) (hc' : s'.conns c = some k')

/-- The connection is not changed. -/
theorem ConnStep.of_eq {c : ℕ} (ha : ∀ ev, a ≠ .server c ev) (h : s'.conns c = s.conns c) :
    ConnStep P s a s' c := by
  cases hc : s.conns c with
  | none => exact .absent ha hc (h.trans hc)
  | some k => exact .kept ha hc (h.trans hc) (.refl k)

/-- The connection may be changed, without a step of its task. -/
theorem ConnStep.of_map {c : ℕ} (ha : ∀ ev, a ≠ .server c ev) (f : Conn F → Conn F)
    (h : s'.conns c = (s.conns c).map f) (hf : ∀ k : Conn F, k.SameTask (f k)) :
    ConnStep P s a s' c := by
  cases hc : s.conns c with
  | none => exact .absent ha hc (by rw [h, hc, Option.map_none])
  | some k => exact .kept ha hc (by rw [h, hc, Option.map_some]) (hf k)

theorem State.hangUp_conns_eq (s : State F) (d : Option ℕ) (c : ℕ) :
    (s.hangUp d).conns c =
      (s.conns c).map fun k => if d = some c then { k with peerOpen := false } else k := by
  rw [State.hangUp_conns]
  split
  · rfl
  · rw [Option.map_id']

theorem sameTask_hangUp (d : Option ℕ) (c : ℕ) (k : Conn F) :
    k.SameTask (if d = some c then { k with peerOpen := false } else k) := by
  split
  · exact .hangUp k
  · exact .refl k

theorem State.finish_conns (s : State F) (i : ℕ) (call : Call F) (phase : CallPhase F) (c : ℕ) :
    (s.finish i call phase).conns c = (s.conns c).map fun k =>
      if call.phase.conn = some c then { k with peerOpen := false } else k :=
  State.hangUp_conns_eq (s.setCall i { call with phase }) call.phase.conn c

theorem connStep_of_callTrans {i : ℕ} {call : Call F} {ev : CallEvent}
    (h : CallTrans P s i call ev s') (c : ℕ) : ConnStep P s (.call i ev) s' c := by
  cases h with
  | acquire | flush | cancelAcquire => exact .of_eq nofun rfl
  | @connect d w wk bytes hp hd hw =>
    by_cases hcd : c = d
    · subst hcd
      have hnew : Function.update s.conns c (some (Conn.new w (some i))) c =
          some (Conn.new w (some i)) := Function.update_self ..
      exact .opened nofun hd hnew hw (.refl _)
    · exact .of_eq nofun (Function.update_of_ne hcd _ _)
  | @requestTooLarge d w wk e hp hd hw =>
    by_cases hcd : c = d
    · subst hcd
      have hnew : ((s.setConn c { Conn.new w (some i) with peerOpen := false }).finish i call
          (.returned (some c) (.error e))).conns c =
            some { Conn.new w (some i) with peerOpen := false } := by
        rw [State.finish_conns, hp]
        simp [CallPhase.conn]
      exact .opened nofun hd hnew hw (.hangUp _)
    · refine .of_map nofun _ ((State.finish_conns ..).trans ?_)
        (sameTask_hangUp call.phase.conn c)
      rw [State.setConn_conns, Function.update_of_ne hcd]
  | @send d rest k n hp hd =>
    by_cases hcd : c = d
    · subst hcd
      exact .kept nofun hd (Function.update_self ..) (.receive k _)
    · exact .of_eq nofun (Function.update_of_ne hcd _ _)
  | receive | malformed | fail | cancel =>
    exact .of_map nofun _ (State.finish_conns ..) (sameTask_hangUp call.phase.conn c)

/-- **Every step does one of these things to a connection.** -/
theorem connStep_of_trans (h : Trans P s a s') (c : ℕ) : ConnStep P s a s' c := by
  cases h with
  | spawn | newClient | begin => exact .of_eq nofun rfl
  | @kill w wk hw halive =>
    cases hc : s.conns c with
    | none => exact .absent nofun hc (by simp [State.kill, hc])
    | some k =>
      by_cases hkw : k.worker = w
      · exact .killed (by rw [hkw]) hc (by simp [State.kill, hc, hkw])
      · exact .kept nofun hc (by simp [State.kill, hc, hkw]) (.refl k)
  | call hi hcall => exact connStep_of_callTrans hcall c
  | @foreign d w wk hd hw =>
    by_cases hcd : c = d
    · subst hcd
      have hnew : Function.update s.conns c (some (Conn.new w none)) c =
          some (Conn.new w none) := Function.update_self ..
      exact .opened nofun hd hnew hw (.refl _)
    · exact .of_eq nofun (Function.update_of_ne hcd _ _)
  | @foreignWrite d k bytes hd =>
    by_cases hcd : c = d
    · subst hcd
      exact .kept nofun hd (Function.update_self ..) (.receive k _)
    · exact .of_eq nofun (Function.update_of_ne hcd _ _)
  | @foreignClose d =>
    exact .of_map nofun _ (State.hangUp_conns_eq s (some d) c) (sameTask_hangUp (some d) c)
  | @server d k k' wk wk' ev hd hw halive hserve =>
    by_cases hcd : c = d
    · subst hcd
      exact .served rfl hd hw halive hserve (Function.update_self ..)
    · refine .of_eq (fun ev' ha => ?_) (Function.update_of_ne hcd _ _)
      exact hcd (Action.server.inj ha).1.symm

/-! ### One worker -/

/-- What a step does to the worker `w`. -/
inductive WorkerStep (P : Postcard F) (s : State F) (a : Action F) (s' : State F) (w : ℕ) : Prop
  | spawned {kind : String} {maxWaiters poolSize : ℕ} (ha : a = .spawn w kind maxWaiters poolSize)
      (hw : s.workers w = none)
      (hw' : s'.workers w = some ⟨kind, maxWaiters, 0, poolSize, false, true⟩)
  | killed {wk : Worker} (ha : a = .kill w) (hw : s.workers w = some wk)
      (hw' : s'.workers w = some { wk with alive := false })
  | kept (hspawn : ∀ kind maxWaiters poolSize, a ≠ .spawn w kind maxWaiters poolSize)
      (hkill : a ≠ .kill w) (hw' : s'.workers w = s.workers w)
      (hother : ∀ c ev k, a = .server c ev → s.conns c = some k → k.worker ≠ w)
  | served {c : ℕ} {ev : ServerEvent F} {k k' : Conn F} {wk wk' : Worker} (ha : a = .server c ev)
      (hc : s.conns c = some k) (hk : k.worker = w) (hw : s.workers w = some wk)
      (hserve : serve P wk k ev = some (wk', k')) (hc' : s'.conns c = some k')
      (hw' : s'.workers w = some wk')

/-- **Every step does one of these things to a worker.** -/
theorem workerStep_of_trans (h : Trans P s a s') (w : ℕ) : WorkerStep P s a s' w := by
  cases h with
  | @spawn v kind maxWaiters poolSize hv =>
    by_cases hwv : w = v
    · subst hwv
      exact .spawned rfl hv (by rw [State.setWorker_workers, Function.update_self])
    · refine .kept (fun _ _ _ ha => hwv ?_) nofun (Function.update_of_ne hwv _ _)
        fun _ _ _ ha => nomatch ha
      exact (Action.spawn.inj ha).1.symm
  | @kill v wk hv =>
    by_cases hwv : w = v
    · subst hwv
      exact .killed rfl hv (Function.update_self ..)
    · refine .kept nofun (fun ha => hwv ?_) (Function.update_of_ne hwv _ _)
        fun _ _ _ ha => nomatch ha
      exact (Action.kill.inj ha).symm
  | newClient | begin | foreign | foreignWrite | foreignClose =>
    exact .kept nofun nofun rfl fun _ _ _ ha => nomatch ha
  | call hi hcall => cases hcall <;> exact .kept nofun nofun rfl fun _ _ _ ha => nomatch ha
  | @server d k k' wk wk' ev hd hv halive hserve =>
    by_cases hwk : k.worker = w
    · subst hwk
      refine .served rfl hd rfl hv hserve ?_ ?_
      · rw [State.setConn_conns, Function.update_self]
      · rw [State.setConn_workers, State.setWorker_workers, Function.update_self]
    · refine .kept nofun nofun (Function.update_of_ne (Ne.symm hwk) _ _) fun c ev' kc ha hc => ?_
      obtain ⟨rfl, -⟩ := Action.server.inj ha
      obtain rfl := Option.some.inj (hd.symm.trans hc)
      exact hwk

end OxEmbed.Ipc

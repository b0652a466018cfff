import OxEmbed.Ipc.Admission

/-!
# The admission of the requests of one client

A client has one request in flight for each permit of its semaphore. A request is read by a worker,
admitted and answered while its call holds the permit, as long as the call is not dropped before
the response: so a worker whose only traffic is one client never counts more tasks than the client
has permits, and rejects none of its requests when its limit is at least that.

## Main definitions

* `holders` : the calls of a client that hold a permit.
* `OnlyTraffic` : the steps in which the worker has no other traffic than the client.
* `Idle` : the connection brings the worker no request.
* `AdmissionCorrect` : the accounting of the admission.

## Main results

* `permits_of_path` : the semaphore of a client hands out as many permits as it was made with.
* `admission_correct` : the accounting of the admission, in every run.
-/

namespace OxEmbed.Ipc

open Framing

variable {F : Type} {P : Postcard F} {s s' : State F} {a : Action F} {as : List (Action F)}
  {C : State F → Action F → Prop}

/-! ### The permits of a client -/

/-- The calls of the client `cl` that hold a permit. -/
def holders (s : State F) (cl : ℕ) : Set ℕ :=
  {i | ∃ call, s.calls i = some call ∧ call.client = cl ∧ call.phase.HoldsPermit = true}

theorem mem_holders {i : ℕ} {call : Call F} (hi : s.calls i = some call) :
    i ∈ holders s call.client ↔ call.phase.HoldsPermit = true := by
  refine ⟨fun ⟨call', hi', _, hh⟩ => ?_, fun hh => ⟨call, hi, rfl, hh⟩⟩
  obtain rfl := Option.some.inj (hi.symm.trans hi')
  exact hh

/-- A step of one call changes the phase of no other. -/
theorem oneChange_holders {i : ℕ} {call call' : Call F} (hi : s.calls i = some call)
    (hcalls : s'.calls = Function.update s.calls i (some call'))
    (hclient : call'.client = call.client) :
    OneChange (holders s call.client) (holders s' call.client) i call.phase.HoldsPermit
      call'.phase.HoldsPermit where
  before := mem_holders hi
  after := by
    rw [← hclient]
    exact mem_holders (by rw [hcalls, Function.update_self])
  others j hj := by
    rw [holders, holders, Set.mem_ofPred_eq, Set.mem_ofPred_eq, hcalls, Function.update_of_ne hj]

theorem holders_of_other {i cl : ℕ} {call call' : Call F} (hi : s.calls i = some call)
    (hcalls : s'.calls = Function.update s.calls i (some call'))
    (hclient : call'.client = call.client) (hcl : call.client ≠ cl) :
    holders s' cl = holders s cl := by
  ext j
  rw [holders, holders, Set.mem_ofPred_eq, Set.mem_ofPred_eq, hcalls]
  by_cases hji : j = i
  · subst hji
    rw [Function.update_self, hi]
    refine iff_of_false ?_ ?_
    · rintro ⟨_, hcall, hcl', _⟩
      obtain rfl := Option.some.inj hcall
      exact hcl (hclient.symm.trans hcl')
    · rintro ⟨_, hcall, hcl', _⟩
      obtain rfl := Option.some.inj hcall
      exact hcl hcl'
  · rw [Function.update_of_ne hji]

/-- The free permits of a client and those of its calls are as many as it was made with. -/
def PermitsOf (s : State F) (cl conns : ℕ) : Prop :=
  ∃ client, s.clients cl = some client ∧
    ∃ held : ℕ, (holders s cl).encard = held ∧ client.permits + held = conns

/-- The step of a call, as its client sees it. -/
structure CallMove (s s' : State F) (i : ℕ) (call call' : Call F) : Prop where
  calls : s'.calls = Function.update s.calls i (some call')
  client : call'.client = call.client
  others : ∀ cl, cl ≠ call.client → s'.clients cl = s.clients cl
  permits : ∀ client, s.clients call.client = some client →
    ∃ client', s'.clients call.client = some client' ∧
      client'.permits + call'.phase.HoldsPermit.toNat =
        client.permits + call.phase.HoldsPermit.toNat

theorem State.finish_calls (s : State F) (i : ℕ) (call : Call F) (phase : CallPhase F) :
    (s.finish i call phase).calls = Function.update s.calls i (some { call with phase }) := rfl

/-- A call that ends gives back its permit. -/
theorem callMove_finish {i : ℕ} {call : Call F} {phase : CallPhase F}
    (hcalls : s'.calls = Function.update s.calls i (some { call with phase }))
    (hclients : s'.clients = Function.update s.clients call.client
      ((s.clients call.client).map fun client => { client with permits := client.permits + 1 }))
    (hholds : call.phase.HoldsPermit = true) (hphase : phase.HoldsPermit = false) :
    CallMove s s' i call { call with phase } where
  calls := hcalls
  client := rfl
  others cl hcl := by rw [hclients, Function.update_of_ne hcl]
  permits client hclient := by
    refine ⟨{ client with permits := client.permits + 1 }, ?_, ?_⟩
    · rw [hclients, Function.update_self, hclient, Option.map_some]
    · rw [hholds, hphase]
      rfl

theorem callMove_keep {i : ℕ} {call : Call F} {phase : CallPhase F}
    (hcalls : s'.calls = Function.update s.calls i (some { call with phase }))
    (hclients : s'.clients = s.clients) (hphase : phase.HoldsPermit = call.phase.HoldsPermit) :
    CallMove s s' i call { call with phase } where
  calls := hcalls
  client := rfl
  others cl _ := by rw [hclients]
  permits client hclient := ⟨client, by rw [hclients, hclient], by rw [hphase]⟩

theorem callMove_of_callTrans {i : ℕ} {call : Call F} {ev : CallEvent}
    (h : CallTrans P s i call ev s') : ∃ call', CallMove s s' i call call' := by
  cases h with
  | @acquire client hp hcl hpermit =>
    refine ⟨{ call with phase := .connecting }, rfl, rfl, fun cl hne => ?_, fun client' hcl' => ?_⟩
    · exact Function.update_of_ne hne _ _
    · obtain rfl := Option.some.inj (hcl.symm.trans hcl')
      refine ⟨_, Function.update_self .., ?_⟩
      rw [hp]
      exact Nat.sub_one_add_one hpermit
  | connect hp => exact ⟨_, callMove_keep rfl rfl (by rw [hp]; rfl)⟩
  | requestTooLarge hp => exact ⟨_, callMove_finish rfl rfl (by rw [hp]; rfl) rfl⟩
  | send n hp => exact ⟨_, callMove_keep rfl rfl (by rw [hp]; rfl)⟩
  | flush hp => exact ⟨_, callMove_keep rfl rfl (by rw [hp]; rfl)⟩
  | receive hp => exact ⟨_, callMove_finish rfl rfl (by rw [hp]; rfl) rfl⟩
  | malformed hp => exact ⟨_, callMove_finish rfl rfl (by rw [hp]; rfl) rfl⟩
  | cancelAcquire hp => exact ⟨_, callMove_keep rfl rfl (by rw [hp]; rfl)⟩
  | fail hp => exact ⟨_, callMove_finish rfl rfl hp rfl⟩
  | cancel hp => exact ⟨_, callMove_finish rfl rfl hp rfl⟩

theorem PermitsOf.call {cl conns i : ℕ} {call call' : Call F} (h : PermitsOf s cl conns)
    (hi : s.calls i = some call) (hmove : CallMove s s' i call call') :
    PermitsOf s' cl conns := by
  obtain ⟨client, hclient, held, hheld, hsum⟩ := h
  by_cases hcl : call.client = cl
  · subst hcl
    obtain ⟨client', hclient', hpermits⟩ := hmove.permits client hclient
    have hchange := oneChange_holders hi hmove.calls hmove.client
    have hle := hchange.toNat_le hheld
    refine ⟨client', hclient',
      held + call'.phase.HoldsPermit.toNat - call.phase.HoldsPermit.toNat, ?_, by omega⟩
    exact hchange.encard hheld fun _ => by omega
  · refine ⟨client, (hmove.others cl (Ne.symm hcl)).trans hclient, held, ?_, hsum⟩
    rw [holders_of_other hi hmove.calls hmove.client hcl, hheld]

/-- Every call belongs to a client. -/
def CallsHaveClients (s : State F) : Prop :=
  ∀ i call, s.calls i = some call → ∃ client, s.clients call.client = some client

theorem CallsHaveClients.move {i : ℕ} {call call' : Call F} (h : CallsHaveClients s)
    (hi : s.calls i = some call) (hmove : CallMove s s' i call call') : CallsHaveClients s' := by
  intro j callj hj
  rw [hmove.calls, Function.update_apply] at hj
  have hkeep {cl : ℕ} (hcl : ∃ client, s.clients cl = some client) :
      ∃ client, s'.clients cl = some client := by
    obtain ⟨client, hclient⟩ := hcl
    by_cases heq : cl = call.client
    · subst heq
      obtain ⟨client', hclient', -⟩ := hmove.permits client hclient
      exact ⟨client', hclient'⟩
    · exact ⟨client, (hmove.others cl heq).trans hclient⟩
  split at hj
  · obtain rfl := Option.some.inj hj
    rw [hmove.client]
    exact hkeep (h i call hi)
  · exact hkeep (h j callj hj)

theorem exists_setClient {cl cl' : ℕ} (client : Client)
    (h : cl' = cl ∨ ∃ client', s.clients cl' = some client') :
    ∃ client', (s.setClient cl client).clients cl' = some client' := by
  by_cases heq : cl' = cl
  · subst heq
    exact ⟨client, Function.update_self ..⟩
  · obtain ⟨client', hclient'⟩ := h.resolve_left heq
    exact ⟨client', (Function.update_of_ne heq _ _).trans hclient'⟩

theorem callsHaveClients (hs : (machine P).Reachable C s) : CallsHaveClients s := by
  refine hs.invariant ?_ fun s a s' ih _ h => ?_
  · rintro _ rfl
    exact nofun
  · cases trans_of_step h with
    | spawn | kill | foreign | foreignWrite | foreignClose | server => exact ih
    | @newClient cl conns hcl =>
      exact fun i call hi => exists_setClient _ (.inr (ih i call hi))
    | @begin i cl client d hi hcl =>
      intro j call hj
      refine exists_setClient _ ?_
      rw [State.setCall_calls, Function.update_apply] at hj
      split at hj
      · obtain rfl := Option.some.inj hj
        exact .inl rfl
      · exact .inr (ih j call hj)
    | call hi hcall =>
      obtain ⟨call', hmove⟩ := callMove_of_callTrans hcall
      exact ih.move hi hmove

/-- **The semaphore of a client hands out as many permits as it was made with**, in every run. -/
theorem permits_of_path (hp : (machine P).Path C .start as s) {cl conns : ℕ}
    (hnew : .newClient cl conns ∈ as) : PermitsOf s cl conns := by
  induction hp with
  | nil => cases hnew
  | @snoc s s' a as hp _ h ih =>
    rw [List.mem_append, List.mem_singleton] at hnew
    cases trans_of_step h with
    | spawn | kill | foreign | foreignWrite | foreignClose | server =>
      exact ih (hnew.resolve_right nofun)
    | @newClient cl' conns' hcl hconns =>
      rcases hnew with hmem | heq
      · obtain ⟨client, hclient, held, hheld, hsum⟩ := ih hmem
        have hne : cl ≠ cl' := by
          rintro rfl
          rw [hcl] at hclient
          cases hclient
        exact ⟨client, (Function.update_of_ne hne _ _).trans hclient, held, hheld, hsum⟩
      · obtain ⟨rfl, rfl⟩ := Action.newClient.inj heq
        refine ⟨_, Function.update_self .., 0, ?_, rfl⟩
        have hempty : holders (s.setClient cl ⟨conns, 0⟩) cl = ∅ := by
          refine Set.eq_empty_of_forall_notMem fun i ⟨call, hi, hcall, _⟩ => ?_
          obtain ⟨client, hclient⟩ :=
            callsHaveClients ((Machine.Reachable.init rfl).path hp) i call hi
          rw [hcall, hcl] at hclient
          cases hclient
        rw [hempty, Set.encard_empty]
        rfl
    | @begin i cl' client d hi hcl =>
      obtain ⟨client₀, hclient, held, hheld, hsum⟩ := ih (hnew.resolve_right nofun)
      have hsame :
          holders ((s.setClient cl' { client with counter := client.counter + 1 }).setCall i
            ⟨cl', client.counter, d, .acquiring⟩) cl = holders s cl := by
        ext j
        simp only [holders, Set.mem_ofPred_eq, State.setCall_calls, Function.update_apply]
        split
        next hji =>
          subst hji
          refine iff_of_false ?_ ?_
          · rintro ⟨_, hcall, -, hholds⟩
            obtain rfl := Option.some.inj hcall
            cases hholds
          · rintro ⟨_, hcall, -⟩
            rw [hi] at hcall
            cases hcall
        next => exact Iff.rfl
      rw [PermitsOf, hsame]
      by_cases heq : cl = cl'
      · subst heq
        obtain rfl := Option.some.inj (hcl.symm.trans hclient)
        exact ⟨_, Function.update_self .., held, hheld, hsum⟩
      · exact ⟨client₀, (Function.update_of_ne heq _ _).trans hclient, held, hheld, hsum⟩
    | call hi hcall =>
      obtain ⟨call', hmove⟩ := callMove_of_callTrans hcall
      exact (ih (hnew.resolve_right nofun)).call hi hmove

/-! ### Idle connections -/

/-- The end of the worker is gone. -/
def Task.isClosed : Task F → Bool
  | .closed _ => true
  | _ => false

/-- The task of the connection is not in the admission, and reads no further request before the
peer writes. -/
def Idle (P : Postcard F) (k : Conn F) : Prop :=
  k.task.isClosed = true ∨
    k.task.inAdmission = false ∧
      ∀ req rest, readFrame P.decodeRequest k.toWorker ≠ some (.ok (req, rest))

theorem idle_new (w : ℕ) (peer : Option ℕ) : Idle P (.new w peer) := .inr ⟨rfl, nofun⟩

variable {k k' : Conn F} {wk wk' : Worker} {ev : ServerEvent F}

theorem Idle.serves (h : Idle P k) (hserves : Serves P wk k ev wk' k') : Idle P k' := by
  have hwritten {o : OnWriteError} (hw : Written wk wk' k'.task o) :
      k'.task.inAdmission = false := by
    rw [Task.inAdmission, hw.isAdmitting, hw.counted, Bool.or_self]
  rcases h with hclosed | ⟨htask, hread⟩
  · cases hk : k.task with
    | closed why => exact absurd hk (serves_not_closed hserves why)
    | _ =>
      rw [hk] at hclosed
      cases hclosed
  · cases hserves with
    | accept hk => exact .inr ⟨rfl, hread⟩
    | read hk hr => exact absurd hr (hread _ _)
    | malformed hk hr => exact .inl rfl
    | readEnd hk hpeer => exact .inl rfl
    | overflow hk | enqueue hk | refused hk | acquire hk | reject hk | grant hk =>
      rw [hk] at htask
      cases htask
    | inferred r hk _ hreply =>
      refine .inr ⟨hwritten (written_of_reply hreply), ?_⟩
      rcases reply_cases hreply with ⟨-, rfl, rfl⟩ | ⟨-, rfl, rfl⟩ <;> exact hread
    | write n hk => exact .inr ⟨hwritten (written_writing wk _ _), hread⟩
    | written hk => exact .inr ⟨hwritten (written_leave wk _), hread⟩
    | writeFail hk => exact .inr ⟨hwritten (written_afterWriteError wk _ _), hread⟩

theorem isClosed_kill (k : Conn F) : k.kill.task.isClosed = true := by
  unfold Conn.kill
  split <;> rfl

theorem idle_kill (k : Conn F) : Idle P k.kill := .inl (isClosed_kill k)

theorem inAdmission_of_unanswered {t : Task F} (h : t.unanswered = none) :
    t.inAdmission = false := by
  have hle := t.inAdmission_le
  rw [h] at hle
  exact Bool.toNat_eq_zero.mp (Nat.le_zero.mp hle)

/-- A request that is not written to its end is not read. -/
theorem Sending.idle {req : WorkerRequest F} {rest : List UInt8} {kind : String} (hP : P.Lawful)
    (h : Sending P req rest k) (hk : k.Answered P kind) (hrest : rest ≠ []) : Idle P k := by
  rcases h with ⟨hnil, hlen, hframe⟩ | ⟨-, -, hdone⟩
  · refine .inr ⟨inAdmission_of_unanswered ?_, fun r rest' hread => ?_⟩
    · have hlength := hk.length_requests
      rw [hnil] at hlength
      cases htask : k.task.unanswered with
      | none => rfl
      | some r =>
        rw [htask] at hlength
        exact absurd hlength (by simp)
    · have hprefix : k.toWorker <+: frames ([req].map P.encodeRequest) :=
        ⟨rest, by simpa using hframe⟩
      obtain ⟨values', hvalues, hbytes, -⟩ := readFrame_prefix
        (fun v _ => hP.decodeRequest_encode v) (by simpa using hlen) hprefix hread
      obtain ⟨rfl, -⟩ := List.cons.inj hvalues
      rw [hbytes, List.append_assoc] at hframe
      exact hrest (List.append_eq_nil_iff.mp (List.append_right_eq_self.mp hframe)).2
  · exact absurd hdone hrest

/-- A request whose response was written to the connection was read, and nothing follows it. -/
theorem Sending.idle_of_response {req : WorkerRequest F} {kind : String}
    (h : Sending P req [] k) (hk : k.Answered P kind)
    (hread : readFrame P.decodeResponse k.toPeer ≠ none) : Idle P k := by
  have hresps : k.responses ≠ [] := by
    intro hnil
    have hprefix := hk.onlyFrames
    rw [hnil] at hprefix
    exact hread (by rw [List.prefix_nil.mp hprefix]; rfl)
  have hlength := hk.length_requests
  have hpos := List.length_pos_iff.mpr hresps
  rcases h with ⟨hnil, -⟩ | ⟨hone, hto, -⟩
  · rw [hnil, List.length_nil] at hlength
    omega
  · rw [hone, List.length_singleton] at hlength
    refine .inr ⟨inAdmission_of_unanswered ?_, ?_⟩
    · cases htask : k.task.unanswered with
      | none => rfl
      | some r =>
        rw [htask, Option.toList_some, List.length_singleton] at hlength
        omega
    · rw [hto]
      exact nofun

/-! ### One client and no other traffic -/

/-- An operation of a call on its connection may fail: the end of the worker is gone, or the
request is not written to its end. -/
def SocketFails (s : State F) : CallPhase F → Prop
  | .writing c rest => rest ≠ [] ∨ ∀ k ∈ s.conns c, k.task.isClosed = true
  | .reading c => ∀ k ∈ s.conns c, k.task.isClosed = true
  | _ => True

/-- The worker `w` has no other traffic than the client `cl`: only its calls connect to the worker,
but for connections that carry no byte, such as the probe of `WorkerClient::connect`. No call of
the client is dropped, and its operations fail only when the socket does. -/
def OnlyTraffic (w cl : ℕ) (s : State F) : Action F → Prop
  | .call i (.connect _ w') => w' = w → ∀ call ∈ s.calls i, call.client = cl
  | .call i .cancel => ∀ call ∈ s.calls i, call.client ≠ cl
  | .call i .fail => ∀ call ∈ s.calls i, call.client = cl → SocketFails s call.phase
  | .foreignWrite c _ => ∀ k ∈ s.conns c, k.worker ≠ w
  | _ => True

instance (s : State F) (phase : CallPhase F) : Decidable (SocketFails s phase) :=
  match phase with
  | .writing c rest =>
    inferInstanceAs (Decidable (rest ≠ [] ∨ ∀ k ∈ s.conns c, k.task.isClosed = true))
  | .reading c => inferInstanceAs (Decidable (∀ k ∈ s.conns c, k.task.isClosed = true))
  | .acquiring | .connecting | .returned _ _ | .cancelled => isTrue trivial

instance (w cl : ℕ) (s : State F) (a : Action F) : Decidable (OnlyTraffic w cl s a) :=
  match a with
  | .call i (.connect _ w') =>
    inferInstanceAs (Decidable (w' = w → ∀ call ∈ s.calls i, call.client = cl))
  | .call i .cancel => inferInstanceAs (Decidable (∀ call ∈ s.calls i, call.client ≠ cl))
  | .call i .fail =>
    inferInstanceAs (Decidable (∀ call ∈ s.calls i, call.client = cl → SocketFails s call.phase))
  | .foreignWrite c _ => inferInstanceAs (Decidable (∀ k ∈ s.conns c, k.worker ≠ w))
  | .call _ .acquire | .call _ (.send _) | .call _ .flush | .call _ .receive | .spawn _ _ _ _
  | .kill _ | .newClient _ _ | .begin _ _ _ | .foreign _ _ | .foreignClose _ | .server _ _ =>
    isTrue trivial

/-- A call of the client holds a permit and the connection. -/
def Held (s : State F) (cl c : ℕ) : Prop :=
  ∃ i call, s.calls i = some call ∧ call.client = cl ∧ call.phase.HoldsPermit = true ∧
    call.phase.conn = some c

/-- Every connection of the worker belongs to a call of the client or to none, and is idle unless
its call holds a permit. -/
structure QuietConn (P : Postcard F) (s : State F) (cl c : ℕ) (k : Conn F) : Prop where
  peer : ∀ i, k.peer = some i → ∃ call, s.calls i = some call ∧ call.client = cl
  idle : Idle P k ∨ Held s cl c

/-- The connections of the worker `w` are those of the client `cl`. -/
def Quiet (P : Postcard F) (s : State F) (w cl : ℕ) : Prop :=
  ∀ c k, s.conns c = some k → k.worker = w → QuietConn P s cl c k

variable {w cl c i : ℕ} {call call' : Call F}

/-- The calls are those from before, at other program points, and a new one. -/
def CallsKept (s s' : State F) : Prop :=
  ∀ j call, s.calls j = some call → ∃ call', s'.calls j = some call' ∧ call'.client = call.client

theorem callsKept_of_eq (h : s'.calls = s.calls) : CallsKept s s' :=
  fun j call hj => ⟨call, by rw [h, hj], rfl⟩

theorem callsKept_update (hcalls : s'.calls = Function.update s.calls i (some call'))
    (hclient : ∀ call, s.calls i = some call → call'.client = call.client) : CallsKept s s' := by
  intro j call hj
  rw [hcalls]
  by_cases hji : j = i
  · subst hji
    exact ⟨call', Function.update_self .., hclient call hj⟩
  · exact ⟨call, by rw [Function.update_of_ne hji, hj], rfl⟩

theorem Held.of_eq (h : Held s cl c) (hcalls : s'.calls = s.calls) : Held s' cl c := by
  rwa [Held, hcalls]

/-- A step of a call that does not hold the connection. -/
theorem Held.update (h : Held s cl c) (hcalls : s'.calls = Function.update s.calls i (some call'))
    (hnot : ∀ call, s.calls i = some call → call.phase.conn ≠ some c) : Held s' cl c := by
  obtain ⟨j, callj, hj, hcl, hholds, hconn⟩ := h
  refine ⟨j, callj, ?_, hcl, hholds, hconn⟩
  rw [hcalls, Function.update_of_ne, hj]
  rintro rfl
  exact hnot callj hj hconn

/-- A step of a call that keeps its permit and its connection. -/
theorem Held.keep (h : Held s cl c) (hi : s.calls i = some call)
    (hcalls : s'.calls = Function.update s.calls i (some call'))
    (hclient : call'.client = call.client) (hholds : call'.phase.HoldsPermit = true)
    (hconn : call'.phase.conn = call.phase.conn) : Held s' cl c := by
  obtain ⟨j, callj, hj, hcl, hholdsj, hconnj⟩ := h
  by_cases hji : j = i
  · subst hji
    obtain rfl := Option.some.inj (hi.symm.trans hj)
    exact ⟨j, call', by rw [hcalls, Function.update_self], hclient.trans hcl, hholds,
      hconn.trans hconnj⟩
  · exact ⟨j, callj, by rw [hcalls, Function.update_of_ne hji, hj], hcl, hholdsj, hconnj⟩

/-- A step keeps a connection quiet when it keeps it idle or held. -/
theorem QuietConn.step (h : QuietConn P s cl c k) (hcalls : CallsKept s s')
    (hpeer : k'.peer = k.peer) (hidle : Idle P k → Idle P k' ∨ Held s' cl c)
    (hheld : Held s cl c → Idle P k' ∨ Held s' cl c) : QuietConn P s' cl c k' where
  peer i hi := by
    obtain ⟨call, hcall, hcl⟩ := h.peer i (hpeer ▸ hi)
    obtain ⟨call', hcall', hcl'⟩ := hcalls i call hcall
    exact ⟨call', hcall', hcl'.trans hcl⟩
  idle := h.idle.elim hidle hheld

/-- The call of a connection of the worker is a call of the client. -/
theorem QuietConn.client_eq (h : QuietConn P s cl c k) (hi : s.calls i = some call)
    (hok : CallOk P s i call) (hc : s.conns c = some k) (hconn : call.phase.conn = some c) :
    call.client = cl := by
  obtain ⟨k', hc', hpeer, -⟩ := hok c hconn
  obtain rfl := Option.some.inj (hc.symm.trans hc')
  obtain ⟨call', hi', hcl⟩ := h.peer i hpeer
  obtain rfl := Option.some.inj (hi.symm.trans hi')
  exact hcl

/-- A call that holds a permit ends and its connection is idle. -/
theorem Quiet.finish {phase : CallPhase F} (h : Quiet P s w cl) (hi : s.calls i = some call)
    (hok : CallOk P s i call)
    (hidle : ∀ c k, call.phase.conn = some c → s.conns c = some k → k.worker = w →
      call.client = cl → Idle P k) : Quiet P (s.finish i call phase) w cl := by
  intro c k' hc' hk'
  have hcalls := State.finish_calls s i call phase
  rw [State.finish_conns] at hc'
  obtain ⟨k, hc, rfl⟩ := Option.map_eq_some_iff.mp hc'
  have hkeep := sameTask_hangUp call.phase.conn c k
  have hk : k.worker = w := hkeep.worker.symm.trans hk'
  have hsame (hk : Idle P k) :
      Idle P (if call.phase.conn = some c then { k with peerOpen := false } else k) := by
    split <;> exact hk
  refine (h c k hc hk).step (callsKept_update hcalls fun call₀ hcall₀ => ?_) hkeep.peer
    (fun hidle => .inl (hsame hidle)) fun hheld => ?_
  · obtain rfl := Option.some.inj (hi.symm.trans hcall₀)
    rfl
  · by_cases hconn : call.phase.conn = some c
    · have hcl := (h c k hc hk).client_eq hi hok hc hconn
      exact .inl (hsame (hidle c k hconn hc hk hcl))
    · refine .inr (hheld.update hcalls fun call₀ hcall₀ => ?_)
      obtain rfl := Option.some.inj (hi.symm.trans hcall₀)
      exact hconn

/-- The connection of a call is idle once its response can be read. -/
theorem Inv.idle_of_reading (hinv : Inv P s) (hi : s.calls i = some call) {d : ℕ}
    (hp : call.phase = .reading d) (hd : s.conns d = some k)
    (hread : readFrame P.decodeResponse k.toPeer ≠ none) (hconn : call.phase.conn = some c)
    (hc : s.conns c = some k') : Idle P k' := by
  rw [hp] at hconn
  obtain rfl := Option.some.inj hconn
  obtain rfl := Option.some.inj (hd.symm.trans hc)
  obtain ⟨wk, -, hanswered, -⟩ := hinv.conn d k hd
  have hok := hinv.call i call hi
  rw [CallOk, hp] at hok
  obtain ⟨k', hk', -, hcarries⟩ := hok d rfl
  obtain rfl := Option.some.inj (hd.symm.trans hk')
  exact Sending.idle_of_response hcarries hanswered hread

/-- The connection of a call is idle once the call's operation on it fails. -/
theorem Inv.idle_of_fails (hP : P.Lawful) (hinv : Inv P s) (hi : s.calls i = some call)
    (hp : call.phase.HoldsPermit = true) (hfails : SocketFails s call.phase)
    (hconn : call.phase.conn = some c) (hc : s.conns c = some k) : Idle P k := by
  have hok := hinv.call i call hi
  obtain ⟨wk, -, hanswered, -⟩ := hinv.conn c k hc
  cases hphase : call.phase with
  | writing d rest =>
    rw [hphase] at hfails hconn
    obtain rfl := Option.some.inj hconn
    rcases hfails with hrest | hclosed
    · rw [CallOk, hphase] at hok
      obtain ⟨k', hk', -, hcarries⟩ := hok d rfl
      obtain rfl := Option.some.inj (hc.symm.trans hk')
      exact Sending.idle hP hcarries hanswered hrest
    · exact .inl (hclosed k hc)
  | reading d =>
    rw [hphase] at hfails hconn
    obtain rfl := Option.some.inj hconn
    exact .inl (hfails k hc)
  | connecting =>
    rw [hphase] at hconn
    cases hconn
  | acquiring | returned | cancelled =>
    rw [hphase] at hp
    cases hp

/-- A call of the client opens a connection. -/
theorem Quiet.setConn {d w' : ℕ} (h : Quiet P s w cl) (hi : s.calls i = some call)
    (honly : w' = w → call.client = cl) (open' : Bool) :
    Quiet P (s.setConn d { Conn.new w' (some i) with peerOpen := open' }) w cl := by
  intro c k hc hk
  rw [State.setConn_conns, Function.update_apply] at hc
  split at hc
  · obtain rfl := Option.some.inj hc
    refine ⟨?_, .inl (idle_new w' (some i))⟩
    rintro j ⟨⟩
    exact ⟨call, hi, honly hk⟩
  · exact ⟨(h c k hc hk).peer, (h c k hc hk).idle⟩

/-- A call that has no connection moves on. -/
theorem Quiet.setCall (h : Quiet P s w cl) (hi : s.calls i = some call)
    (hcalls : s'.calls = Function.update s.calls i (some call')) (hconns : s'.conns = s.conns)
    (hclient : call'.client = call.client) (hp : call.phase.conn = none) : Quiet P s' w cl := by
  intro c k hc hk
  rw [hconns] at hc
  refine (h c k hc hk).step (callsKept_update hcalls fun call₀ hcall₀ => ?_) rfl .inl
    fun hheld => .inr (hheld.update hcalls fun call₀ hcall₀ => ?_)
  · obtain rfl := Option.some.inj (hi.symm.trans hcall₀)
    exact hclient
  · obtain rfl := Option.some.inj (hi.symm.trans hcall₀)
    rw [hp]
    exact nofun

/-- **Step lemma of a call.** -/
theorem Quiet.callStep {ev : CallEvent} (hP : P.Lawful) (h : Quiet P s w cl) (hinv : Inv P s)
    (hi : s.calls i = some call) (honly : OnlyTraffic w cl s (.call i ev))
    (hstep : CallTrans P s i call ev s') : Quiet P s' w cl := by
  have hok := hinv.call i call hi
  have hclient {call' : Call F} (hcl : call'.client = call.client) :
      ∀ call₀, s.calls i = some call₀ → call'.client = call₀.client := by
    intro call₀ hcall₀
    obtain rfl := Option.some.inj (hi.symm.trans hcall₀)
    exact hcl
  cases hstep with
  | acquire hp | cancelAcquire hp => exact h.setCall hi rfl rfl rfl (by rw [hp]; rfl)
  | @connect d w' wk bytes hp hd hw halive hbytes =>
    have hquiet := h.setConn (d := d) hi (fun hw' => honly hw' call hi) true
    exact hquiet.setCall hi rfl rfl rfl (by rw [hp]; rfl)
  | @requestTooLarge d w' wk e hp hd hw halive he =>
    have hquiet := h.setConn (d := d) hi (fun hw' => honly hw' call hi) false
    refine hquiet.finish hi (fun c hc => ?_) fun c k hc => ?_
    · rw [hp] at hc
      cases hc
    · rw [hp] at hc
      cases hc
  | @send d rest k₀ n hp hd =>
    intro c k hc hk
    have hkept : CallsKept s ((s.setConn d { k₀ with
        toWorker := k₀.toWorker ++ rest.take n }).setCall i
          { call with phase := .writing d (rest.drop n) }) :=
      callsKept_update rfl (hclient rfl)
    rw [State.setCall_conns, State.setConn_conns, Function.update_apply] at hc
    split at hc
    next hcd =>
      subst hcd
      obtain rfl := Option.some.inj hc
      have hquiet := h c k₀ hd hk
      have hcl := hquiet.client_eq hi hok hd (by rw [hp]; rfl)
      have hheld : Held ((s.setConn c { k₀ with toWorker := k₀.toWorker ++ rest.take n }).setCall i
          { call with phase := .writing c (rest.drop n) }) cl c :=
        ⟨i, _, Function.update_self .., hcl, rfl, rfl⟩
      exact hquiet.step hkept rfl (fun _ => .inr hheld) fun _ => .inr hheld
    next hcd =>
      refine (h c k hc hk).step hkept rfl .inl fun hheld => ?_
      exact .inr (hheld.keep hi rfl rfl rfl (by rw [hp]; rfl))
  | @flush d hp =>
    intro c k hc hk
    refine (h c k hc hk).step (callsKept_update rfl (hclient rfl)) rfl .inl fun hheld => ?_
    exact .inr (hheld.keep hi rfl rfl rfl (by rw [hp]; rfl))
  | @receive d k resp rest hp hd hr =>
    refine h.finish hi hok fun c k₁ hconn hc _ _ => ?_
    exact hinv.idle_of_reading hi hp hd (by rw [hr]; exact nofun) hconn hc
  | @malformed d k e hp hd hr =>
    refine h.finish hi hok fun c k₁ hconn hc _ _ => ?_
    exact hinv.idle_of_reading hi hp hd (by rw [hr]; exact nofun) hconn hc
  | fail hp =>
    exact h.finish hi hok fun c k hconn hc _ hcl =>
      hinv.idle_of_fails hP hi hp (honly call hi hcl) hconn hc
  | cancel hp =>
    exact h.finish hi hok fun _ _ _ _ _ hcl => absurd hcl (honly call hi)

/-- A step that is not one of a call. -/
theorem Quiet.of_conns (h : Quiet P s w cl) (hcalls : s'.calls = s.calls)
    (hconns : ∀ c k', s'.conns c = some k' → k'.worker = w →
      (k'.peer = none ∧ Idle P k') ∨
        ∃ k, s.conns c = some k ∧ k.worker = w ∧ k'.peer = k.peer ∧ (Idle P k → Idle P k')) :
    Quiet P s' w cl := by
  intro c k' hc' hk'
  rcases hconns c k' hc' hk' with ⟨hpeer, hidle⟩ | ⟨k, hc, hk, hpeer, hidle⟩
  · refine ⟨fun i hi => ?_, .inl hidle⟩
    rw [hpeer] at hi
    cases hi
  · exact (h c k hc hk).step (callsKept_of_eq hcalls) hpeer (fun hk => .inl (hidle hk))
      fun hheld => .inr (hheld.of_eq hcalls)

/-- **Step lemma.** The connections of the worker stay those of the client. -/
theorem Quiet.step (hP : P.Lawful) (h : Quiet P s w cl) (hinv : Inv P s)
    (honly : OnlyTraffic w cl s a) (hstep : Trans P s a s') : Quiet P s' w cl := by
  cases hstep with
  | spawn | newClient =>
    exact h.of_conns rfl fun c k hc hk => .inr ⟨k, hc, hk, rfl, id⟩
  | @kill w' wk hw halive =>
    refine h.of_conns rfl fun c k' hc' hk' => .inr ?_
    obtain ⟨k, hc, rfl⟩ := Option.map_eq_some_iff.mp hc'
    by_cases hkw : k.worker = w'
    · rw [if_pos hkw] at hk' ⊢
      exact ⟨k, hc, hk', rfl, fun _ => idle_kill k⟩
    · rw [if_neg hkw] at hk' ⊢
      exact ⟨k, hc, hk', rfl, id⟩
  | @begin i cl' client d hi hcl =>
    intro c k hc hk
    refine (h c k hc hk).step (callsKept_update rfl fun call hcall => ?_) rfl .inl
      fun hheld => .inr (hheld.update rfl fun call hcall => ?_)
    · rw [hi] at hcall
      cases hcall
    · rw [hi] at hcall
      cases hcall
  | call hi hcall => exact h.callStep hP hinv hi honly hcall
  | @foreign d w' wk hd hw halive =>
    refine h.of_conns rfl fun c k' hc' hk' => ?_
    rw [State.setConn_conns, Function.update_apply] at hc'
    split at hc'
    · obtain rfl := Option.some.inj hc'
      exact .inl ⟨rfl, idle_new w' none⟩
    · exact .inr ⟨k', hc', hk', rfl, id⟩
  | @foreignWrite d k bytes hd hpeer =>
    refine h.of_conns rfl fun c k' hc' hk' => .inr ?_
    rw [State.setConn_conns, Function.update_apply] at hc'
    split at hc'
    · obtain rfl := Option.some.inj hc'
      exact absurd hk' (honly k hd)
    · exact ⟨k', hc', hk', rfl, id⟩
  | @foreignClose d k hd hpeer =>
    refine h.of_conns rfl fun c k' hc' hk' => .inr ?_
    rw [State.hangUp_conns_eq] at hc'
    obtain ⟨k₀, hc, rfl⟩ := Option.map_eq_some_iff.mp hc'
    have hkeep := sameTask_hangUp (some d) c k₀
    refine ⟨k₀, hc, hkeep.worker.symm.trans hk', hkeep.peer, fun hidle => ?_⟩
    split <;> exact hidle
  | @server d k k₁ wk wk' ev hd hw halive hserve =>
    refine h.of_conns rfl fun c k' hc' hk' => .inr ?_
    have hserves := serves_of_serve hserve
    obtain ⟨hworker, hpeer, -⟩ := serves_frame hserves
    rw [State.setConn_conns, Function.update_apply] at hc'
    split at hc'
    next hcd =>
      subst hcd
      obtain rfl := Option.some.inj hc'
      exact ⟨k, hd, hworker.symm.trans hk', hpeer, fun hidle => hidle.serves hserves⟩
    · exact ⟨k', hc', hk', rfl, id⟩

theorem quiet_of_reachable (hP : P.Lawful) (hs : (machine P).Reachable C s)
    (honly : ∀ s a, C s a → OnlyTraffic w cl s a) : Quiet P s w cl := by
  refine hs.invariant_of_reachable (P := fun s => Quiet P s w cl) ?_ fun s a s' hs ih hC h =>
    ih.step hP (inv_of_reachable hP hs) (honly s a hC) (trans_of_step h)
  rintro _ rfl
  exact fun _ _ hc => (nomatch hc)

/-! ### No overflow -/

/-- The tasks in the admission have a call of the client each, which holds a permit. -/
theorem encard_admission_le (hinv : Inv P s) (h : Quiet P s w cl) :
    (tasksAt s w Task.inAdmission).encard ≤ (holders s cl).encard := by
  have howner {c : ℕ} (hc : c ∈ tasksAt s w Task.inAdmission) :
      ∃ k i call, s.conns c = some k ∧ k.peer = some i ∧ s.calls i = some call ∧
        call.client = cl ∧ call.phase.HoldsPermit = true ∧ call.phase.conn = some c := by
    obtain ⟨k, hk, hkw, htask⟩ := hc
    rcases (h c k hk hkw).idle with (hclosed | ⟨hnot, -⟩) | ⟨i, call, hi, hcl, hholds, hconn⟩
    · cases hkt : k.task <;>
        simp_all [Task.isClosed, Task.inAdmission, Task.isAdmitting, Task.counted]
    · rw [hnot] at htask
      cases htask
    · obtain ⟨k', hk', hpeer, -⟩ := hinv.call i call hi c hconn
      obtain rfl := Option.some.inj (hk.symm.trans hk')
      exact ⟨k, i, call, hk, hpeer, hi, hcl, hholds, hconn⟩
  refine Set.encard_le_encard_of_injOn (f := fun c => ((s.conns c).bind Conn.peer).getD 0)
    (fun c hc => ?_) fun c hc d hd heq => ?_
  · obtain ⟨k, i, call, hk, hpeer, hi, hcl, hholds, -⟩ := howner hc
    simp only [hk, Option.bind_some, hpeer, Option.getD_some]
    exact ⟨call, hi, hcl, hholds⟩
  · obtain ⟨k, i, call, hk, hpeer, hi, -, -, hconn⟩ := howner hc
    obtain ⟨k', j, call', hk', hpeer', hj, -, -, hconn'⟩ := howner hd
    simp only [hk, hk', Option.bind_some, hpeer, hpeer', Option.getD_some] at heq
    subst heq
    obtain rfl := Option.some.inj (hi.symm.trans hj)
    exact Option.some.inj (hconn.symm.trans hconn')

/-- A task that is about to increment the counter finds room. -/
theorem waiters_lt {req : WorkerRequest F} {poolSize : ℕ} (hinv : Inv P s) (h : Quiet P s w cl)
    (hcounts : Counts s w poolSize wk) (hpermits : PermitsOf s cl poolSize)
    (hc : s.conns c = some k) (hk : k.worker = w) (htask : k.task = .admitting req) :
    wk.waiters < poolSize := by
  obtain ⟨client, -, held, hheld, hsum⟩ := hpermits
  have hnot : c ∉ tasksAt s w Task.counted := by
    rw [mem_tasksAt hc hk, htask]
    exact nofun
  have hsub : insert c (tasksAt s w Task.counted) ⊆
      tasksAt s w Task.inAdmission := by
    refine Set.insert_subset ⟨k, hc, hk, by rw [htask]; rfl⟩ (tasksAt_mono (fun t ht => ?_) w)
    rw [Task.inAdmission, ht, Bool.or_true]
  have hle := (Set.encard_le_encard hsub).trans (encard_admission_le hinv h)
  rw [Set.encard_insert_of_notMem hnot, hcounts.waiters, hheld] at hle
  have hlt : wk.waiters + 1 ≤ held := by exact_mod_cast hle
  omega

/-- The worker rejects no request because its queue is full. -/
def NeverOverflows (s : State F) (w : ℕ) : Prop :=
  ∀ c k req, s.conns c = some k → k.worker = w → k.task ≠ .rejecting req "worker queue overflow"

theorem NeverOverflows.step {poolSize maxWaiters : ℕ} (h : NeverOverflows s w) (hinv : Inv P s)
    (hquiet : Quiet P s w cl) (haccounted : Accounted s w maxWaiters poolSize)
    (hpermits : PermitsOf s cl poolSize) (hle : poolSize ≤ maxWaiters)
    (hstep : ∀ c, ConnStep P s a s' c) : NeverOverflows s' w := by
  intro c k' req hc' hk' htask
  cases hstep c with
  | absent ha hc hnone =>
    rw [hc'] at hnone
    cases hnone
  | opened ha hc hsome hw hnew =>
    obtain rfl := Option.some.inj (hc'.symm.trans hsome)
    rw [hnew.task] at htask
    cases htask
  | @kept k _ ha hc hsome hkeep =>
    obtain rfl := Option.some.inj (hc'.symm.trans hsome)
    exact h c k req hc (hkeep.worker.symm.trans hk') (hkeep.task.symm.trans htask)
  | @killed k ha hc hsome =>
    obtain rfl := Option.some.inj (hc'.symm.trans hsome)
    have hclosed := isClosed_kill k
    rw [htask] at hclosed
    cases hclosed
  | @served k _ wk wk' ev ha hc hw halive hserve hsome =>
    obtain rfl := Option.some.inj (hc'.symm.trans hsome)
    have hserves := serves_of_serve hserve
    have hk : k.worker = w := (serves_frame hserves).1.symm.trans hk'
    have hcounted : k'.task.counted = true := by rw [htask]; rfl
    cases hserves with
    | overflow hkt hfull =>
      obtain ⟨wk₀, hwk₀, hmax, hcounts⟩ := haccounted
      rw [hk] at hw
      obtain rfl := Option.some.inj (hw.symm.trans hwk₀)
      have hlt := waiters_lt hinv hquiet (hcounts halive) hpermits hc hk hkt
      omega
    | refused hkt hclosed => exact absurd (Task.rejecting.inj htask).2 (by decide)
    | reject hkt hreply =>
      rw [(written_of_reply hreply).counted] at hcounted
      cases hcounted
    | inferred r hkt hr hreply =>
      rw [(written_of_reply hreply).counted] at hcounted
      cases hcounted
    | @writeFail rest onError hkt =>
      cases onError <;> cases htask
    | _ => cases htask

theorem neverOverflows_of_path (hP : P.Lawful) (hp : (machine P).Path C .start as s)
    (honly : ∀ s a, C s a → OnlyTraffic w cl s a) {kind : String} {poolSize maxWaiters : ℕ}
    (hspawn : .spawn w kind maxWaiters poolSize ∈ as) (hnew : .newClient cl poolSize ∈ as)
    (hle : poolSize ≤ maxWaiters) : NeverOverflows s w := by
  induction hp with
  | nil => cases hspawn
  | @snoc s s' a as hp hC h ih =>
    have hs : (machine P).Reachable C s := (Machine.Reachable.init rfl).path hp
    have hinv := inv_of_reachable hP hs
    have hquiet := quiet_of_reachable hP hs honly
    have htrans := trans_of_step h
    rw [List.mem_append, List.mem_singleton] at hspawn hnew
    rcases hspawn with hspawn | rfl
    · rcases hnew with hnew | rfl
      · exact (ih hspawn hnew).step hinv hquiet (accounted_of_path hP hp hspawn)
          (permits_of_path hp hnew) hle (connStep_of_trans htrans)
      · -- before the client is made, no connection of the worker carries a request
        cases htrans with
        | newClient hcl hconns =>
          intro c k req hc hk htask
          rcases (hquiet c k hc hk).idle with hidle | ⟨i, call, hi, hcall, -⟩
          · rcases hidle with hclosed | ⟨hnot, -⟩
            · rw [htask] at hclosed
              cases hclosed
            · rw [htask] at hnot
              cases hnot
          · obtain ⟨client, hclient⟩ := callsHaveClients hs i call hi
            rw [hcall, hcl] at hclient
            cases hclient
    · cases htrans with
      | spawn _ _ _ hw =>
        intro c k req hc hk
        obtain ⟨wk, hwk, -⟩ := hinv.conn c k hc
        rw [hk, hw] at hwk
        cases hwk

/-! ### The accounting of the admission -/

/-- The counters of a living worker that was started with the limit `maxWaiters` and `poolSize`
permits. -/
structure WorkerAccounts (s : State F) (w maxWaiters poolSize : ℕ) (wk : Worker) : Prop where
  /-- `WAITERS` is the number of the tasks that have incremented and not decremented it. -/
  waiters_eq : (tasksAt s w Task.counted).encard = wk.waiters
  /-- A task that decrements `WAITERS` does not find `0`. -/
  no_underflow : ∀ c k, s.conns c = some k → k.worker = w → k.task.counted = true →
    0 < wk.waiters
  waiting_le : (tasksAt s w Task.isWaiting).encard ≤ maxWaiters
  inferring_le : (tasksAt s w Task.isInferring).encard ≤ poolSize

/-- The requests of a connection whose task has made the operations `ops` on `WAITERS`. -/
structure RequestAccounts (k : Conn F) (ops : List CounterOp) : Prop where
  phases : ∀ j < k.requests.length, ∃! phase, InPhase k j phase
  /-- The increment for a request is undone once by the time it is rejected or runs. -/
  balanced : ∀ j phase, InPhase k j phase → phase.Balanced (requestOps ops j)
  /-- There are no other operations. -/
  total : ops.length ≤ 2 * k.requests.length

theorem Counts.workerAccounts {maxWaiters poolSize : ℕ} (h : Counts s w poolSize wk)
    (hmax : wk.maxWaiters = maxWaiters) : WorkerAccounts s w maxWaiters poolSize wk where
  waiters_eq := h.waiters
  no_underflow c k hc hk htask := by
    have hmem : c ∈ tasksAt s w Task.counted := ⟨k, hc, hk, htask⟩
    have hpos : 1 ≤ (tasksAt s w Task.counted).encard :=
      Set.one_le_encard_iff_nonempty.mpr ⟨c, hmem⟩
    rw [h.waiters] at hpos
    exact_mod_cast hpos
  waiting_le := hmax ▸ h.waiting
  inferring_le := by
    obtain ⟨held, hheld, hsum⟩ := h.permits
    calc (tasksAt s w Task.isInferring).encard
        ≤ (tasksAt s w Task.holdsPermit).encard :=
          Set.encard_le_encard (tasksAt_mono (fun _ => Task.holdsPermit_of_isInferring) w)
      _ = held := hheld
      _ ≤ poolSize := by exact_mod_cast Nat.le.intro ((Nat.add_comm _ _).trans hsum)

/-- **The accounting of the admission**, in every run: the counters of every living worker, the
phases of every request whose task was not killed, and no overflow while the only traffic of the
worker is one client with as many permits as the worker has, and no more than its limit. -/
theorem admission_correct (hP : P.Lawful) (hp : (machine P).Path C .start as s) :
    (∀ w kind maxWaiters poolSize, .spawn w kind maxWaiters poolSize ∈ as →
      (∃ wk, s.workers w = some wk ∧
        (wk.alive = true → WorkerAccounts s w maxWaiters poolSize wk)) ∧
      ∀ cl, (∀ s a, C s a → OnlyTraffic w cl s a) → .newClient cl poolSize ∈ as →
        poolSize ≤ maxWaiters → NeverOverflows s w) ∧
    ∀ c k, s.conns c = some k → (∀ r, k.task ≠ .closed (.killed r)) →
      RequestAccounts k (counterOps c as) := by
  refine ⟨fun w kind maxWaiters poolSize hspawn => ⟨?_, fun cl honly hnew hle => ?_⟩,
    fun c k hc hlive => ?_⟩
  · obtain ⟨wk, hwk, hmax, hcounts⟩ := accounted_of_path hP hp hspawn
    exact ⟨wk, hwk, fun halive => (hcounts halive).workerAccounts hmax⟩
  · exact neverOverflows_of_path hP hp honly hspawn hnew hle
  · have hinv := inv_of_reachable hP ((Machine.Reachable.init rfl).path hp)
    obtain ⟨wk, -, hanswered, -⟩ := hinv.conn c k hc
    obtain ⟨n, hn⟩ := (undone_of_path hp c).2 k hc hlive
    exact ⟨fun j hj => existsUnique_phase hanswered hlive hj,
      fun j phase hphase => balanced_of_inPhase hanswered hn hphase, hn.length_le⟩

/-- The calls of a client with two permits, to a worker with two permits and the limit two: the
first request was answered, the second waits for a permit when the third is read. -/
theorem admission_correct_two_permits :
    ∃ as s, (machine Postcard.wireFormat).Path (OnlyTraffic 0 0) .start as s ∧
      .spawn 0 "embed" 2 2 ∈ as ∧ .newClient 0 2 ∈ as ∧
      ((s.conns 2).map fun k => k.task.isWaiting) = some true ∧
      ((s.conns 3).map fun k => k.task.isAdmitting) = some true ∧
      NeverOverflows s 0 ∧ ∀ k, s.conns 3 = some k → RequestAccounts k (counterOps 3 as) := by
  let as : List (Action UInt32) :=
    [.spawn 0 "embed" 2 2, .foreign 0 0, .foreignClose 0, .newClient 0 2,
      .begin 0 0 (.embed "e5" ["a"] 64), .call 0 .acquire, .call 0 (.connect 1 0),
      .call 0 (.send 64), .call 0 .flush, .begin 1 0 (.embed "e5" ["b"] 64), .call 1 .acquire,
      .call 1 (.connect 2 0), .call 1 (.send 64), .call 1 .flush,
      .begin 2 0 (.embed "e5" ["c"] 64),
      .server 1 .accept, .server 1 .read, .server 1 .fetchAdd, .server 1 .acquire,
      .server 1 .fetchSub, .server 1 (.inferred (.ok oneDim)), .server 1 (.write 64),
      .call 0 .receive, .call 2 .acquire, .call 2 (.connect 3 0), .call 2 (.send 64),
      .server 2 .accept, .server 2 .read, .server 2 .fetchAdd,
      .server 3 .accept, .server 3 .read]
  obtain ⟨s, hs, hwaiting, hadmitting⟩ :
      ∃ s ∈ (machine Postcard.wireFormat).runUnder (OnlyTraffic 0 0) .start as,
        ((s.conns 2).map fun k => k.task.isWaiting) = some true ∧
        ((s.conns 3).map fun k => k.task.isAdmitting) = some true := by
    decide +kernel
  have hpath : (machine Postcard.wireFormat).Path (OnlyTraffic 0 0) .start as s := .of_runUnder hs
  have hspawn : .spawn 0 "embed" 2 2 ∈ as := .head _
  have hnew : .newClient 0 2 ∈ as := .tail _ (.tail _ (.tail _ (.head _)))
  obtain ⟨hworkers, hconns⟩ := admission_correct Postcard.wireFormat_lawful hpath
  refine ⟨as, s, hpath, hspawn, hnew, hwaiting, hadmitting, ?_, fun k hk => hconns 3 k hk ?_⟩
  · exact (hworkers 0 "embed" 2 2 hspawn).2 0 (fun _ _ hC => hC) hnew le_rfl
  · intro r hr
    rw [hk, Option.map_some, hr] at hadmitting
    cases Option.some.inj hadmitting

end OxEmbed.Ipc

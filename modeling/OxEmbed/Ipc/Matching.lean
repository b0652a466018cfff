import OxEmbed.Ipc.Client
import OxEmbed.Ipc.WireFormat

/-!
# Responses match requests

A dispatch call that returns a response has received the response that the worker made for its own
request, on a connection that carried nothing else. Neither a cancelled call nor a client whose
ids collide with those of another client can cross replies, because a connection belongs to one
call. On the side of the worker, every request of a connection gets one response frame, in order
and with its id, unless the response is over the cap: then nothing is written and the connection
is closed.

## Main definitions

* `Carries` : what the connection of a call carries at each program point of the call.
* `Inv` : the invariant over all connections and calls.
* `Matched` : the matching of requests and responses, on both sides of the socket.

## Main results

* `inv_of_reachable` : the invariant holds in every reachable state.
* `matched_of_reachable` : requests and responses are matched in every reachable state.
-/

namespace OxEmbed.Ipc

open Framing

variable {F : Type} {P : Postcard F}

/-! ### The invariant -/

/-- The request `req` is on its way to the worker, with the bytes `rest` not written yet, or the
worker has read it and nothing else. -/
def Sending (P : Postcard F) (req : WorkerRequest F) (rest : List UInt8) (k : Conn F) : Prop :=
  k.requests = [] ∧ (P.encodeRequest req).length ≤ maxFrameBytes ∧
      k.toWorker ++ rest = frame (P.encodeRequest req) ∨
    k.requests = [req] ∧ k.toWorker = [] ∧ rest = []

/-- The connection carried the request `req` and its response `resp`, and nothing else. -/
def Exchanged (req : WorkerRequest F) (resp : WorkerResponse F) (k : Conn F) : Prop :=
  k.requests = [req] ∧ k.toWorker = [] ∧ k.responses = [resp] ∧ Answers req resp

/-- What the connection of a call carries at each program point of the call. -/
def Carries (P : Postcard F) (req : WorkerRequest F) : CallPhase F → Conn F → Prop
  | .writing _ rest => Sending P req rest
  | .reading _ => Sending P req []
  | .returned _ (.ok resp) => Exchanged req resp
  | _ => fun _ => True

/-- The worker of a connection has written what its task says. -/
def ConnOk (P : Postcard F) (s : State F) (k : Conn F) : Prop :=
  ∃ wk, s.workers k.worker = some wk ∧ k.Answered P wk.kind ∧
    ∀ req, k.task = .closed (.killed req) → wk.alive = false

/-- The connection of a call is its own and carries what the call says. -/
def CallOk (P : Postcard F) (s : State F) (i : ℕ) (call : Call F) : Prop :=
  ∀ c, call.phase.conn = some c →
    ∃ k, s.conns c = some k ∧ k.peer = some i ∧ Carries P call.request call.phase k

/-- The invariant over all connections and calls. -/
structure Inv (P : Postcard F) (s : State F) : Prop where
  conn : ∀ c k, s.conns c = some k → ConnOk P s k
  call : ∀ i call, s.calls i = some call → CallOk P s i call
  /-- A response was read from a connection. -/
  connected : ∀ i call resp, s.calls i = some call → call.phase ≠ .returned none (.ok resp)

variable {s s' : State F} {i c w : ℕ} {k k' : Conn F} {wk wk' : Worker} {call : Call F}
  {req : WorkerRequest F} {resp : WorkerResponse F} {rest : List UInt8} {ev : ServerEvent F}

/-! ### Steps of a worker -/

/-- A step of the task keeps the ends of the connection. -/
theorem serves_frame (h : Serves P wk k ev wk' k') :
    k'.worker = k.worker ∧ k'.peer = k.peer ∧ wk'.kind = wk.kind ∧ wk'.alive = wk.alive := by
  have hleave (wk : Worker) (o : OnWriteError) :
      (wk.leave o).kind = wk.kind ∧ (wk.leave o).alive = wk.alive := by
    cases o <;> exact ⟨rfl, rfl⟩
  cases h with
  | reject _ heq =>
    rcases reply_cases heq with ⟨-, rfl, rfl⟩ | ⟨-, rfl, rfl⟩
    · exact ⟨rfl, rfl, rfl, rfl⟩
    · exact ⟨rfl, rfl, hleave _ _⟩
  | inferred _ _ _ heq =>
    rcases reply_cases heq with ⟨-, rfl, rfl⟩ | ⟨-, rfl, rfl⟩
    · exact ⟨rfl, rfl, rfl, rfl⟩
    · exact ⟨rfl, rfl, hleave _ _⟩
  | written => exact ⟨rfl, rfl, hleave _ _⟩
  | writeFail => exact ⟨rfl, rfl, hleave _ _⟩
  | _ => exact ⟨rfl, rfl, rfl, rfl⟩

/-- A step of the task kills nothing. -/
theorem serves_not_killed (h : Serves P wk k ev wk' k') (r : Option (WorkerRequest F)) :
    k'.task ≠ .closed (.killed r) := by
  cases h with
  | reject _ heq => rcases reply_cases heq with ⟨-, rfl, rfl⟩ | ⟨-, rfl, rfl⟩ <;> exact nofun
  | inferred _ _ _ heq => rcases reply_cases heq with ⟨-, rfl, rfl⟩ | ⟨-, rfl, rfl⟩ <;> exact nofun
  | @writeFail _ onError => cases onError <;> exact nofun
  | _ => exact nofun

/-- The task takes no request and answers none, or it takes one, or it answers one. -/
theorem serves_history (h : Serves P wk k ev wk' k') :
    k'.requests = k.requests ∧ k'.toWorker = k.toWorker ∧ k'.responses = k.responses ∨
    (∃ req rest, readFrame P.decodeRequest k.toWorker = some (.ok (req, rest)) ∧
      k'.requests = k.requests ++ [req] ∧ k'.toWorker = rest ∧ k'.responses = k.responses) ∨
    ∃ req resp, k.task.unanswered = some req ∧ k'.requests = k.requests ∧
      k'.toWorker = k.toWorker ∧ k'.responses = k.responses ++ [resp] := by
  cases h with
  | read hk hr => exact .inr (.inl ⟨_, _, hr, rfl, rfl, rfl⟩)
  | reject hk heq =>
    rcases reply_cases heq with ⟨-, rfl, rfl⟩ | ⟨-, rfl, rfl⟩
    · exact .inr (.inr ⟨_, _, by rw [hk]; rfl, rfl, rfl, rfl⟩)
    · exact .inl ⟨rfl, rfl, rfl⟩
  | inferred _ hk _ heq =>
    rcases reply_cases heq with ⟨-, rfl, rfl⟩ | ⟨-, rfl, rfl⟩
    · exact .inr (.inr ⟨_, _, by rw [hk]; rfl, rfl, rfl, rfl⟩)
    · exact .inl ⟨rfl, rfl, rfl⟩
  | _ => exact .inl ⟨rfl, rfl, rfl⟩

/-- The worker reads the request of the call and no other. -/
theorem Sending.serves (hP : P.Lawful) (h : Sending P req rest k)
    (hserves : Serves P wk k ev wk' k') : Sending P req rest k' := by
  rcases serves_history hserves with ⟨hreq, hto, -⟩ | ⟨r, rest', hread, hreq, hto, -⟩ |
    ⟨-, -, -, hreq, hto, -⟩
  · rwa [Sending, hreq, hto]
  · rcases h with ⟨hnil, hlen, hframe⟩ | ⟨-, hnil, -⟩
    · have hprefix : k.toWorker <+: frames ([req].map P.encodeRequest) :=
        ⟨rest, by simpa using hframe⟩
      obtain ⟨values', hvalues, hbytes, hrest'⟩ := readFrame_prefix
        (fun v _ => hP.decodeRequest_encode v) (by simpa using hlen) hprefix hread
      obtain ⟨rfl, rfl⟩ := List.cons.inj hvalues
      obtain rfl : rest' = [] := List.prefix_nil.mp hrest'
      rw [hbytes, List.append_nil] at hframe
      exact .inr ⟨by rw [hreq, hnil]; rfl, hto, List.append_right_eq_self.mp hframe⟩
    · rw [hnil] at hread
      cases hread
  · rwa [Sending, hreq, hto]

/-- A connection that has carried its exchange carries nothing more. -/
theorem Exchanged.serves {kind : String} (h : Exchanged req resp k) (hk : k.Answered P kind)
    (hserves : Serves P wk k ev wk' k') : Exchanged req resp k' := by
  obtain ⟨hreqs, hnil, hresps, hanswers⟩ := h
  rcases serves_history hserves with ⟨hreq, hto, hresp⟩ | ⟨r, rest', hread, -⟩ |
    ⟨r, resp', hunanswered, -⟩
  · exact ⟨hreq.trans hreqs, hto.trans hnil, hresp.trans hresps, hanswers⟩
  · rw [hnil] at hread
    cases hread
  · obtain ⟨reqs, heq, hall⟩ := hk.answered
    have hlen := congrArg List.length heq
    have hpair := hall.length_eq
    rw [hreqs, hunanswered] at hlen
    rw [hresps] at hpair
    simp only [List.length_append, List.length_cons, List.length_nil, Option.toList_some] at *
    omega

theorem Carries.serves {kind : String} {phase : CallPhase F} (hP : P.Lawful)
    (h : Carries P req phase k) (hk : k.Answered P kind) (hserves : Serves P wk k ev wk' k') :
    Carries P req phase k' := by
  match phase, h with
  | .writing _ _, h => exact Sending.serves hP h hserves
  | .reading _, h => exact Sending.serves hP h hserves
  | .returned _ (.ok _), h => exact Exchanged.serves h hk hserves
  | .returned _ (.error _), _ => trivial
  | .acquiring, _ | .connecting, _ | .cancelled, _ => trivial

/-- The first response on a connection that carries one request was made for this request. -/
theorem Conn.Answered.of_read {kind : String} (hP : P.Lawful) (h : k.Answered P kind)
    (hsending : Sending P req [] k)
    (hread : readFrame P.decodeResponse k.toPeer = some (.ok (resp, rest))) :
    k.requests = [req] ∧ k.toWorker = [] ∧ k.responses = [resp] ∧ Produced kind req resp := by
  obtain ⟨resps, hresps, -⟩ := readFrame_prefix (fun v _ => hP.decodeResponse_encode v) h.fits
    h.onlyFrames hread
  obtain ⟨reqs, hreqs, hall⟩ := h.answered
  rw [hresps] at hall
  cases hall with
  | @cons r _ reqs' _ hproduced hall =>
    rcases hsending with ⟨hnil, -⟩ | ⟨hone, hto, -⟩
    · rw [hnil] at hreqs
      cases hreqs
    · rw [hone, List.cons_append] at hreqs
      obtain ⟨rfl, htail⟩ := List.cons.inj hreqs
      obtain ⟨rfl, -⟩ := List.append_eq_nil_iff.mp htail.symm
      cases hall
      exact ⟨hone, hto, hresps, hproduced⟩

/-! ### Steps of the system -/

theorem Conn.answered_new (kind : String) (w : ℕ) (peer : Option ℕ) :
    (Conn.new w peer : Conn F).Answered P kind where
  answered := ⟨[], rfl, .nil⟩
  onlyFrames := List.prefix_rfl
  wire_eq _ _ := rfl
  fits := nofun
  rejecting := nofun
  tooLarge := nofun
  writeFailed := nofun

/-- A connection keeps what was written on it when its peer drops its end. -/
theorem Conn.Answered.hangUp {kind : String} (h : k.Answered P kind) :
    ({ k with peerOpen := false } : Conn F).Answered P kind :=
  ⟨h.answered, h.onlyFrames, nofun, h.fits, h.rejecting, h.tooLarge, fun _ => rfl⟩

theorem Conn.Answered.receive {kind : String} (h : k.Answered P kind) (bytes : List UInt8) :
    ({ k with toWorker := bytes } : Conn F).Answered P kind :=
  ⟨h.answered, h.onlyFrames, h.wire_eq, h.fits, h.rejecting, h.tooLarge, h.writeFailed⟩

theorem Conn.Answered.kill {kind : String} (h : k.Answered P kind) : k.kill.Answered P kind := by
  by_cases hclosed : ∃ why, k.task = .closed why
  · obtain ⟨why, hwhy⟩ := hclosed
    obtain ⟨worker, peer, peerOpen, toWorker, toPeer, task, requests, responses⟩ := k
    obtain rfl : task = .closed why := hwhy
    exact h
  · have heq : k.kill.task = .closed (.killed k.task.unanswered) := by
      rw [Conn.kill]
      split
      · exact absurd ⟨_, ‹_›⟩ hclosed
      · rfl
    obtain ⟨reqs, hreqs, hall⟩ := h.answered
    refine ⟨⟨reqs, ?_, hall⟩, h.onlyFrames, fun _ hnot => ?_, h.fits, ?_, ?_, ?_⟩
    · rw [heq]
      exact hreqs
    · exact absurd heq (hnot _)
    · simp [heq]
    · simp [heq]
    · simp [heq]

theorem ConnOk.congr (h : ConnOk P s k) (hw : s'.workers = s.workers) : ConnOk P s' k := by
  rwa [ConnOk, hw]

theorem CallOk.congr (h : CallOk P s i call) (hc : s'.conns = s.conns) : CallOk P s' i call := by
  rwa [CallOk, hc]

/-- A connection and the call that owns it change together. -/
theorem Inv.exchange (h : Inv P s) (hk : ConnOk P s k) (hpeer : k.peer = some i)
    (hnew : ∀ k₀, s.conns c = some k₀ → k₀.peer = some i) {call' : Call F}
    (hconn : call'.phase.conn = some c) (hcarries : Carries P call'.request call'.phase k) :
    Inv P ((s.setConn c k).setCall i call') where
  conn d kd hd := by
    simp only [State.setCall_conns, State.setConn_conns, Function.update_apply] at hd
    split at hd
    · obtain rfl := Option.some.inj hd
      exact hk.congr rfl
    · exact (h.conn d kd hd).congr rfl
  call j callj hj d hd := by
    simp only [State.setCall_calls, State.setConn_calls, Function.update_apply] at hj
    simp only [State.setCall_conns, State.setConn_conns, Function.update_apply]
    split at hj
    next hji =>
      obtain rfl := Option.some.inj hj
      obtain rfl : c = d := Option.some.inj (hconn.symm.trans hd)
      exact ⟨k, if_pos rfl, by rw [hpeer, hji], hcarries⟩
    next hji =>
      obtain ⟨kd, hkd, hpeerd, hcarriesd⟩ := h.call j callj hj d hd
      have hdc : d ≠ c := by
        rintro rfl
        exact hji (Option.some.inj (hpeerd.symm.trans (hnew kd hkd)))
      exact ⟨kd, by rw [if_neg hdc, hkd], hpeerd, hcarriesd⟩
  connected j callj resp hj := by
    simp only [State.setCall_calls, State.setConn_calls, Function.update_apply] at hj
    split at hj
    · obtain rfl := Option.some.inj hj
      intro hphase
      rw [hphase] at hconn
      cases hconn
    · exact h.connected j callj resp hj

/-- A call changes its program point and its connection carries what the new point says. -/
theorem Inv.setCall (h : Inv P s) {call' : Call F} (hcall : CallOk P s i call')
    (hconnected : ∀ resp, call'.phase ≠ .returned none (.ok resp)) :
    Inv P (s.setCall i call') where
  conn d kd hd := (h.conn d kd hd).congr rfl
  call j callj hj := by
    simp only [State.setCall_calls, Function.update_apply] at hj
    split at hj
    next hji =>
      obtain rfl := Option.some.inj hj
      rw [hji]
      exact hcall.congr rfl
    · exact (h.call j callj hj).congr rfl
  connected j callj resp hj := by
    simp only [State.setCall_calls, Function.update_apply] at hj
    split at hj
    · obtain rfl := Option.some.inj hj
      exact hconnected resp
    · exact h.connected j callj resp hj

/-- A connection changes while it carries what its call says. -/
theorem Inv.setConn (h : Inv P s) (hk : ConnOk P s k')
    (hkeep : ∀ j callj, s.calls j = some callj → callj.phase.conn = some c →
      ∃ k, s.conns c = some k ∧ k'.peer = k.peer ∧
        (Carries P callj.request callj.phase k → Carries P callj.request callj.phase k')) :
    Inv P (s.setConn c k') where
  conn d kd hd := by
    simp only [State.setConn_conns, Function.update_apply] at hd
    split at hd
    · obtain rfl := Option.some.inj hd
      exact hk.congr rfl
    · exact (h.conn d kd hd).congr rfl
  call j callj hj d hd := by
    simp only [State.setConn_conns, Function.update_apply]
    obtain ⟨kd, hkd, hpeer, hcarries⟩ := h.call j callj hj d hd
    split
    next hdc =>
      subst hdc
      obtain ⟨k, hk', hpeer', hcarries'⟩ := hkeep j callj hj hd
      obtain rfl := Option.some.inj (hkd.symm.trans hk')
      exact ⟨k', rfl, hpeer'.trans hpeer, hcarries' hcarries⟩
    · exact ⟨kd, hkd, hpeer, hcarries⟩
  connected := h.connected

/-- Connections change without a change of what they carry. -/
theorem Inv.mapConns (h : Inv P s) {f : ℕ → Conn F → Conn F}
    (hk : ∀ c k, ConnOk P s k → ConnOk P s' (f c k)) (hpeer : ∀ c k, (f c k).peer = k.peer)
    (hcarries : ∀ c k req phase, Carries P req phase k → Carries P req phase (f c k))
    (hconns : ∀ c, s'.conns c = (s.conns c).map (f c)) (hcalls : s'.calls = s.calls) :
    Inv P s' where
  conn c k' hc := by
    rw [hconns] at hc
    obtain ⟨k, hkc, rfl⟩ := Option.map_eq_some_iff.mp hc
    exact hk c k (h.conn c k hkc)
  call i call hi c hc := by
    rw [hcalls] at hi
    obtain ⟨k, hkc, hpeer', hcarries'⟩ := h.call i call hi c hc
    exact ⟨f c k, by rw [hconns, hkc]; rfl, (hpeer c k).trans hpeer', hcarries c k _ _ hcarries'⟩
  connected i call resp hi := by
    rw [hcalls] at hi
    exact h.connected i call resp hi

theorem Carries.congr {phase : CallPhase F} (h : Carries P req phase k)
    (hrequests : k'.requests = k.requests) (hto : k'.toWorker = k.toWorker)
    (hresponses : k'.responses = k.responses) : Carries P req phase k' := by
  match phase, h with
  | .writing _ _, h | .reading _, h => rwa [Carries, Sending, hrequests, hto]
  | .returned _ (.ok _), h => rwa [Carries, Exchanged, hrequests, hto, hresponses]
  | .returned _ (.error _), _ => trivial
  | .acquiring, _ | .connecting, _ | .cancelled, _ => trivial

/-- The peer of a connection drops its end. -/
theorem Inv.hangUp (h : Inv P s) (c : Option ℕ) : Inv P (s.hangUp c) := by
  refine h.mapConns (f := fun c' k => if c = some c' then { k with peerOpen := false } else k)
    (fun c' k hk => ?_) (fun c' k => ?_) (fun c' k req phase hcarries => ?_) (fun c' => ?_) rfl
  · split
    · obtain ⟨wk, hwk, hanswered, hkilled⟩ := hk
      exact ⟨wk, hwk, hanswered.hangUp, hkilled⟩
    · exact hk
  · split <;> rfl
  · split
    · exact hcarries.congr rfl rfl rfl
    · exact hcarries
  · rw [State.hangUp_conns]
    split
    · rfl
    · exact Option.map_id'.symm ▸ rfl

/-- A call that holds a permit ends. -/
theorem Inv.finish (h : Inv P s) {phase : CallPhase F}
    (hcall : CallOk P s i { call with phase })
    (hconnected : ∀ resp, phase ≠ .returned none (.ok resp)) :
    Inv P (s.finish i call phase) := by
  have hinv := (h.setCall hcall hconnected).hangUp call.phase.conn
  exact ⟨hinv.conn, hinv.call, hinv.connected⟩

/-- **Step lemma of a call.** Every step of a call keeps the invariant. -/
theorem Inv.callStep {ev : CallEvent} (hP : P.Lawful) (h : Inv P s) (hi : s.calls i = some call)
    (hstep : CallTrans P s i call ev s') : Inv P s' := by
  have hcall := h.call i call hi
  cases hstep with
  | acquire hp =>
    have hinv : Inv P (s.setCall i { call with phase := .connecting }) :=
      h.setCall nofun nofun
    exact ⟨hinv.conn, hinv.call, hinv.connected⟩
  | @connect c w wk bytes hp hc hw halive hbytes =>
    obtain ⟨hlen, rfl⟩ := writeFrame_eq_ok_iff.mp hbytes
    refine h.exchange ⟨wk, hw, Conn.answered_new wk.kind w (some i), nofun⟩ rfl ?_ rfl ?_
    · intro k₀ hk₀
      rw [hc] at hk₀
      cases hk₀
    · exact .inl ⟨rfl, hlen, rfl⟩
  | @requestTooLarge c w wk e hp hc hw halive he =>
    have hinv : Inv P ((s.setConn c { Conn.new w (some i) with peerOpen := false }).setCall i
        { call with phase := .returned (some c) (.error e) }) := by
      refine h.exchange ⟨wk, hw, (Conn.answered_new wk.kind w (some i)).hangUp, nofun⟩ rfl ?_ rfl
        trivial
      intro k₀ hk₀
      rw [hc] at hk₀
      cases hk₀
    have hinv' := hinv.hangUp call.phase.conn
    exact ⟨hinv'.conn, hinv'.call, hinv'.connected⟩
  | @send c rest k n hp hc =>
    rw [CallOk, hp] at hcall
    obtain ⟨k', hc', hpeer, hcarries⟩ := hcall c rfl
    obtain rfl := Option.some.inj (hc.symm.trans hc')
    obtain ⟨wk, hwk, hanswered, hkilled⟩ := h.conn c k hc
    have hok : ConnOk P s { k with toWorker := k.toWorker ++ rest.take n } :=
      ⟨wk, hwk, hanswered.receive _, hkilled⟩
    refine h.exchange hok hpeer ?_ rfl ?_
    · intro k₀ hk₀
      obtain rfl := Option.some.inj (hc.symm.trans hk₀)
      exact hpeer
    · rcases hcarries with ⟨hnil, hlen, hframe⟩ | ⟨hone, hto, rfl⟩
      · refine .inl ⟨hnil, hlen, ?_⟩
        rw [List.append_assoc, List.take_append_drop]
        exact hframe
      · exact .inr ⟨hone, by simpa using hto, List.drop_nil⟩
  | @flush c hp =>
    refine h.setCall (fun d hd => ?_) nofun
    rw [CallOk, hp] at hcall
    exact hcall d hd
  | @receive c k resp rest hp hc hr =>
    rw [CallOk, hp] at hcall
    obtain ⟨k', hc', hpeer, hcarries⟩ := hcall c rfl
    obtain rfl := Option.some.inj (hc.symm.trans hc')
    obtain ⟨wk, hwk, hanswered, -⟩ := h.conn c k hc
    refine h.finish (fun d hd => ?_) nofun
    obtain rfl : c = d := Option.some.inj hd
    refine ⟨k, hc, hpeer, ?_⟩
    cases hresp : acceptResponse call.requestId call.dispatch resp with
    | error e => trivial
    | ok r =>
      obtain ⟨hcheck, rfl⟩ := acceptResponse_eq_ok hresp
      obtain ⟨hone, hto, hresps, hproduced⟩ := hanswered.of_read hP hcarries hr
      exact ⟨hone, hto, hresps, hproduced.answers hcheck⟩
  | @malformed c k e hp hc hr =>
    rw [CallOk, hp] at hcall
    obtain ⟨k', hc', hpeer, -⟩ := hcall c rfl
    refine h.finish (fun d hd => ?_) nofun
    obtain rfl : c = d := Option.some.inj hd
    exact ⟨k', hc', hpeer, trivial⟩
  | cancelAcquire => exact h.setCall nofun nofun
  | fail hp =>
    refine h.finish (fun d hd => ?_) fun resp hphase => nomatch (CallPhase.returned.inj hphase).2
    obtain ⟨k', hc', hpeer, -⟩ := hcall d hd
    exact ⟨k', hc', hpeer, trivial⟩
  | cancel => exact h.finish nofun nofun

/-- **Step lemma.** Every step of the system keeps the invariant. -/
theorem Inv.step {a : Action F} (hP : P.Lawful) (h : Inv P s) (hstep : Trans P s a s') :
    Inv P s' := by
  cases hstep with
  | @spawn w kind maxWaiters poolSize hw =>
    refine ⟨fun c k hc => ?_, h.call, h.connected⟩
    obtain ⟨wk, hwk, hk⟩ := h.conn c k hc
    refine ⟨wk, ?_, hk⟩
    rw [State.setWorker_workers, Function.update_of_ne, hwk]
    rintro rfl
    rw [hw] at hwk
    cases hwk
  | @kill w wk hw halive =>
    refine h.mapConns (f := fun _ k => if k.worker = w then k.kill else k)
      (fun c k hk => ?_) (fun c k => ?_) (fun c k req phase hcarries => ?_) (fun _ => rfl) rfl
    · obtain ⟨wk', hwk', hanswered, hkilled⟩ := hk
      split
      next hkw =>
        subst hkw
        obtain rfl := Option.some.inj (hw.symm.trans hwk')
        exact ⟨{ wk with alive := false }, Function.update_self .., hanswered.kill, fun _ _ => rfl⟩
      next hkw =>
        exact ⟨wk', (Function.update_of_ne hkw _ _).trans hwk', hanswered, hkilled⟩
    · split <;> rfl
    · split
      · exact hcarries.congr rfl rfl rfl
      · exact hcarries
  | newClient => exact ⟨h.conn, h.call, h.connected⟩
  | @begin i cl client d hi =>
    have hinv : Inv P (s.setCall i ⟨cl, client.counter, d, .acquiring⟩) := h.setCall nofun nofun
    exact ⟨hinv.conn, hinv.call, hinv.connected⟩
  | call hi hcall => exact h.callStep hP hi hcall
  | @foreign c w wk hc hw halive =>
    refine h.setConn ⟨wk, hw, Conn.answered_new wk.kind w none, nofun⟩ fun j callj hj hd => ?_
    obtain ⟨k, hk, -⟩ := h.call j callj hj c hd
    rw [hc] at hk
    cases hk
  | @foreignWrite c k bytes hc hpeer =>
    obtain ⟨wk, hwk, hanswered, hkilled⟩ := h.conn c k hc
    refine h.setConn ⟨wk, hwk, hanswered.receive _, hkilled⟩ fun j callj hj hd => ?_
    obtain ⟨k', hk', hpeer', -⟩ := h.call j callj hj c hd
    obtain rfl := Option.some.inj (hc.symm.trans hk')
    rw [hpeer] at hpeer'
    cases hpeer'
  | foreignClose => exact h.hangUp _
  | @server c k k' wk wk' ev hc hw halive hserve =>
    have hserves := serves_of_serve hserve
    obtain ⟨hworker, hpeer, hkind, halive'⟩ := serves_frame hserves
    obtain ⟨wk₀, hwk₀, hanswered, -⟩ := h.conn c k hc
    obtain rfl := Option.some.inj (hw.symm.trans hwk₀)
    have hinv : Inv P (s.setWorker k.worker wk') := by
      refine ⟨fun d kd hd => ?_, h.call, h.connected⟩
      obtain ⟨wkd, hwkd, hansweredd, hkilledd⟩ := h.conn d kd hd
      by_cases hkd : kd.worker = k.worker
      · rw [hkd, hw] at hwkd
        obtain rfl := Option.some.inj hwkd
        refine ⟨wk', by rw [hkd]; exact Function.update_self .., hkind ▸ hansweredd, ?_⟩
        rw [halive']
        exact hkilledd
      · exact ⟨wkd, by rw [State.setWorker_workers, Function.update_of_ne hkd, hwkd], hansweredd,
          hkilledd⟩
    refine hinv.setConn ⟨wk', ?_, ?_, fun r hr => absurd hr (serves_not_killed hserves r)⟩
      fun j callj hj hd => ⟨k, hc, hpeer, fun hcarries => hcarries.serves hP hanswered hserves⟩
    · rw [hworker]
      exact Function.update_self ..
    · rw [hkind]
      exact answered_of_serve hP hanswered hserve

variable {C : State F → Action F → Prop}

/-- **Run lemma.** The invariant holds in every reachable state. -/
theorem inv_of_reachable (hP : P.Lawful) (hs : (machine P).Reachable C s) : Inv P s := by
  refine hs.invariant ?_ fun _ _ _ h _ hstep => h.step hP (trans_of_step hstep)
  rintro _ rfl
  exact ⟨fun _ _ h => (nomatch h), fun _ _ h => (nomatch h), fun _ _ _ h => (nomatch h)⟩

/-! ### Both sides of the socket -/

/-- A call has received the response that a worker made for its request, on a connection of its
own that carried nothing else. -/
def OwnResponse (s : State F) (i : ℕ) (call : Call F) (resp : WorkerResponse F) (c : ℕ) : Prop :=
  ∃ k wk, s.conns c = some k ∧ k.peer = some i ∧ k.requests = [call.request] ∧
    k.responses = [resp] ∧ s.workers k.worker = some wk ∧
    Produced wk.kind call.request resp ∧ Answers call.request resp

/-- Every request of a connection gets one response frame, in order and with its id, unless the
response is over the cap. -/
structure OneResponseEach (P : Postcard F) (wk : Worker) (k : Conn F) : Prop where
  /-- The responses answer the requests in order, all but the one that is being handled. -/
  inOrder : ∃ reqs, k.requests = reqs ++ k.task.unanswered.toList ∧
    List.Forall₂ (fun req resp => Produced wk.kind req resp ∧ resp.requestId = req.requestId ∧
      (P.encodeResponse resp).length ≤ maxFrameBytes) reqs k.responses
  /-- Nothing but the frames of the responses is written. -/
  onlyFrames : k.toPeer <+: wire P k.responses
  /-- The frames are whole while the peer holds its end and the worker lives. -/
  wholeFrames : k.peerOpen = true → wk.alive = true →
    k.toPeer ++ k.task.unsent = wire P k.responses
  /-- A response without a frame is over the cap, and the connection is closed. -/
  tooLarge : ∀ req, k.task = .closed (.tooLarge req) →
    ∃ resp, Produced wk.kind req resp ∧ maxFrameBytes < (P.encodeResponse resp).length
  /-- Otherwise the loop ends when no request can be read, the peer is gone or the worker dead. -/
  ended : ∀ why, k.task = .closed why → k.peerOpen = true → wk.alive = true →
    why = .readEnded ∨ ∃ req, why = .tooLarge req
  /-- Every request that is being handled comes to its end once a permit is free. -/
  progress : 0 < k.task.remaining →
    ((∀ req, k.task = .waiting req → wk.permits ≠ 0) →
      ∃ ev wk' k', serve P wk k ev = some (wk', k')) ∧
    ∀ ev wk' k', serve P wk k ev = some (wk', k') → k'.task.remaining < k.task.remaining

/-- Requests and responses are matched, on both sides of the socket. -/
structure Matched (P : Postcard F) (s : State F) : Prop where
  dispatch : ∀ i call c resp, s.calls i = some call → call.phase = .returned c (.ok resp) →
    ∃ c', c = some c' ∧ OwnResponse s i call resp c'
  /-- Two calls never share a connection. -/
  own : ∀ i j calli callj c, s.calls i = some calli → s.calls j = some callj →
    calli.phase.conn = some c → callj.phase.conn = some c → i = j
  worker : ∀ c k, s.conns c = some k →
    ∃ wk, s.workers k.worker = some wk ∧ OneResponseEach P wk k

theorem Conn.Answered.oneResponseEach (h : k.Answered P wk.kind)
    (hkilled : ∀ req, k.task = .closed (.killed req) → wk.alive = false) :
    OneResponseEach P wk k where
  inOrder := by
    obtain ⟨reqs, hreqs, hall⟩ := h.answered
    obtain ⟨hlen, hpairs⟩ := List.forall₂_iff_zip.mp hall
    exact ⟨reqs, hreqs, List.forall₂_iff_zip.mpr ⟨hlen, fun hmem => ⟨hpairs hmem,
      (hpairs hmem).requestId_eq, h.fits _ (List.of_mem_zip hmem).2⟩⟩⟩
  onlyFrames := h.onlyFrames
  wholeFrames hpeer halive := by
    refine h.wire_eq hpeer fun req hreq => ?_
    rw [hkilled req hreq] at halive
    cases halive
  tooLarge := h.tooLarge
  ended why hwhy hpeer halive := by
    cases why with
    | readEnded => exact .inl rfl
    | tooLarge req => exact .inr ⟨req, rfl⟩
    | writeFailed =>
      rw [h.writeFailed hwhy] at hpeer
      cases hpeer
    | killed req =>
      rw [hkilled req hwhy] at halive
      cases halive
  progress hhandling :=
    ⟨exists_serve P hhandling, fun _ _ _ hserve => remaining_lt_of_serve hserve hhandling⟩

/-- **Requests and responses are matched in every reachable state**, for every interleaving of
calls, cancellations, kills and respawns. -/
theorem matched_of_reachable (hP : P.Lawful) (hs : (machine P).Reachable C s) : Matched P s := by
  have h := inv_of_reachable hP hs
  refine ⟨fun i call c resp hi hphase => ?_, fun i j calli callj c hi hj hci hcj => ?_,
    fun c k hc => ?_⟩
  · cases c with
    | none => exact absurd hphase (h.connected i call resp hi)
    | some c =>
      have hcall := h.call i call hi
      rw [CallOk, hphase] at hcall
      obtain ⟨k, hk, hpeer, hone, hto, hresps, hanswers⟩ := hcall c rfl
      obtain ⟨wk, hwk, hanswered, -⟩ := h.conn c k hk
      obtain ⟨reqs, hreqs, hall⟩ := hanswered.answered
      rw [hresps] at hall
      cases hall with
      | cons hproduced hnil =>
        cases hnil
        rw [hone] at hreqs
        obtain ⟨rfl, -⟩ := List.cons.inj hreqs
        exact ⟨c, rfl, k, wk, hk, hpeer, hone, hresps, hwk, hproduced, hanswers⟩
  · obtain ⟨ki, hki, hpeeri, -⟩ := h.call i calli hi c hci
    obtain ⟨kj, hkj, hpeerj, -⟩ := h.call j callj hj c hcj
    obtain rfl := Option.some.inj (hki.symm.trans hkj)
    exact Option.some.inj (hpeeri.symm.trans hpeerj)
  · obtain ⟨wk, hwk, hanswered, hkilled⟩ := h.conn c k hc
    exact ⟨wk, hwk, hanswered.oneResponseEach hkilled⟩

/-- An embedding model of one dimension. -/
def oneDim : LoadedModel UInt32 := .embed fun texts _ => .ok (texts.map fun _ => [7], 1)

/-- A call that is cancelled in the middle of its request, a call whose worker is killed, and after
the respawn two calls of a new client, with the ids `0` and `1` again. -/
theorem matched_respawn :
    ∃ s, (machine Postcard.wireFormat).Reachable (fun _ _ => True) s ∧
      (s.calls 0).map Call.phase = some .cancelled ∧
      (s.calls 1).map Call.phase = some (.returned (some 1) (.error .other)) ∧
      (s.calls 2).map Call.phase =
        some (.returned (some 2) (.ok (.embed ⟨0, [[7], [7]], 1⟩))) ∧
      (s.calls 3).map Call.phase = some (.returned (some 3)
        (.ok (.err 1 "kind mismatch: model is embed, request is rerank"))) ∧
      Matched Postcard.wireFormat s := by
  obtain ⟨s, hs, h₀, h₁, h₂, h₃⟩ :
      ∃ s ∈ (machine Postcard.wireFormat).runUnder (fun _ _ => True) .start
        [.spawn 0 "embed" 8 1, .newClient 0 2,
          .begin 0 0 (.embed "e5" ["a"] 64), .call 0 .acquire, .call 0 (.connect 0 0),
          .call 0 (.send 3), .server 0 .accept, .call 0 .cancel, .server 0 .readEnd,
          .begin 1 0 (.embed "e5" ["b"] 64), .call 1 .acquire, .call 1 (.connect 1 0),
          .call 1 (.send 64), .call 1 .flush, .server 1 .accept, .server 1 .read,
          .server 1 .fetchAdd, .kill 0, .spawn 1 "embed" 8 1, .newClient 1 2,
          .begin 2 1 (.embed "e5" ["c", "d"] 64), .call 2 .acquire, .call 2 (.connect 2 1),
          .call 2 (.send 64), .call 2 .flush, .call 1 .fail,
          .begin 3 1 (.rerank "e5" "q" ["d"] 64), .call 3 .acquire, .call 3 (.connect 3 1),
          .call 3 (.send 64), .call 3 .flush,
          .server 2 .accept, .server 2 .read, .server 2 .fetchAdd, .server 2 .acquire,
          .server 2 .fetchSub, .server 2 (.inferred (.ok oneDim)), .server 2 (.write 2),
          .server 2 (.write 64), .server 2 .written, .call 2 .receive,
          .server 3 .accept, .server 3 .read, .server 3 .fetchAdd, .server 3 .acquire,
          .server 3 .fetchSub, .server 3 (.inferred (.ok oneDim)), .server 3 (.write 64),
          .call 3 .receive],
        (s.calls 0).map Call.phase = some .cancelled ∧
          (s.calls 1).map Call.phase = some (.returned (some 1) (.error .other)) ∧
          (s.calls 2).map Call.phase =
            some (.returned (some 2) (.ok (.embed ⟨0, [[7], [7]], 1⟩))) ∧
          (s.calls 3).map Call.phase = some (.returned (some 3)
            (.ok (.err 1 "kind mismatch: model is embed, request is rerank"))) := by
    decide +kernel
  have hreach : (machine Postcard.wireFormat).Reachable (fun _ _ => True) s := .of_runUnder rfl hs
  exact ⟨s, hreach, h₀, h₁, h₂, h₃, matched_of_reachable Postcard.wireFormat_lawful hreach⟩

end OxEmbed.Ipc

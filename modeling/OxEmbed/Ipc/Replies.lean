import OxEmbed.Ipc.Connections

/-!
# The replies of a loaded model

Every response that a worker writes rejects a request that it has read, or is the reply to it after
its blocking task. Whatever is known of the blocking tasks, such as what the vectors of the model
are, is therefore known of what the dispatch calls return.

## Main definitions

* `Ends` : the steps of a worker whose blocking tasks end in a certain way.
* `RepliesOf` : the responses of a connection are replies to such ends.
* `Runs` : the steps of a worker whose model has a property at every call.

## Main results

* `serves_responses` : what one step of a task writes.
* `repliesOf_of_reachable` : the responses of a worker are replies to the ends of its tasks.
* `reply_of_ended`, `reply_of_returned` : what a dispatch call returns.
-/

namespace OxEmbed.Ipc

variable {F : Type} {P : Postcard F} {s s' : State F} {a : Action F} {w c : ℕ} {k k' : Conn F}
  {wk wk' : Worker} {ev : ServerEvent F} {resp : WorkerResponse F}
  {E : WorkerRequest F → Except String (LoadedModel F) → Prop} {Q : LoadedModel F → Prop}

/-- A task writes at most one response in a step: a rejection, or the reply to its request. -/
theorem serves_responses (h : Serves P wk k ev wk' k') :
    k.requests <+: k'.requests ∧ (k'.responses = k.responses ∨
      ∃ resp req, k'.responses = k.responses ++ [resp] ∧ k.task.unanswered = some req ∧
        ((∃ message, k.task = .rejecting req message ∧ resp = .err req.requestId message) ∨
          ∃ r, ev = .inferred r ∧ k.task = .inferring req ∧ resp = inferenceReply req r)) := by
  cases h with
  | read => exact ⟨List.prefix_append _ _, .inl rfl⟩
  | @reject req message _ _ hk hreply =>
    rcases reply_cases hreply with ⟨-, rfl, rfl⟩ | ⟨-, rfl, rfl⟩
    · exact ⟨List.prefix_rfl, .inr ⟨_, req, rfl, by rw [hk]; rfl, .inl ⟨message, hk, rfl⟩⟩⟩
    · exact ⟨List.prefix_rfl, .inl rfl⟩
  | @inferred req _ _ r hk hr hreply =>
    rcases reply_cases hreply with ⟨-, rfl, rfl⟩ | ⟨-, rfl, rfl⟩
    · exact ⟨List.prefix_rfl, .inr ⟨_, req, rfl, by rw [hk]; rfl, .inr ⟨r, rfl, hk, rfl⟩⟩⟩
    · exact ⟨List.prefix_rfl, .inl rfl⟩
  | _ => exact ⟨List.prefix_rfl, .inl rfl⟩

/-- Every blocking task of the worker `w` ends as `E` says for its request. -/
def Ends (E : WorkerRequest F → Except String (LoadedModel F) → Prop) (w : ℕ) (s : State F)
    (a : Action F) : Prop :=
  match a with
  | .server c (.inferred r) =>
    ∀ k ∈ s.conns c, k.worker = w → ∀ req, k.task = .inferring req → E req r
  | _ => True

/-- A response rejects the request, or is the reply after a blocking task that ends as `E` says. -/
def RepliesAfter (E : WorkerRequest F → Except String (LoadedModel F) → Prop)
    (req : WorkerRequest F) (resp : WorkerResponse F) : Prop :=
  (∃ message, IsRejection message ∧ resp = .err req.requestId message) ∨
    ∃ r, E req r ∧ resp = inferenceReply req r

/-- The responses of a connection reply to the requests that its task has read. -/
def RepliesOf (E : WorkerRequest F → Except String (LoadedModel F) → Prop) (k : Conn F) : Prop :=
  ∀ resp ∈ k.responses, ∃ req ∈ k.requests, RepliesAfter E req resp

theorem RepliesOf.serves {kind : String} (h : RepliesOf E k) (hk : k.Answered P kind)
    (hserves : Serves P wk k ev wk' k')
    (hends : ∀ r, ev = .inferred r → ∀ req, k.task = .inferring req → E req r) :
    RepliesOf E k' := by
  obtain ⟨hrequests, hresponses⟩ := serves_responses hserves
  have hold : ∀ resp ∈ k.responses, ∃ req ∈ k'.requests, RepliesAfter E req resp := by
    intro resp hmem
    obtain ⟨req, hreq, hreply⟩ := h resp hmem
    exact ⟨req, hrequests.subset hreq, hreply⟩
  intro resp hresp
  rcases hresponses with heq | ⟨last, req, heq, htask, hlast⟩
  · exact hold resp (heq ▸ hresp)
  rw [heq] at hresp
  rcases List.mem_append.1 hresp with hmem | hmem
  · exact hold resp hmem
  obtain rfl := List.mem_singleton.1 hmem
  -- the task replies to the last request that it has read
  obtain ⟨reqs, hreqs, -⟩ := hk.answered
  have hread : req ∈ k.requests := by
    rw [hreqs, htask]
    exact List.mem_append_right _ (List.mem_singleton_self _)
  refine ⟨req, hrequests.subset hread, ?_⟩
  rcases hlast with ⟨message, hrejecting, rfl⟩ | ⟨r, hev, hinferring, rfl⟩
  · exact .inl ⟨message, hk.rejecting req message hrejecting, rfl⟩
  · exact .inr ⟨r, hends r hev req hinferring, rfl⟩

/-- **The responses of a worker are replies to the ends of its tasks**, in every reachable
state. -/
theorem repliesOf_of_reachable {C : State F → Action F → Prop} (hP : P.Lawful)
    (hs : (machine P).Reachable C s) (hC : ∀ s a, C s a → Ends E w s a) :
    ∀ c k, s.conns c = some k → k.worker = w → RepliesOf E k := by
  refine hs.invariant_of_reachable
    (P := fun s => ∀ c k, s.conns c = some k → k.worker = w → RepliesOf E k) ?_
    fun s a s' hs ih hCa h => ?_
  · rintro _ rfl
    exact fun _ _ hc => (nomatch hc)
  intro c k' hc' hk'
  cases connStep_of_trans (trans_of_step h) c with
  | absent ha hc hnone =>
    rw [hc'] at hnone
    cases hnone
  | opened ha hc hsome hw hnew =>
    obtain rfl := Option.some.inj (hc'.symm.trans hsome)
    rw [RepliesOf, hnew.responses]
    exact fun resp hresp => (nomatch hresp)
  | @kept k _ ha hc hsome hkeep =>
    obtain rfl := Option.some.inj (hc'.symm.trans hsome)
    rw [RepliesOf, hkeep.responses, hkeep.requests]
    exact ih c k hc (hkeep.worker.symm.trans hk')
  | @killed k ha hc hsome =>
    obtain rfl := Option.some.inj (hc'.symm.trans hsome)
    exact ih c k hc hk'
  | @served k _ wk wk' ev ha hc hw halive hserve hsome =>
    obtain rfl := Option.some.inj (hc'.symm.trans hsome)
    have hserves := serves_of_serve hserve
    have hk : k.worker = w := (serves_frame hserves).1.symm.trans hk'
    obtain ⟨wk₀, -, hanswered, -⟩ := (inv_of_reachable hP hs).conn c k hc
    refine (ih c k hc hk).serves hanswered hserves fun r hev => ?_
    have hends := hC s a hCa
    rw [ha, hev] at hends
    exact hends k hc hk

/-- **What a dispatch call returns** is a reply to its own request, with one output for each
input. -/
theorem reply_of_ended {C : State F → Action F → Prop} (hP : P.Lawful)
    (hs : (machine P).Reachable C s) (hC : ∀ s a, C s a → Ends E w s a) {i : ℕ} {call : Call F}
    (hi : s.calls i = some call) (hphase : call.phase = .returned (some c) (.ok resp))
    (hc : s.conns c = some k) (hk : k.worker = w) :
    RepliesAfter E call.request resp ∧ Answers call.request resp := by
  have hcall := (inv_of_reachable hP hs).call i call hi
  rw [CallOk, hphase] at hcall
  obtain ⟨k', hc', -, hrequests, -, hresponses, hanswers⟩ := hcall c rfl
  obtain rfl := Option.some.inj (hc.symm.trans hc')
  refine ⟨?_, hanswers⟩
  obtain ⟨req, hreq, hreply⟩ := repliesOf_of_reachable hP hs hC c k hc hk resp
    (hresponses ▸ List.mem_singleton_self resp)
  rw [hrequests] at hreq
  exact List.mem_singleton.1 hreq ▸ hreply

/-! ### Models with a property -/

/-- The model that the worker `w` runs has the property `Q`, unless the blocking task panics. -/
def Runs (Q : LoadedModel F → Prop) (w : ℕ) (s : State F) (a : Action F) : Prop :=
  match a with
  | .server c (.inferred (.ok m)) => ∀ k ∈ s.conns c, k.worker = w → Q m
  | _ => True

/-- A response is an error, or the reply of a model with the property `Q` to the request. -/
def RepliesTo (Q : LoadedModel F → Prop) (req : WorkerRequest F) (resp : WorkerResponse F) : Prop :=
  (∃ id message, resp = .err id message) ∨ ∃ m, Q m ∧ resp = m.respond req

theorem ends_of_runs (h : Runs Q w s a) : Ends (fun _ r => ∀ m, r = .ok m → Q m) w s a := by
  unfold Ends
  split
  next c r =>
    rintro k hk hw - - m rfl
    exact h k hk hw
  · trivial

/-- **What a dispatch call returns** is an error of the worker or the reply of its model to the
request of the call, with one output for each input. -/
theorem reply_of_returned {C : State F → Action F → Prop} (hP : P.Lawful)
    (hs : (machine P).Reachable C s) (hC : ∀ s a, C s a → Runs Q w s a) {i : ℕ} {call : Call F}
    (hi : s.calls i = some call) (hphase : call.phase = .returned (some c) (.ok resp))
    (hc : s.conns c = some k) (hk : k.worker = w) :
    RepliesTo Q call.request resp ∧ Answers call.request resp := by
  obtain ⟨hreply, hanswers⟩ :=
    reply_of_ended hP hs (fun s a h => ends_of_runs (hC s a h)) hi hphase hc hk
  refine ⟨?_, hanswers⟩
  rcases hreply with ⟨message, -, rfl⟩ | ⟨r, hr, rfl⟩
  · exact .inl ⟨_, _, rfl⟩
  cases r with
  | error e => exact .inl ⟨_, _, rfl⟩
  | ok m => exact .inr ⟨m, hr m rfl, rfl⟩

end OxEmbed.Ipc

import Mathlib.Algebra.BigOperators.Ring.List
import Mathlib.Algebra.Order.BigOperators.Group.List
import Mathlib.Data.List.NodupEquivFin
import Mathlib.Data.PNat.Basic
import Mathlib.Order.WellFounded
import OxEmbed.Supervisor.Pool

/-!
# Dispatches against a worker that responds

The deadline of a dispatch covers the search for a client only, so whether a dispatch ends in time
is up to the worker and to the calls ahead of it in the semaphore of the client. Here a worker has
a response time: a call that holds a permit of its client gives it back within the response time. A
call that finds `ahead` calls at a client with `conns` permits gets a permit after at most
`ahead / conns` response times, and its response after one more. So no dispatch outlives the timeout
when, at the moment at which it gets its client, these response times fit into what the search has
left of its bound.

The permits are counted by the turns that they still have before a point in time: a permit that a
call has held since `t` comes back at `t + r` at the latest, and has `(due - t) / r` further turns
by `due`; a free permit has one turn more. A call that waits behind `j` others finds more than `j`
turns.

## Main definitions

* `State.conns`, `State.ahead` : the permits of a client, and the calls that use or await them.
* `Responsive` : the condition on the workers and on the callers.
* `State.turns` : the turns that the permits of a client still have.
* `Timely` : the invariant.

## Main results

* `timely_of_reachable` : the invariant holds in every run that meets the condition.
* `dispatchBounded_of_responsive` : in such a run no dispatch outlives the dispatch timeout.
-/

namespace OxEmbed.Pool

variable {F : Type} {cfg : PoolConfig} {s s' : State F} {i client : ℕ} {call call' : Call F}
  {held : ℕ → ℕ} {free : ℕ}

/-! ### The permits of a client -/

namespace State

/-- A sum over the permits of a client: those that calls hold, by the times since when, and the
free ones. -/
def permitSum (s : State F) (client : ℕ) (held : ℕ → ℕ) (free : ℕ) : ℕ :=
  (s.calls.map fun call => if call.phase.permit = some client then held call.since else 0).sum +
    s.permits client * free

/-- The permits of a client that calls hold. -/
def holders (s : State F) (client : ℕ) : ℕ := s.permitSum client (fun _ => 1) 0

/-- All permits of a client. -/
def conns (s : State F) (client : ℕ) : ℕ := s.permitSum client (fun _ => 1) 1

/-- The calls that hold a permit of a client or wait for one. -/
def ahead (s : State F) (client : ℕ) : ℕ := (s.queue client).length + s.holders client

/-- The turns that the permits of a client still have by the time `due`, when each is given back
within `r`. -/
def turns (s : State F) (client r due : ℕ) : ℕ :=
  s.permitSum client (fun since => (due - since) / r) ((due - s.clock) / r + 1)

end State

/-- The client whose semaphore the call joins with its next step. -/
def State.joins (s : State F) (call : Call F) : Option ℕ :=
  match call.phase with
  | .polling sup _ => s.client sup
  | _ => none

/-- Every worker responds within its response time, and a call joins a semaphore only while the
calls ahead of it and its own exchange fit into its bound. -/
def Responsive (cfg : PoolConfig) (respond : ℕ → ℕ+) (s : State F) : Action F → Prop
  | .tick d => ∀ call ∈ s.calls, ∀ client ∈ call.phase.permit,
      s.clock + d ≤ call.since + respond client
  | .advance i => ∀ call ∈ s.calls[i]?, ∀ client ∈ s.joins call,
      s.clock + (s.ahead client / s.conns client + 1) * respond client ≤ call.bound cfg
  | _ => True

instance (cfg : PoolConfig) (respond : ℕ → ℕ+) (s : State F) :
    ∀ a, Decidable (Responsive cfg respond s a)
  | .tick _ => inferInstanceAs (Decidable (∀ call ∈ s.calls, ∀ client ∈ call.phase.permit, _))
  | .advance i =>
    inferInstanceAs (Decidable (∀ call ∈ s.calls[i]?, ∀ client ∈ s.joins call, _))
  | .add .. | .setClient .. | .begin _ | .probe .. | .ipc .. | .drop _ => .isTrue trivial

/-! ### What a step does to the permits -/

theorem sum_map_set {α : Type} (f : α → ℕ) {l : List α} {i : ℕ} {x : α} (hi : l[i]? = some x)
    (y : α) : ((l.set i y).map f).sum + f x = (l.map f).sum + f y := by
  induction l generalizing i with
  | nil => cases hi
  | cons z l ih =>
    cases i with
    | zero =>
      obtain rfl := Option.some.inj hi
      simp only [List.set_cons_zero, List.map_cons, List.sum_cons]
      omega
    | succ i =>
      have hrest := ih hi
      simp only [List.set_cons_succ, List.map_cons, List.sum_cons]
      omega

theorem getElem?_concat_cases {α : Type} {l : List α} {k : ℕ} {x y : α}
    (h : (l ++ [x])[k]? = some y) : l[k]? = some y ∨ k = l.length ∧ y = x := by
  rw [List.getElem?_append] at h
  split at h
  · exact .inl h
  · rw [List.getElem?_singleton] at h
    split at h
    · exact .inr ⟨by omega, (Option.some.inj h).symm⟩
    · cases h

/-- A call that waits and holds no permit does not count. -/
theorem permitSum_append (hcalls : s'.calls = s.calls ++ [call])
    (hpermit : call.phase.permit = none) (hpermits : s'.permits = s.permits) :
    s'.permitSum client held free = s.permitSum client held free := by
  simp [State.permitSum, hcalls, hpermit, hpermits]

theorem permitSum_set (client : ℕ) (held : ℕ → ℕ) (free : ℕ) (hi : s.calls[i]? = some call)
    (hcalls : s'.calls = s.calls.set i call') :
    s'.permitSum client held free + s.permits client * free +
        (if call.phase.permit = some client then held call.since else 0) =
      s.permitSum client held free + s'.permits client * free +
        if call'.phase.permit = some client then held call'.since else 0 := by
  have hsum := sum_map_set
    (fun call : Call F => if call.phase.permit = some client then held call.since else 0) hi call'
  rw [State.permitSum, State.permitSum, hcalls]
  omega

theorem permit_of_ended {p : Phase F} (h : p.Pending = false) :
    p.waits = none ∧ p.permit = none := by
  cases p <;> first | exact ⟨rfl, rfl⟩ | cases h

/-- What a step of call `i` from `call` to `call'` does to the permits and to the queue of one
client. -/
inductive ClientStep (s : State F) (a : Action F) (i : ℕ) (call call' : Call F) (s' : State F)
    (client : ℕ) : Prop
  | apart (hwaits : call.phase.waits ≠ some client) (hwaits' : call'.phase.waits ≠ some client)
      (hsum : ∀ held free, s'.permitSum client held free = s.permitSum client held free)
      (hqueue : s'.queue client = s.queue client)
  | join (hwaits : call.phase.waits ≠ some client) (ha : a = .advance i)
      (hjoins : s.joins call = some client)
      (hsum : ∀ held free, s'.permitSum client held free = s.permitSum client held free)
      (hqueue : s'.queue client = s.queue client ++ [i])
      (hwaits' : call'.phase.waits = some client)
  | leave (hwaits' : call'.phase.waits ≠ some client)
      (hsum : ∀ held free, s'.permitSum client held free = s.permitSum client held free)
      (hqueue : s'.queue client = (s.queue client).filter (· ≠ i))
  | acquire {rest : List ℕ} (hwaits' : call'.phase.waits ≠ some client)
      (hsum : ∀ held free, s'.permitSum client held free + free =
        s.permitSum client held free + held s.clock)
      (hhead : s.queue client = i :: rest)
      (hqueue : s'.queue client = (s.queue client).filter (· ≠ i))
  | giveBack (hwaits : call.phase.waits ≠ some client) (hwaits' : call'.phase.waits ≠ some client)
      (hpermit : call.phase.permit = some client)
      (hsum : ∀ held free, s'.permitSum client held free + held call.since =
        s.permitSum client held free + free)
      (hqueue : s'.queue client = s.queue client)

/-- A step leaves the semaphores of the other clients alone. -/
theorem SemaphoreStep.clientStep {a : Action F} (h : SemaphoreStep s a i call call' s')
    (hi : s.calls[i]? = some call) (hcalls : s'.calls = s.calls.set i call') (client : ℕ) :
    ClientStep s a i call call' s' client := by
  have hset (held : ℕ → ℕ) (free : ℕ) := permitSum_set client held free hi hcalls
  -- a client at which nothing changes
  have hsame (hpermits : s'.permits client = s.permits client)
      (hbefore : call.phase.permit ≠ some client) (hafter : call'.phase.permit ≠ some client)
      (held : ℕ → ℕ) (free : ℕ) :
      s'.permitSum client held free = s.permitSum client held free := by
    have := hset held free
    rw [hpermits, if_neg hbefore, if_neg hafter] at this
    omega
  cases h with
  | apart hwaits hwaits' hpermit hsince hpermits hqueue =>
    refine .apart (by simp [hwaits]) (by simp [hwaits']) (fun held free => ?_) (by rw [hqueue])
    have := hset held free
    rw [hpermit, hsince, hpermits] at this
    omega
  | @join sup deadline client' ha hp hclient hwaits' hpermits hqueue =>
    have hsum := hsame (by rw [hpermits]) (by rw [hp]; simp [Phase.permit])
      (by simp [Phase.permit_of_waits hwaits'])
    by_cases hc : client = client'
    · subst hc
      refine .join (by rw [hp]; simp [Phase.waits]) ha ?_ hsum ?_ hwaits'
      · rw [State.joins, hp]
        exact hclient
      · rw [hqueue, Function.update_self]
    · refine .apart (by rw [hp]; simp [Phase.waits]) (by simp [hwaits', Ne.symm hc]) hsum ?_
      rw [hqueue, Function.update_of_ne hc]
  | @leave client' hwaits hended hpermits hqueue =>
    have hsum := hsame (by rw [hpermits]) (by simp [Phase.permit_of_waits hwaits])
      (by simp [(permit_of_ended hended).2])
    have hwaits' : call'.phase.waits ≠ some client := by simp [(permit_of_ended hended).1]
    by_cases hc : client = client'
    · subst hc
      exact .leave hwaits' hsum (by rw [hqueue, Function.update_self])
    · refine .apart (by simp [hwaits, Ne.symm hc]) hwaits' hsum ?_
      rw [hqueue, Function.update_of_ne hc]
  | @acquire client' n rest hwaits hfree hhead hpermit' hsince hpermits hqueue =>
    have hwaits' : call'.phase.waits ≠ some client := by simp [Phase.waits_of_permit hpermit']
    by_cases hc : client = client'
    · subst hc
      refine .acquire hwaits' (fun held free => ?_) hhead (by rw [hqueue, Function.update_self])
      have := hset held free
      rw [Phase.permit_of_waits hwaits, hpermit', hsince, hpermits, Function.update_self, hfree,
        if_neg (by simp), if_pos rfl, Nat.add_mul] at this
      omega
    · refine .apart (by simp [hwaits, Ne.symm hc]) hwaits' ?_
        (by rw [hqueue, Function.update_of_ne hc])
      exact hsame (by rw [hpermits, Function.update_of_ne hc])
        (by simp [Phase.permit_of_waits hwaits]) (by simp [hpermit', Ne.symm hc])
  | @giveBack client' hpermit hended hpermits hqueue =>
    have hwaits : call.phase.waits ≠ some client := by simp [Phase.waits_of_permit hpermit]
    have hwaits' : call'.phase.waits ≠ some client := by simp [(permit_of_ended hended).1]
    by_cases hc : client = client'
    · subst hc
      refine .giveBack hwaits hwaits' hpermit (fun held free => ?_) (by rw [hqueue])
      have := hset held free
      rw [hpermit, (permit_of_ended hended).2, hpermits, Function.update_self, if_pos rfl,
        if_neg (by simp), Nat.add_mul] at this
      omega
    · refine .apart hwaits hwaits' ?_ (by rw [hqueue])
      exact hsame (by rw [hpermits, Function.update_of_ne hc]) (by simp [hpermit, Ne.symm hc])
        (by simp [(permit_of_ended hended).2])

/-! ### Turns -/

/-- The sum over the permits is at least that of the smallest summands. -/
theorem le_permitSum {q : ℕ} (hheld : ∀ call ∈ s.calls, call.phase.permit = some client →
    q ≤ held call.since) (hfree : q + 1 ≤ free) :
    q * s.conns client + s.permits client ≤ s.permitSum client held free := by
  have hsum : (s.calls.map fun call => if call.phase.permit = some client then q else 0).sum ≤
      (s.calls.map fun call =>
        if call.phase.permit = some client then held call.since else 0).sum := by
    refine List.sum_le_sum fun call hcall => ?_
    split
    · exact hheld call hcall ‹_›
    · exact Nat.le_refl 0
  have hmul : (s.calls.map fun call => if call.phase.permit = some client then q else 0).sum =
      q * (s.calls.map fun call => if call.phase.permit = some client then 1 else 0).sum := by
    rw [← List.sum_map_mul_left]
    simp
  have hpermits : s.permits client * (q + 1) ≤ s.permits client * free :=
    Nat.mul_le_mul_left _ hfree
  rw [State.conns, State.permitSum, State.permitSum, Nat.mul_add, ← hmul, Nat.mul_one]
  rw [Nat.mul_add, Nat.mul_one, Nat.mul_comm] at hpermits
  omega

/-- A permit that comes back has its turns left. -/
theorem turns_giveBack {r since clock : ℕ} (due : ℕ) (hr : 0 < r) (h : clock ≤ since + r) :
    (due - since) / r ≤ (due - clock) / r + 1 := by
  rw [← Nat.add_div_right _ hr]
  exact Nat.div_le_div_right (by omega)

/-- The call that joins the semaphore has a turn by the time `due`, when the turns of the calls
ahead of it end by then. -/
theorem lt_turns_of_join {r due : ℕ} (hr : 0 < r) (hconns : 0 < s.conns client)
    (hsince : ∀ call ∈ s.calls, call.phase.permit = some client → call.since ≤ s.clock)
    (hdue : s.clock + s.ahead client / s.conns client * r ≤ due) :
    (s.queue client).length < s.turns client r due := by
  have hq : s.ahead client / s.conns client ≤ (due - s.clock) / r :=
    (Nat.le_div_iff_mul_le hr).2 (by omega)
  have hle : s.ahead client / s.conns client * s.conns client + s.permits client ≤
      s.turns client r due :=
    le_permitSum (fun call hcall hpermit => hq.trans (Nat.div_le_div_right (Nat.sub_le_sub_left
      (hsince call hcall hpermit) due))) (Nat.succ_le_succ hq)
  have hlt := Nat.lt_div_mul_add (a := s.ahead client) hconns
  have hcount : s.conns client = s.holders client + s.permits client := by
    rw [State.conns, State.holders, State.permitSum, State.permitSum]
    omega
  rw [State.ahead] at hlt hle
  omega

/-! ### The invariant -/

/-- The state between the steps of a run that meets the condition. -/
structure Timely (cfg : PoolConfig) (respond : ℕ → ℕ+) (s : State F) : Prop where
  conns : ∀ client, 0 < s.conns client
  /-- A call gives its permit back within the response time, and has time for this. -/
  holding : ∀ call ∈ s.calls, ∀ client, call.phase.permit = some client →
    call.since ≤ s.clock ∧ s.clock ≤ call.since + respond client ∧
      (call.probe = false → call.since + respond client ≤ call.bound cfg)
  /-- The calls that wait for a permit are in the queue of its client, -/
  waiting : ∀ i call, s.calls[i]? = some call → ∀ client, call.phase.waits = some client →
    i ∈ s.queue client
  /-- and no others are. -/
  queued : ∀ client, ∀ i ∈ s.queue client, ∃ call, s.calls[i]? = some call ∧
    call.phase.waits = some client
  /-- A call that waits gets its turn in time. -/
  turn : ∀ client j i, (s.queue client)[j]? = some i → ∀ call, s.calls[i]? = some call →
    call.probe = false → s.clock + respond client ≤ call.bound cfg ∧
      j < s.turns client (respond client) (call.bound cfg - respond client)

variable {respond : ℕ → ℕ+} {a : Action F}

/-- The permits and the queues are those before the step. -/
theorem Timely.congr (h : Timely cfg respond s) (hclock : s'.clock = s.clock)
    (hcalls : s'.calls = s.calls) (hpermits : s'.permits = s.permits)
    (hqueue : s'.queue = s.queue) : Timely cfg respond s' := by
  have hsum (client : ℕ) (held : ℕ → ℕ) (free : ℕ) :
      s'.permitSum client held free = s.permitSum client held free := by
    rw [State.permitSum, State.permitSum, hcalls, hpermits]
  refine ⟨fun client => ?_, ?_, ?_, ?_, fun client j k hk c hc hprobe => ?_⟩
  · rw [State.conns, hsum]
    exact h.conns client
  · rw [hcalls, hclock]
    exact h.holding
  · rw [hcalls, hqueue]
    exact h.waiting
  · rw [hcalls, hqueue]
    exact h.queued
  · rw [hqueue] at hk
    rw [hcalls] at hc
    rw [State.turns, hsum, hclock]
    exact h.turn client j k hk c hc hprobe

/-- While time passes, no permit is free for a call that waits, and a permit comes back in time for
the first of them. -/
theorem Timely.tick {d : ℕ} (h : Timely cfg respond s)
    (hwait : ∀ call ∈ s.calls, call.phase.MayWait s.permits (s.clock + d) = true)
    (hC : Responsive cfg respond s (.tick d)) :
    Timely cfg respond { s with clock := s.clock + d } where
  conns := h.conns
  holding call hcall client hpermit := by
    obtain ⟨hle, -, hbound⟩ := h.holding call hcall client hpermit
    exact ⟨hle.trans (Nat.le_add_right _ _), hC call hcall client hpermit, hbound⟩
  waiting := h.waiting
  queued := h.queued
  turn client j i hi call hcall hprobe := by
    obtain ⟨hclock, hlt⟩ := h.turn client j i hi call hcall hprobe
    have hfree : s.permits client = 0 := by
      obtain ⟨call', hcall', hwaits⟩ := h.queued client i (List.mem_of_getElem? hi)
      have hmay := hwait call' (List.mem_of_getElem? hcall')
      cases hp : call'.phase with
      | acquiring sup client' =>
        rw [hp] at hwaits hmay
        obtain rfl := Option.some.inj hwaits
        exact of_decide_eq_true hmay
      | _ => simp [hp, Phase.waits] at hwaits
    rw [State.turns, State.permitSum, hfree, Nat.zero_mul, Nat.add_zero] at hlt
    obtain ⟨holder, hholder, hne⟩ : ∃ holder ∈ s.calls, (if holder.phase.permit = some client then
        (call.bound cfg - respond client - holder.since) / respond client else 0) ≠ 0 := by
      by_contra hall
      push Not at hall
      rw [List.sum_eq_zero (by simpa using hall)] at hlt
      omega
    have hpermit : holder.phase.permit = some client := by
      by_contra hnone
      exact hne (if_neg hnone)
    rw [if_pos hpermit] at hne
    have hturn := (Nat.le_div_iff_mul_le (respond client).pos).1 (Nat.one_le_iff_ne_zero.2 hne)
    have hback := hC holder hholder client hpermit
    have hpos := (respond client).pos
    refine ⟨by simp only; omega, ?_⟩
    rw [State.turns, State.permitSum]
    simp only [hfree, Nat.zero_mul, Nat.add_zero]
    exact hlt

theorem Timely.append (h : Timely cfg respond s) (hclock : s'.clock = s.clock)
    (hcalls : s'.calls = s.calls ++ [call]) (hpermits : s'.permits = s.permits)
    (hpermit : call.phase.permit = none)
    (hqueue : ∀ client, s'.queue client = s.queue client ∧ call.phase.waits ≠ some client ∨
      s'.queue client = s.queue client ++ [s.calls.length] ∧ call.phase.waits = some client ∧
        call.probe = true) : Timely cfg respond s' := by
  have hsum (client : ℕ) (held : ℕ → ℕ) (free : ℕ) :
      s'.permitSum client held free = s.permitSum client held free :=
    permitSum_append hcalls hpermit hpermits
  have hnew : s'.calls[s.calls.length]? = some call := by simp [hcalls]
  have hold {k : ℕ} {c : Call F} (hc : s.calls[k]? = some c) : s'.calls[k]? = some c := by
    rw [hcalls, List.getElem?_append_left (List.getElem?_eq_some_iff.1 hc).1, hc]
  refine ⟨fun client => ?_, fun c hc client hp => ?_, fun k c hc client hw => ?_,
    fun client k hk => ?_, fun client j k hk c hc hprobe => ?_⟩
  · rw [State.conns, hsum]
    exact h.conns client
  · rw [hclock]
    rcases List.mem_append.1 (hcalls ▸ hc) with hc | hc
    · exact h.holding c hc client hp
    · rw [List.mem_singleton.1 hc, hpermit] at hp
      cases hp
  · rw [hcalls] at hc
    rcases getElem?_concat_cases hc with hc | ⟨rfl, rfl⟩
    · have hk := h.waiting k c hc client hw
      rcases hqueue client with ⟨hq, -⟩ | ⟨hq, -⟩ <;> rw [hq]
      · exact hk
      · exact List.mem_append_left _ hk
    · rcases hqueue client with ⟨-, hw'⟩ | ⟨hq, -⟩
      · exact absurd hw hw'
      · rw [hq]
        exact List.mem_append_right _ (List.mem_singleton_self _)
  · rcases hqueue client with ⟨hq, -⟩ | ⟨hq, hw, -⟩
    · obtain ⟨c, hc, hcw⟩ := h.queued client k (hq ▸ hk)
      exact ⟨c, hold hc, hcw⟩
    · rw [hq, List.mem_append, List.mem_singleton] at hk
      rcases hk with hk | rfl
      · obtain ⟨c, hc, hcw⟩ := h.queued client k hk
        exact ⟨c, hold hc, hcw⟩
      · exact ⟨call, hnew, hw⟩
  · have hturn (hk : (s.queue client)[j]? = some k) :
        s'.clock + respond client ≤ c.bound cfg ∧
          j < s'.turns client (respond client) (c.bound cfg - respond client) := by
      obtain ⟨c', hc', -⟩ := h.queued client k (List.mem_of_getElem? hk)
      obtain rfl := Option.some.inj (hc.symm.trans (hold hc'))
      rw [State.turns, hsum, hclock]
      exact h.turn client j k hk c hc' hprobe
    rcases hqueue client with ⟨hq, -⟩ | ⟨hq, -, hcall⟩
    · exact hturn (hq ▸ hk)
    · rw [hq] at hk
      rcases getElem?_concat_cases hk with hk | ⟨-, rfl⟩
      · exact hturn hk
      · obtain rfl := Option.some.inj (hc.symm.trans hnew)
        rw [hcall] at hprobe
        cases hprobe

/-- A list without some elements has the others no later. -/
theorem getElem?_filter_le {α : Type} {p : α → Bool} {l : List α} {j : ℕ} {x : α}
    (h : (l.filter p)[j]? = some x) : ∃ k, j ≤ k ∧ l[k]? = some x := by
  obtain ⟨f, hf⟩ :=
    List.sublist_iff_exists_orderEmbedding_getElem?_eq.1 (List.filter_sublist (p := p) (l := l))
  exact ⟨f j, StrictMono.le_apply f.strictMono, (hf j).symm.trans h⟩

/-- Where a call that waits after the step of call `i` was before it. -/
theorem ClientStep.queue (h : ClientStep s a i call call' s' client)
    (hi : call.phase.waits ≠ some client → i ∉ s.queue client) {j k : ℕ}
    (hk : (s'.queue client)[j]? = some k) :
    k ≠ i ∧ (∃ m, j ≤ m ∧ (s.queue client)[m]? = some k) ∨
      k = i ∧ call'.phase.waits = some client := by
  cases h with
  | apart hwaits _ _ hqueue | giveBack hwaits _ _ _ hqueue =>
    rw [hqueue] at hk
    exact .inl ⟨fun heq => hi hwaits (heq ▸ List.mem_of_getElem? hk), j, Nat.le_refl j, hk⟩
  | join hwaits _ _ _ hqueue hwaits' =>
    rw [hqueue] at hk
    rcases getElem?_concat_cases hk with hk | ⟨-, rfl⟩
    · exact .inl ⟨fun heq => hi hwaits (heq ▸ List.mem_of_getElem? hk), j, Nat.le_refl j, hk⟩
    · exact .inr ⟨rfl, hwaits'⟩
  | leave _ _ hqueue | acquire _ _ _ hqueue =>
    rw [hqueue] at hk
    exact .inl ⟨by simpa using (List.mem_filter.1 (List.mem_of_getElem? hk)).2,
      getElem?_filter_le hk⟩

/-- Call `i` goes from `call` to `call'`. -/
structure Moved (s : State F) (a : Action F) (i : ℕ) (call call' : Call F) (s' : State F) :
    Prop where
  atIndex : s.calls[i]? = some call
  start : call'.start = call.start
  probe : call'.probe = call.probe
  clock : s'.clock = s.clock
  calls : s'.calls = s.calls.set i call'
  semaphore : SemaphoreStep s a i call call' s'

namespace Moved

theorem clientStep (hm : Moved s a i call call' s') (client : ℕ) :
    ClientStep s a i call call' s' client :=
  hm.semaphore.clientStep hm.atIndex hm.calls client

theorem self (hm : Moved s a i call call' s') : s'.calls[i]? = some call' := by
  rw [hm.calls, List.getElem?_set_self (List.getElem?_eq_some_iff.1 hm.atIndex).1]

theorem other (hm : Moved s a i call call' s') {k : ℕ} (hk : k ≠ i) :
    s'.calls[k]? = s.calls[k]? := by
  rw [hm.calls, List.getElem?_set_ne (Ne.symm hk)]

theorem bound_eq (hm : Moved s a i call call' s') : call'.bound cfg = call.bound cfg := by
  rw [Call.bound, hm.start, Call.bound]

end Moved

namespace Timely

theorem notMem_queue (h : Timely cfg respond s) (hi : s.calls[i]? = some call)
    (hw : call.phase.waits ≠ some client) : i ∉ s.queue client := by
  intro hmem
  obtain ⟨c, hc, hcw⟩ := h.queued client i hmem
  exact hw (Option.some.inj (hi.symm.trans hc) ▸ hcw)

/-- No step takes a permit away. -/
theorem conns_moved (h : Timely cfg respond s) (hm : Moved s a i call call' s') (client : ℕ) :
    0 < s'.conns client := by
  have hpos := h.conns client
  rw [State.conns] at hpos ⊢
  cases hm.clientStep client with
  | apart _ _ hsum | join _ _ _ hsum | leave _ hsum => exact (hsum _ _).symm ▸ hpos
  | acquire _ hsum => have := hsum (fun _ => 1) 1; omega
  | giveBack _ _ _ hsum => have := hsum (fun _ => 1) 1; omega

/-- A call that acquires a permit was the first in the queue, and has its turn now. -/
theorem holding_moved (h : Timely cfg respond s) (hm : Moved s a i call call' s')
    (hp : call'.phase.permit = some client) :
    call'.since ≤ s.clock ∧ s.clock ≤ call'.since + respond client ∧
      (call'.probe = false → call'.since + respond client ≤ call'.bound cfg) := by
  rw [hm.probe, hm.bound_eq]
  cases hm.semaphore with
  | apart _ _ hpermit hsince =>
    rw [hsince]
    exact h.holding call (List.mem_of_getElem? hm.atIndex) client (hpermit ▸ hp)
  | acquire _ _ hhead hpermit' hsince =>
    obtain rfl := Option.some.inj (hp.symm.trans hpermit')
    rw [hsince]
    refine ⟨Nat.le_refl _, Nat.le_add_right _ _, fun hcp => ?_⟩
    exact (h.turn client 0 i (by rw [hhead]; rfl) call hm.atIndex hcp).1
  | join _ _ _ hwaits' =>
    rw [Phase.permit_of_waits hwaits'] at hp
    cases hp
  | leave _ hended | giveBack _ hended =>
    rw [(permit_of_ended hended).2] at hp
    cases hp

theorem waiting_moved (h : Timely cfg respond s) (hm : Moved s a i call call' s') {k : ℕ}
    {c : Call F} (hc : s'.calls[k]? = some c) (hw : c.phase.waits = some client) :
    k ∈ s'.queue client := by
  by_cases hki : k = i
  · subst hki
    obtain rfl := Option.some.inj (hc.symm.trans hm.self)
    cases hm.clientStep client with
    | join _ _ _ _ hqueue =>
      rw [hqueue]
      exact List.mem_append_right _ (List.mem_singleton_self _)
    | apart _ hw' | leave hw' | acquire hw' | giveBack _ hw' => exact absurd hw hw'
  · have hk := h.waiting k c ((hm.other hki).symm.trans hc) client hw
    cases hm.clientStep client with
    | apart _ _ _ hqueue | giveBack _ _ _ _ hqueue => rwa [hqueue]
    | join _ _ _ _ hqueue =>
      rw [hqueue]
      exact List.mem_append_left _ hk
    | leave _ _ hqueue | acquire _ _ _ hqueue =>
      rw [hqueue]
      exact List.mem_filter.2 ⟨hk, by simpa using hki⟩

theorem queued_moved (h : Timely cfg respond s) (hm : Moved s a i call call' s') {k : ℕ}
    (hk : k ∈ s'.queue client) :
    ∃ c, s'.calls[k]? = some c ∧ c.phase.waits = some client := by
  obtain ⟨j, hj⟩ := List.mem_iff_getElem?.1 hk
  have hbefore := (hm.clientStep client).queue (h.notMem_queue hm.atIndex) hj
  rcases hbefore with ⟨hki, m, -, hq⟩ | ⟨rfl, hw⟩
  · obtain ⟨c, hc, hcw⟩ := h.queued client k (List.mem_of_getElem? hq)
    exact ⟨c, (hm.other hki).trans hc, hcw⟩
  · exact ⟨call', hm.self, hw⟩

/-- The turns of the permits before a call that waits stay enough: a call that leaves makes room, a
call that acquires a permit uses a turn and moves the calls behind it up, and a permit that comes
back in time has its turns left. -/
theorem turn_moved (h : Timely cfg respond s) (hC : Responsive cfg respond s a)
    (hm : Moved s a i call call' s') {j k : ℕ} (hk : (s'.queue client)[j]? = some k) {c : Call F}
    (hc : s'.calls[k]? = some c) (hcp : c.probe = false) :
    s'.clock + respond client ≤ c.bound cfg ∧
      j < s'.turns client (respond client) (c.bound cfg - respond client) := by
  have hkept (hki : k ≠ i) {l : ℕ} (hl : (s.queue client)[l]? = some k) :=
    h.turn client l k hl c ((hm.other hki).symm.trans hc) hcp
  have hnot (hw : call.phase.waits ≠ some client) (hq : k ∈ s.queue client) : k ≠ i :=
    fun heq => h.notMem_queue hm.atIndex hw (heq ▸ hq)
  rw [hm.clock]
  cases hm.clientStep client with
  | apart hw _ hsum hqueue =>
    rw [State.turns, hsum, hm.clock]
    rw [hqueue] at hk
    exact hkept (hnot hw (List.mem_of_getElem? hk)) hk
  | join hw ha hjoins hsum hqueue =>
    rw [State.turns, hsum, hm.clock]
    rw [hqueue] at hk
    rcases getElem?_concat_cases hk with hk | ⟨rfl, rfl⟩
    · exact hkept (hnot hw (List.mem_of_getElem? hk)) hk
    · obtain rfl := Option.some.inj (hc.symm.trans hm.self)
      subst ha
      have hfits := hC call hm.atIndex client hjoins
      rw [Nat.add_mul, Nat.one_mul] at hfits
      rw [hm.bound_eq]
      refine ⟨by omega, lt_turns_of_join (respond client).pos (h.conns client) ?_ (by omega)⟩
      exact fun holder hholder hpermit => (h.holding holder hholder client hpermit).1
  | leave _ hsum hqueue =>
    rw [State.turns, hsum, hm.clock]
    rw [hqueue] at hk
    have hki : k ≠ i := by simpa using (List.mem_filter.1 (List.mem_of_getElem? hk)).2
    obtain ⟨l, hle, hl⟩ := getElem?_filter_le hk
    obtain ⟨hdue, hlt⟩ := hkept hki hl
    exact ⟨hdue, hle.trans_lt hlt⟩
  | acquire _ hsum hhead hqueue =>
    rw [hqueue, hhead, List.filter_cons_of_neg (by simp)] at hk
    have hki : k ≠ i := by simpa using (List.mem_filter.1 (List.mem_of_getElem? hk)).2
    obtain ⟨l, hle, hl⟩ := getElem?_filter_le hk
    have hbehind : (s.queue client)[l + 1]? = some k := by rw [hhead]; exact hl
    obtain ⟨hdue, hlt⟩ := hkept hki hbehind
    refine ⟨hdue, ?_⟩
    have hturns := hsum (fun since => (c.bound cfg - respond client - since) / respond client)
      ((c.bound cfg - respond client - s.clock) / respond client + 1)
    rw [State.turns] at hlt ⊢
    rw [hm.clock]
    omega
  | giveBack hw _ hpermit hsum hqueue =>
    rw [hqueue] at hk
    obtain ⟨hdue, hlt⟩ := hkept (hnot hw (List.mem_of_getElem? hk)) hk
    refine ⟨hdue, ?_⟩
    have hback := (h.holding call (List.mem_of_getElem? hm.atIndex) client hpermit).2.1
    have hle := turns_giveBack (c.bound cfg - respond client) (respond client).pos hback
    have hturns := hsum (fun since => (c.bound cfg - respond client - since) / respond client)
      ((c.bound cfg - respond client - s.clock) / respond client + 1)
    rw [State.turns] at hlt ⊢
    rw [hm.clock]
    omega

/-- **Step lemma.** A step of a call keeps the invariant. -/
theorem move (h : Timely cfg respond s) (hC : Responsive cfg respond s a)
    (hm : Moved s a i call call' s') : Timely cfg respond s' where
  conns := h.conns_moved hm
  holding c hc client hp := by
    rw [hm.clock]
    rcases List.mem_or_eq_of_mem_set (hm.calls ▸ hc) with hc | rfl
    · exact h.holding c hc client hp
    · exact h.holding_moved hm hp
  waiting _ _ hc _ hw := h.waiting_moved hm hc hw
  queued _ _ hk := h.queued_moved hm hk
  turn _ _ _ hk _ hc hcp := h.turn_moved hC hm hk hc hcp

end Timely

/-! ### Runs -/

/-- **Run lemma.** The invariant holds in every run whose steps meet the condition. -/
theorem timely_of_reachable (hs : (machine cfg).Reachable (Responsive cfg respond) s) :
    Timely cfg respond s := by
  refine hs.invariant ?_ fun s a s' h hC hstep => ?_
  · rintro s ⟨hcalls, hclients⟩
    refine ⟨fun client => ?_, fun call hcall => ?_, fun i call hcall => ?_, fun client i hi => ?_,
      fun client j i hi => ?_⟩
    · have hpos := (hclients client).2
      simp only [State.conns, State.permitSum, hcalls, List.map_nil, List.sum_nil]
      omega
    · rw [hcalls] at hcall
      cases hcall
    · rw [hcalls] at hcall
      cases hcall
    · rw [(hclients client).1] at hi
      cases hi
    · rw [(hclients client).1] at hi
      cases hi
  · cases trans_of_step hstep with
    | tick _ hwait => exact h.tick hwait hC
    | environment hclock hcalls hpermits hqueue => exact h.congr hclock hcalls hpermits hqueue
    | begin => exact h.append rfl rfl rfl rfl fun client => .inl ⟨rfl, by simp [Phase.waits]⟩
    | @probe model sup client hclient =>
      refine h.append rfl rfl rfl rfl fun client' => ?_
      by_cases hc : client' = client
      · subst hc
        exact .inr ⟨Function.update_self .., rfl, rfl⟩
      · exact .inl ⟨Function.update_of_ne hc .., by simpa [Phase.waits] using Ne.symm hc⟩
    | move hi _ hstart hprobe hclock hcalls hsem =>
      exact h.move hC ⟨hi, hstart, hprobe, hclock, hcalls, hsem⟩

/-- **No dispatch outlives the dispatch timeout when the workers respond and the calls ahead of it
leave it the time.** -/
theorem dispatchBounded_of_responsive (cfg : PoolConfig) (respond : ℕ → ℕ+) (s : State F)
    (hs : (machine cfg).Reachable (Responsive cfg respond) s) : DispatchBounded cfg s := by
  have h := timely_of_reachable hs
  intro call hcall hprobe hp
  obtain ⟨i, hi⟩ := List.mem_iff_getElem?.1 hcall
  have hwaiting (client : ℕ) (hw : call.phase.waits = some client) :
      s.clock ≤ call.bound cfg := by
    obtain ⟨j, hj⟩ := List.mem_iff_getElem?.1 (h.waiting i call hi client hw)
    exact (Nat.le_add_right _ _).trans (h.turn client j i hj call hi hprobe).1
  have hholding (client : ℕ) (hpermit : call.phase.permit = some client) :
      s.clock ≤ call.bound cfg := by
    obtain ⟨-, hback, hbound⟩ := h.holding call hcall client hpermit
    exact hback.trans (hbound hprobe)
  cases hphase : call.phase with
  | lookup | polling | sleeping =>
    exact getClient_bounded hs hcall hp (by rw [hphase]; rfl)
  | acquiring sup client => exact hwaiting client (by rw [hphase]; rfl)
  | connecting sup client | writing sup client | reading sup client =>
    exact hholding client (by rw [hphase]; rfl)
  | returned | dropped => simp [hphase, Phase.Pending] at hp

/-- A dispatch, a probe of the heartbeat and a second dispatch meet at a client with one permit;
each exchange takes ten seconds. The second dispatch is still within its bound when it reads its
response. -/
theorem dispatchBounded_threeTurns :
    ∃ s : State ℕ, (machine defaultConfig).Reachable (Responsive defaultConfig fun _ => 10000) s ∧
      s.clock = 30000 ∧ s.calls.map Call.phase =
        [.returned (.ok (.err 0 "")), .returned (.ok (.err 1 "")), .reading 0 0] ∧
      DispatchBounded defaultConfig s := by
  obtain ⟨s, hs, hclock, hphase⟩ :
      ∃ s ∈ (machine (F := ℕ) defaultConfig).runUnder (Responsive defaultConfig fun _ => 10000)
        idle [.add "e5" 0, .setClient 0 (some 0), .begin "e5", .advance 0, .advance 0,
          .ipc 0 .acquire, .ipc 0 (.connected (.ok ())), .ipc 0 (.wrote (.ok ())),
          .probe "e5" 0, .begin "e5", .advance 2, .advance 2, .tick 10000,
          .ipc 0 (.answered (.ok (.err 0 ""))), .ipc 1 .acquire, .ipc 1 (.connected (.ok ())),
          .ipc 1 (.wrote (.ok ())), .tick 10000, .ipc 1 (.answered (.ok (.err 1 ""))),
          .ipc 2 .acquire, .ipc 2 (.connected (.ok ())), .ipc 2 (.wrote (.ok ())), .tick 10000],
        s.clock = 30000 ∧ s.calls.map Call.phase =
          [.returned (.ok (.err 0 "")), .returned (.ok (.err 1 "")), .reading 0 0] := by
    decide +kernel
  have hreach := Machine.Reachable.of_runUnder idle_init hs
  exact ⟨s, hreach, hclock, hphase, dispatchBounded_of_responsive defaultConfig _ s hreach⟩

end OxEmbed.Pool

import OxEmbed.Batcher.Backpressure
import OxEmbed.Server.Lifecycle

/-!
# The calls of the handlers

A call that awaits a batcher belongs to a handler, and a handler that is left keeps `axum::serve`
from returning. So a request that a batcher has accepted is awaited by its handler, or its client
went away, or its handler has received the result; and while a handler is left, the senders of all
batchers are held.

## Main definitions

* `SameCalls` : what the handlers see of a batcher is the same.
* `Inv` : every call has its handler, or its client went away, or its result was received.
* `CallStep` : what a handler that moves on in its call does.

## Main results

* `Inv.callStep` : such a step keeps the invariant.
* `inv_of_reachable` : the invariant holds in every reachable state.
-/

namespace OxEmbed.Server

open Batcher (BatcherConfig BatchError Item RatioArith Shutdown shutdownMachine)

variable {F V B : Type} [RatioArith F]

/-! ### One batcher -/

section Batcher

variable {cfg : BatcherConfig F} {t t' : Shutdown V} {a : Batcher.Action V} {r : ℕ}
  {x : Except BatchError (List V)}

/-- The calls of a batcher are the same. -/
structure SameCalls (t t' : Shutdown V) : Prop where
  accepted : t'.batcher.accepted = t.batcher.accepted
  checked : t'.batcher.checked = t.batcher.checked
  cancelled : t'.batcher.cancelled = t.batcher.cancelled
  returned : t'.batcher.returned = t.batcher.returned

theorem step_batcher (ht : Shutdown.step cfg t (.batcher a) = some t') :
    ∃ u, Batcher.step cfg t.batcher a = some u ∧ t' = { t with batcher := u } := by
  obtain ⟨u, hu, rfl⟩ := Option.map_eq_some_iff.1 ht
  exact ⟨u, hu, rfl⟩

theorem sameCalls_of_work (ha : a.advances = true)
    (ht : Shutdown.step cfg t (.batcher a) = some t') :
    SameCalls t t' ∧ t'.batcher.closed = t.batcher.closed ∧ t'.dropped = t.dropped := by
  obtain ⟨u, hstep, rfl⟩ := step_batcher ht
  cases Batcher.trans_of_step hstep with
  | submitEmpty | submitFull | submitChecked | sendFull | enqueue | cancel | close => cases ha
  | _ => exact ⟨⟨rfl, rfl, rfl, rfl⟩, rfl, rfl⟩

theorem sameCalls_of_close (ht : Shutdown.step cfg t (.batcher .close) = some t') :
    SameCalls t t' ∧ t'.dropped = t.dropped := by
  obtain ⟨u, hstep, rfl⟩ := step_batcher ht
  cases Batcher.trans_of_step hstep with
  | close => exact ⟨⟨rfl, rfl, rfl, rfl⟩, rfl⟩

theorem sameCalls_of_abort (ht : Shutdown.step cfg t .abort = some t') : SameCalls t t' := by
  obtain ⟨-, -, hb, -⟩ := Shutdown.abort_cases ht
  constructor <;> rw [hb] <;> rfl

omit [RatioArith F] in
/-- What a call returns depends on what arrived and on what was dropped. -/
theorem mem_results_iff : x ∈ t.results r ↔
    (∃ reply, (r, reply) ∈ t.batcher.replies ∧ reply.result = x) ∨
      r ∈ t.dropped ∧ x = .error .shutdown := by
  rw [Shutdown.results, List.mem_append]
  refine or_congr ?_ ?_
  · simp [Batcher.State.repliesTo]
  · simp only [List.mem_map, List.mem_filter, decide_eq_true_eq]
    constructor
    · rintro ⟨_, ⟨hr, rfl⟩, rfl⟩
      exact ⟨hr, rfl⟩
    · rintro ⟨hr, rfl⟩
      exact ⟨r, ⟨hr, rfl⟩, rfl⟩

theorem mem_results_of_step {a : Batcher.ShutdownAction V}
    (ht : Shutdown.step cfg t a = some t') (hx : x ∈ t.results r) : x ∈ t'.results r := by
  suffices h : t.batcher.replies ⊆ t'.batcher.replies ∧ t.dropped ⊆ t'.dropped by
    rw [mem_results_iff] at hx ⊢
    exact hx.imp (fun ⟨reply, hr, he⟩ => ⟨reply, h.1 hr, he⟩) fun ⟨hr, he⟩ => ⟨h.2 hr, he⟩
  cases a with
  | batcher a =>
    obtain ⟨u, hstep, rfl⟩ := step_batcher ht
    refine ⟨?_, List.Subset.refl _⟩
    cases Batcher.trans_of_step hstep with
    | sendOk | sendErr =>
      rw [Batcher.State.send_replies]
      split
      · exact List.Subset.refl _
      · exact List.subset_append_left _ _
    | _ => exact List.Subset.refl _
  | abort =>
    obtain ⟨-, -, hb, hdropped⟩ := Shutdown.abort_cases ht
    rw [hb, hdropped]
    exact ⟨List.Subset.refl _, List.subset_append_left _ _⟩

/-- A batcher whose sender is held was not aborted. -/
theorem dropped_eq_nil (ht : (shutdownMachine V cfg).Reachable (fun _ _ => True) t)
    (hcl : t.batcher.closed = false) :
    t.dropped = [] ∧ (Batcher.machine V cfg).Reachable (fun _ _ => True) t.batcher := by
  rcases Shutdown.cases_of_reachable ht with h | ⟨_, _, _, habort⟩
  · exact h
  · exact absurd (hcl.symm.trans habort.closed) Bool.false_ne_true

/-- While the sender is held, no call returns `Shutdown`. -/
theorem ne_shutdown_of_mem_results (ht : (shutdownMachine V cfg).Reachable (fun _ _ => True) t)
    (hcl : t.batcher.closed = false) (hx : x ∈ t.results r) : x ≠ .error .shutdown := by
  rw [mem_results_iff, (dropped_eq_nil ht hcl).1] at hx
  rcases hx with ⟨reply, -, rfl⟩ | ⟨hr, -⟩
  · cases reply <;> simp [Batcher.Reply.result]
  · exact absurd hr List.not_mem_nil

variable {s : Batcher.State V} {C : Batcher.State V → Batcher.Action V → Prop}

theorem ne_shutdown_of_returned (hs : (Batcher.machine V cfg).Reachable C s)
    (hx : (r, x) ∈ s.returned) : x ≠ .error .shutdown := by
  revert r x
  refine hs.invariant
    (P := fun s => ∀ {r x}, (r, x) ∈ s.returned → x ≠ .error BatchError.shutdown) ?_ ?_
  · rintro _ ⟨-, rfl⟩ r x hx
    cases hx
  · intro s a s' ih _ hstep r x hx
    cases Batcher.trans_of_step hstep with
    | submitEmpty | submitFull | sendFull =>
      rcases List.mem_append.1 hx with hx | hx
      · exact ih hx
      · rw [(Prod.mk.inj (List.mem_singleton.1 hx)).2]
        simp
    | _ => exact ih hx

theorem exists_accepted_of_mem_senders (hs : (Batcher.machine V cfg).Reachable C s)
    (hr : r ∈ s.senders) : ∃ item ∈ s.accepted, item.reply = r := by
  have horder : s.dispatched.flatten ++ s.waiting = s.accepted.filter (· ∉ s.skipped) :=
    (Batcher.fifo_conserved hs).order
  have hmem : r ∈ (s.dispatched.flatten ++ s.waiting).map Item.reply := by
    obtain ⟨used, hused, -⟩ := (Batcher.sending_of_reachable hs).served
    rw [List.map_append, ← hused, List.append_assoc]
    exact List.mem_append_right _ hr
  rw [horder] at hmem
  obtain ⟨item, hi, rfl⟩ := List.mem_map.1 hmem
  exact ⟨item, List.mem_of_mem_filter hi, rfl⟩

end Batcher

/-! ### The invariant -/

variable {cfg : B → BatcherConfig F} {entries : List B}

/-- Every call has its handler, or its client went away, or its result was received; and what an
abort drops is what clients that went away have left. -/
structure Inv (cfg : B → BatcherConfig F) (s : State B V) : Prop where
  reachable : ∀ b, (shutdownMachine V (cfg b)).Reachable (fun _ _ => True) (s.batchers b)
  fresh : ∀ h, s.requests ≤ h → s.handlers h = none
  quiet : s.main ≠ .serving → s.listening = false ∧ ∀ h, s.handlers h = none
  closed : ∀ b, (s.batchers b).batcher.closed = true → s.main ≠ .serving
  checked : ∀ b, ∀ item ∈ (s.batchers b).batcher.checked,
    ∃ h, s.handlers h = some (.sending b item.reply)
  accepted : ∀ b, ∀ item ∈ (s.batchers b).batcher.accepted,
    item.reply ∈ (s.batchers b).batcher.cancelled ∨
      (∃ h, s.handlers h = some (.awaiting b item.reply)) ∨
      ∃ h x, (h, b, item.reply, x) ∈ s.received
  received : ∀ h b r x, (h, b, r, x) ∈ s.received → x ≠ .error .shutdown ∧
    (x ∈ (s.batchers b).results r ∨ (r, x) ∈ (s.batchers b).batcher.returned ∧
      ∀ item ∈ (s.batchers b).batcher.accepted, item.reply ≠ r)
  dropped : ∀ b, ∀ r ∈ (s.batchers b).dropped, r ∈ (s.batchers b).batcher.cancelled

section Inv

variable {s s' : State B V} {i : ℕ} {p : HandlerPhase B}

/-- While a handler is left, `axum::serve` has not returned. -/
theorem Inv.serving (hinv : Inv cfg s) (hp : s.handlers i = some p) : s.main = .serving := by
  by_contra hmain
  exact absurd (hp.symm.trans ((hinv.quiet hmain).2 i)) (Option.some_ne_none p)

/-- While a handler is left, every sender is held. -/
theorem Inv.closed_eq_false (hinv : Inv cfg s) (hmain : s.main = .serving) (b : B) :
    (s.batchers b).batcher.closed = false :=
  Bool.eq_false_iff.2 fun hcl => hinv.closed b hcl hmain

theorem Inv.lt_requests (hinv : Inv cfg s) (hp : s.handlers i = some p) : i < s.requests := by
  by_contra hle
  exact absurd (hp.symm.trans (hinv.fresh i (not_lt.1 hle))) (Option.some_ne_none p)

omit [RatioArith F] in
/-- The change of one handler leaves the others in their phases. -/
theorem exists_update {q : HandlerPhase B} {p' : Option (HandlerPhase B)}
    (hne : s.handlers i ≠ some q) (h : ∃ h, s.handlers h = some q) :
    ∃ h, Function.update s.handlers i p' h = some q := by
  obtain ⟨j, hj⟩ := h
  have hji : j ≠ i := fun hji => hne (hji ▸ hj)
  exact ⟨j, by rw [Function.update_of_ne hji, hj]⟩

/-- A handler that is in no call starts or ends. -/
theorem Inv.setIdle (hinv : Inv cfg s) {p' : Option (HandlerPhase B)} {requests lingering : ℕ}
    (hp : ∀ q c, s.handlers i = some q → q.call ≠ some c) (hmain : s.main = .serving)
    (hi : i < requests) (hle : s.requests ≤ requests) :
    Inv cfg { s with
      handlers := Function.update s.handlers i p'
      requests := requests
      lingering := lingering } where
  reachable := hinv.reachable
  fresh h hh := by
    dsimp only at hh ⊢
    rw [Function.update_of_ne (by omega)]
    exact hinv.fresh h (hle.trans hh)
  quiet hne := absurd hmain hne
  closed := hinv.closed
  checked b item hi' := exists_update (fun h => hp _ (b, item.reply) h rfl)
    (hinv.checked b item hi')
  accepted b item hi' := (hinv.accepted b item hi').imp_right
    (Or.imp_left (exists_update fun h => hp _ (b, item.reply) h rfl))
  received := hinv.received
  dropped := hinv.dropped

variable [DecidableEq B]

/-- A step in which the handler `i` moves on in a call of the batcher `b`, whose state becomes `t`;
`new` are the results that it receives. -/
structure CallStep (cfg : B → BatcherConfig F) (s s' : State B V) (i : ℕ) (b : B) (t : Shutdown V)
    (new : List (ℕ × B × ℕ × Except BatchError (List V))) : Prop where
  main : s'.main = s.main
  requests : s'.requests = s.requests
  others : ∀ h, h ≠ i → s'.handlers h = s.handlers h
  batchers : s'.batchers = Function.update s.batchers b t
  received : s'.received = s.received ++ new
  /-- The call is one of the batcher `b`. -/
  only : ∀ q c, s.handlers i = some q → q.call = some c → c.1 = b
  reachable : (shutdownMachine V (cfg b)).Reachable (fun _ _ => True) t
  results : ∀ r x, x ∈ (s.batchers b).results r → x ∈ t.results r
  returned : (s.batchers b).batcher.returned ⊆ t.batcher.returned
  closed : t.batcher.closed = false
  checked : ∀ item ∈ t.batcher.checked,
    (item ∈ (s.batchers b).batcher.checked ∧ s.handlers i ≠ some (.sending b item.reply)) ∨
      s'.handlers i = some (.sending b item.reply)
  accepted : ∀ item ∈ t.batcher.accepted, item.reply ∈ t.batcher.cancelled ∨
    (item ∈ (s.batchers b).batcher.accepted ∧
      item.reply ∉ (s.batchers b).batcher.cancelled ∧
      s.handlers i ≠ some (.awaiting b item.reply)) ∨
    s'.handlers i = some (.awaiting b item.reply) ∨ ∃ x, (i, b, item.reply, x) ∈ new
  new : ∀ e ∈ new, e.2.1 = b ∧ e.2.2.2 ≠ .error .shutdown ∧
    (e.2.2.2 ∈ t.results e.2.2.1 ∨ (e.2.2.1, e.2.2.2) ∈ t.batcher.returned)

theorem Inv.callStep (hinv : Inv cfg s) (hp : s.handlers i = some p) {b : B} {t : Shutdown V}
    {l : List (ℕ × B × ℕ × Except BatchError (List V))}
    (hc : CallStep cfg s s' i b t l) : Inv cfg s' := by
  have hmain := hinv.serving hp
  have hmain' : s'.main = .serving := hc.main.trans hmain
  have hlt := hinv.lt_requests hp
  have hb : s'.batchers b = t := by rw [hc.batchers, Function.update_self]
  have hne {b' : B} (h : b' ≠ b) : s'.batchers b' = s.batchers b' := by
    rw [hc.batchers, Function.update_of_ne h]
  -- the handlers of the calls of other batchers, and of other calls of this one
  have hkeep {q : HandlerPhase B} (hq : s.handlers i ≠ some q)
      (h : ∃ h, s.handlers h = some q) : ∃ h, s'.handlers h = some q := by
    obtain ⟨j, hj⟩ := h
    have hji : j ≠ i := fun hji => hq (hji ▸ hj)
    exact ⟨j, by rw [hc.others j hji, hj]⟩
  have hnoItem : ∀ p ∈ t.batcher.returned, ∀ item ∈ t.batcher.accepted, item.reply ≠ p.1 := by
    intro p hp item hi heq
    have hs := (dropped_eq_nil hc.reachable hc.closed).2
    exact (Batcher.refused_of_reachable hs).noItem p hp
      (heq ▸ List.mem_map_of_mem (List.mem_append_left _ hi))
  have hother {b' : B} (h : b' ≠ b) {q : HandlerPhase B} {r : ℕ} (hq : q.call = some (b', r)) :
      s.handlers i ≠ some q := fun hi => h (hc.only q _ hi hq)
  refine ⟨fun b' => ?_, fun h hh => ?_, fun hne => absurd hmain' hne, fun b' hcl => ?_,
    fun b' item hi => ?_, fun b' item hi => ?_, fun h b' r x hx => ?_, fun b' r hr => ?_⟩
  · by_cases h : b' = b
    · subst h
      rw [hb]
      exact hc.reachable
    · rw [hne h]
      exact hinv.reachable b'
  · rw [hc.requests] at hh
    rw [hc.others h (by omega)]
    exact hinv.fresh h hh
  · by_cases h : b' = b
    · subst h
      rw [hb, hc.closed] at hcl
      cases hcl
    · rw [hne h] at hcl
      exact absurd hmain (hinv.closed b' hcl)
  · by_cases h : b' = b
    · subst h
      rw [hb] at hi
      rcases hc.checked item hi with ⟨hmem, hq⟩ | hq
      · exact hkeep hq (hinv.checked b' item hmem)
      · exact ⟨i, hq⟩
    · rw [hne h] at hi
      exact hkeep (hother h rfl) (hinv.checked b' item hi)
  · rw [hc.received]
    by_cases h : b' = b
    · subst h
      rw [hb] at hi ⊢
      rcases hc.accepted item hi with hcancel | ⟨hmem, hlive, hq⟩ | hq | ⟨x, hx⟩
      · exact .inl hcancel
      · rcases (hinv.accepted b' item hmem).resolve_left hlive with hwait | ⟨h, x, hx⟩
        · exact .inr (.inl (hkeep hq hwait))
        · exact .inr (.inr ⟨h, x, List.mem_append_left _ hx⟩)
      · exact .inr (.inl ⟨i, hq⟩)
      · exact .inr (.inr ⟨i, x, List.mem_append_right _ hx⟩)
    · rw [hne h] at hi ⊢
      rcases hinv.accepted b' item hi with hcancel | hwait | ⟨h', x, hx⟩
      · exact .inl hcancel
      · exact .inr (.inl (hkeep (hother h rfl) hwait))
      · exact .inr (.inr ⟨h', x, List.mem_append_left _ hx⟩)
  · rw [hc.received] at hx
    rcases List.mem_append.1 hx with hx | hx
    · obtain ⟨hshut, hres⟩ := hinv.received h b' r x hx
      refine ⟨hshut, ?_⟩
      by_cases h : b' = b
      · subst h
        rw [hb]
        refine hres.imp (hc.results r x) fun hret => ?_
        exact ⟨hc.returned hret.1, hnoItem _ (hc.returned hret.1)⟩
      · rwa [hne h]
    · obtain ⟨rfl, hshut, hres⟩ := hc.new _ hx
      rw [hb]
      exact ⟨hshut, hres.imp_right fun hret => ⟨hret, hnoItem _ hret⟩⟩
  · by_cases h : b' = b
    · subst h
      rw [hb] at hr
      rw [(dropped_eq_nil hc.reachable hc.closed).1] at hr
      cases hr
    · rw [hne h] at hr ⊢
      exact hinv.dropped b' r hr

/-! ### The steps of a call -/

variable {b : B} {t : Shutdown V} {r : ℕ} {x : Except BatchError (List V)}

omit [DecidableEq B] in
/-- What every step of an open batcher does to the results of its calls. -/
theorem Inv.open_step (hinv : Inv cfg s) (hmain : s.main = .serving) {a : Batcher.Action V}
    (ht : Shutdown.step (cfg b) (s.batchers b) (.batcher a) = some t) (ha : a ≠ .close) :
    (shutdownMachine V (cfg b)).Reachable (fun _ _ => True) t ∧ t.batcher.closed = false ∧
      ∀ r x, x ∈ (s.batchers b).results r → x ∈ t.results r := by
  have hmove : (shutdownMachine V (cfg b)).step (s.batchers b) (.batcher a) = some t := ht
  refine ⟨(hinv.reachable b).step trivial hmove, ?_, fun r x => mem_results_of_step ht⟩
  have hopen := hinv.closed_eq_false hmain b
  obtain ⟨u, hstep, rfl⟩ := step_batcher ht
  cases Batcher.trans_of_step hstep with
  | close => exact absurd rfl ha
  | _ => exact hopen

theorem mem_of_lookup {l : List (ℕ × Except BatchError (List V))} (h : l.lookup r = some x) :
    (r, x) ∈ l := by
  obtain ⟨l₁, l₂, rfl, -⟩ := List.lookup_eq_some_iff.1 h
  exact List.mem_append_right _ List.mem_cons_self

theorem notMem_of_lookup {l : List (ℕ × Except BatchError (List V))} (h : l.lookup r = none) :
    (r, x) ∉ l := by
  intro hmem
  have hne := List.lookup_eq_none_iff.1 h (r, x) hmem
  simp at hne

theorem Inv.call (hinv : Inv cfg s) {tokenIds : List (List UInt32)} {h : ℕ}
    (hp : s.handlers h = some .running)
    (ht : Shutdown.step (cfg b) (s.batchers b) (.batcher (.submit tokenIds)) = some t) :
    (∀ x, t.batcher.returned.lookup (s.batchers b).batcher.nextCall = some x →
      Inv cfg ((s.setBatcher b t).finishCall h b (s.batchers b).batcher.nextCall x)) ∧
    (t.batcher.returned.lookup (s.batchers b).batcher.nextCall = none →
      Inv cfg ((s.setBatcher b t).setHandler h
        (some (.sending b (s.batchers b).batcher.nextCall)))) := by
  have hmain := hinv.serving hp
  obtain ⟨hreach, hcl, hres⟩ := hinv.open_step hmain ht (fun h => nomatch h)
  have hs := (dropped_eq_nil (hinv.reachable b) (hinv.closed_eq_false hmain b)).2
  have hs' := (dropped_eq_nil hreach hcl).2
  have hidle : ∀ q c, s.handlers h = some q → q.call = some c → c.1 = b := by
    intro q c hq hc
    obtain rfl : HandlerPhase.running = q := Option.some.inj (hp.symm.trans hq)
    cases hc
  have hrun {q : HandlerPhase B} (hq : q ≠ .running) : s.handlers h ≠ some q := fun hi =>
    hq (Option.some.inj (hi.symm.trans hp))
  have hlt := (Batcher.refused_of_reachable hs).lt
  obtain ⟨u, hstep, rfl⟩ := step_batcher ht
  constructor
  · intro x hx
    have hmem := mem_of_lookup hx
    refine hinv.callStep hp (b := b) (t := { s.batchers b with batcher := u })
      (l := [(h, b, (s.batchers b).batcher.nextCall, x)])
      ⟨rfl, rfl, fun j hj => Function.update_of_ne hj _ _, rfl, rfl, hidle, hreach, hres, ?_, hcl,
        ?_, ?_, ?_⟩
    · cases Batcher.trans_of_step hstep with
      | submitEmpty | submitFull => exact List.subset_append_left _ _
      | submitChecked => exact List.Subset.refl _
    · intro item hi
      refine .inl ⟨?_, hrun (fun h => nomatch h)⟩
      cases Batcher.trans_of_step hstep with
      | submitEmpty | submitFull => exact hi
      | submitChecked => exact absurd (hlt _ hmem) (Nat.lt_irrefl _)
    · intro item hi
      by_cases hcancel : item.reply ∈ u.cancelled
      · exact .inl hcancel
      · refine .inr (.inl ?_)
        cases Batcher.trans_of_step hstep with
        | submitEmpty | submitFull => exact ⟨hi, hcancel, hrun (fun h => nomatch h)⟩
        | submitChecked => exact absurd (hlt _ hmem) (Nat.lt_irrefl _)
    · intro e he
      obtain rfl := List.mem_singleton.1 he
      exact ⟨rfl, ne_shutdown_of_returned hs' hmem, .inr hmem⟩
  · intro hx
    refine hinv.callStep hp (b := b) (t := { s.batchers b with batcher := u }) (l := [])
      ⟨rfl, rfl, fun j hj => Function.update_of_ne hj _ _, rfl, (List.append_nil _).symm, hidle,
        hreach, hres, ?_, hcl, ?_, ?_, nofun⟩
    · cases Batcher.trans_of_step hstep with
      | submitEmpty | submitFull => exact List.subset_append_left _ _
      | submitChecked => exact List.Subset.refl _
    · intro item hi
      cases Batcher.trans_of_step hstep with
      | submitEmpty | submitFull => exact .inl ⟨hi, hrun (fun h => nomatch h)⟩
      | submitChecked =>
        rcases List.mem_append.1 hi with hi | hi
        · exact .inl ⟨hi, hrun (fun h => nomatch h)⟩
        · rw [List.mem_singleton.1 hi]
          exact .inr (Function.update_self _ _ _)
    · intro item hi
      by_cases hcancel : item.reply ∈ u.cancelled
      · exact .inl hcancel
      · refine .inr (.inl ?_)
        cases Batcher.trans_of_step hstep with
        | _ => exact ⟨hi, hcancel, hrun (fun h => nomatch h)⟩

theorem Inv.send (hinv : Inv cfg s) {h : ℕ} {item : Item}
    (hp : s.handlers h = some (.sending b item.reply))
    (hi : item ∈ (s.batchers b).batcher.checked)
    (ht : Shutdown.step (cfg b) (s.batchers b) (.batcher (.trySend item)) = some t) :
    (∀ x, t.batcher.returned.lookup item.reply = some x →
      Inv cfg ((s.setBatcher b t).finishCall h b item.reply x)) ∧
    (t.batcher.returned.lookup item.reply = none →
      Inv cfg ((s.setBatcher b t).setHandler h (some (.awaiting b item.reply)))) := by
  have hmain := hinv.serving hp
  obtain ⟨hreach, hcl, hres⟩ := hinv.open_step hmain ht (fun h => nomatch h)
  have hs := (dropped_eq_nil (hinv.reachable b) (hinv.closed_eq_false hmain b)).2
  have hs' := (dropped_eq_nil hreach hcl).2
  have hphase : ∀ q, s.handlers h = some q → q = .sending b item.reply := fun q hq =>
    Option.some.inj (hq.symm.trans hp)
  have honly : ∀ q c, s.handlers h = some q → q.call = some c → c.1 = b := by
    intro q c hq hc
    rw [hphase q hq] at hc
    exact congrArg Prod.fst (Option.some.inj hc).symm
  -- the other requests past the depth check have other numbers
  have hrest : ∀ other ∈ (s.batchers b).batcher.checked.erase item,
      other ∈ (s.batchers b).batcher.checked ∧
        s.handlers h ≠ some (.sending b other.reply) := by
    intro other ho
    refine ⟨List.mem_of_mem_erase ho, fun hq => ?_⟩
    have hnodup := (Batcher.numbered_of_reachable hs).nodup
    rw [List.map_append] at hnodup
    have hchecked := ((List.perm_cons_erase hi).map Item.reply).nodup_iff.1
      (List.nodup_append.1 hnodup).2.1
    obtain ⟨-, heq⟩ := HandlerPhase.sending.inj (hphase _ hq)
    exact (List.nodup_cons.1 hchecked).1 (heq ▸ List.mem_map_of_mem ho)
  have hnoItem := (Batcher.refused_of_reachable hs).noItem
  have hwait : ∀ r, s.handlers h ≠ some (.awaiting b r) := fun r hq => nomatch hphase _ hq
  obtain ⟨u, hstep, rfl⟩ := step_batcher ht
  constructor
  · intro x hx
    have hmem := mem_of_lookup hx
    refine hinv.callStep hp (b := b) (t := { s.batchers b with batcher := u })
      (l := [(h, b, item.reply, x)])
      ⟨rfl, rfl, fun j hj => Function.update_of_ne hj _ _, rfl, rfl, honly, hreach, hres, ?_, hcl,
        ?_, ?_, ?_⟩
    · cases Batcher.trans_of_step hstep with
      | sendFull => exact List.subset_append_left _ _
      | enqueue => exact List.Subset.refl _
    · intro other ho
      cases Batcher.trans_of_step hstep with
      | sendFull => exact .inl (hrest other ho)
      | enqueue => exact .inl (hrest other ho)
    · intro other ho
      by_cases hcancel : other.reply ∈ u.cancelled
      · exact .inl hcancel
      · cases Batcher.trans_of_step hstep with
        | sendFull => exact .inr (.inl ⟨ho, hcancel, hwait _⟩)
        | enqueue =>
          -- a call that is put into the channel does not return at once
          have hitem : item.reply ∈ ((s.batchers b).batcher.accepted ++
              (s.batchers b).batcher.checked).map Item.reply :=
            List.mem_map_of_mem (List.mem_append_right _ hi)
          exact absurd hitem (hnoItem _ hmem)
    · intro e he
      obtain rfl := List.mem_singleton.1 he
      exact ⟨rfl, ne_shutdown_of_returned hs' hmem, .inr hmem⟩
  · intro hx
    refine hinv.callStep hp (b := b) (t := { s.batchers b with batcher := u }) (l := [])
      ⟨rfl, rfl, fun j hj => Function.update_of_ne hj _ _, rfl, (List.append_nil _).symm, honly,
        hreach, hres, ?_, hcl, ?_, ?_, nofun⟩
    · cases Batcher.trans_of_step hstep with
      | sendFull => exact List.subset_append_left _ _
      | enqueue => exact List.Subset.refl _
    · intro other ho
      cases Batcher.trans_of_step hstep with
      | sendFull => exact .inl (hrest other ho)
      | enqueue => exact .inl (hrest other ho)
    · intro other ho
      by_cases hcancel : other.reply ∈ u.cancelled
      · exact .inl hcancel
      · cases Batcher.trans_of_step hstep with
        | sendFull =>
          exact absurd (List.mem_append_right _ List.mem_cons_self) (notMem_of_lookup hx)
        | enqueue =>
          rcases List.mem_append.1 ho with ho | ho
          · exact .inr (.inl ⟨ho, hcancel, hwait _⟩)
          · rw [List.mem_singleton.1 ho]
            exact .inr (.inr (.inl (Function.update_self _ _ _)))

theorem Inv.receive (hinv : Inv cfg s) {h : ℕ} (hp : s.handlers h = some (.awaiting b r))
    (hx : x ∈ (s.batchers b).results r) : Inv cfg (s.finishCall h b r x) := by
  have hcl := hinv.closed_eq_false (hinv.serving hp) b
  have hphase : ∀ q, s.handlers h = some q → q = .awaiting b r := fun q hq =>
    Option.some.inj (hq.symm.trans hp)
  refine hinv.callStep hp (b := b) (t := s.batchers b) (l := [(h, b, r, x)])
    ⟨rfl, rfl, fun j hj => Function.update_of_ne hj _ _, (Function.update_eq_self b _).symm, rfl,
      ?_, hinv.reachable b, fun _ _ h => h, List.Subset.refl _, hcl, ?_, ?_, ?_⟩
  · intro q c hq hc
    rw [hphase q hq] at hc
    exact congrArg Prod.fst (Option.some.inj hc).symm
  · exact fun item hi => .inl ⟨hi, fun hq => nomatch hphase _ hq⟩
  · intro item hi
    by_cases hcancel : item.reply ∈ (s.batchers b).batcher.cancelled
    · exact .inl hcancel
    · by_cases hr : item.reply = r
      · exact .inr (.inr (.inr ⟨x, hr ▸ List.mem_cons_self⟩))
      · refine .inr (.inl ⟨hi, hcancel, fun hq => hr ?_⟩)
        exact (HandlerPhase.awaiting.inj (hphase _ hq)).2
  · intro e he
    obtain rfl := List.mem_singleton.1 he
    exact ⟨rfl, ne_shutdown_of_mem_results (hinv.reachable b) hcl hx, .inl hx⟩

theorem Inv.cancel (hinv : Inv cfg s) {h : ℕ} (hp : s.handlers h = some (.awaiting b r))
    (ht : Shutdown.step (cfg b) (s.batchers b) (.batcher (.cancel r)) = some t) :
    Inv cfg ((s.setBatcher b t).endHandler h) := by
  have hphase : ∀ q, s.handlers h = some q → q = .awaiting b r := fun q hq =>
    Option.some.inj (hq.symm.trans hp)
  obtain ⟨hreach, hcl, hres⟩ := hinv.open_step (hinv.serving hp) ht (fun h => nomatch h)
  obtain ⟨u, hstep, rfl⟩ := step_batcher ht
  refine hinv.callStep hp (b := b) (t := { s.batchers b with batcher := u }) (l := [])
    ⟨rfl, rfl, fun j hj => Function.update_of_ne hj _ _, rfl, (List.append_nil _).symm, ?_, hreach,
      hres, ?_, hcl, ?_, ?_, nofun⟩
  · intro q c hq hc
    rw [hphase q hq] at hc
    exact congrArg Prod.fst (Option.some.inj hc).symm
  · cases Batcher.trans_of_step hstep with
    | cancel => exact List.Subset.refl _
  · cases Batcher.trans_of_step hstep with
    | cancel => exact fun item hi => .inl ⟨hi, fun hq => nomatch hphase _ hq⟩
  · cases Batcher.trans_of_step hstep with
    | cancel =>
      intro item hi
      by_cases hcancel : item.reply ∈ r :: (s.batchers b).batcher.cancelled
      · exact .inl hcancel
      · obtain ⟨hne, hlive⟩ := not_or.1 (mt List.mem_cons.2 hcancel)
        refine .inr (.inl ⟨hi, hlive, fun hq => hne ?_⟩)
        exact (HandlerPhase.awaiting.inj (hphase _ hq)).2

/-! ### The steps of the workers and of the shutdown -/

/-- A batcher moves, and its calls stay as they are. -/
theorem Inv.setBatcher (hinv : Inv cfg s)
    {a : Batcher.ShutdownAction V} (ht : Shutdown.step (cfg b) (s.batchers b) a = some t)
    (hsame : SameCalls (s.batchers b) t)
    (hcl : t.batcher.closed = true → s.main ≠ .serving)
    (hdropped : ∀ r ∈ t.dropped, r ∈ t.batcher.cancelled) : Inv cfg (s.setBatcher b t) where
  reachable := (Function.forall_update_iff s.batchers fun b t =>
    (shutdownMachine V (cfg b)).Reachable (fun _ _ => True) t).2
      ⟨(hinv.reachable b).step trivial ht, fun b' _ => hinv.reachable b'⟩
  fresh := hinv.fresh
  quiet := hinv.quiet
  closed := (Function.forall_update_iff s.batchers fun _ t =>
    t.batcher.closed = true → s.main ≠ .serving).2 ⟨hcl, fun b' _ => hinv.closed b'⟩
  checked := (Function.forall_update_iff s.batchers fun b' t =>
    ∀ item ∈ t.batcher.checked, ∃ h, s.handlers h = some (.sending b' item.reply)).2
      ⟨hsame.checked ▸ hinv.checked b, fun b' _ => hinv.checked b'⟩
  accepted := (Function.forall_update_iff s.batchers fun b' t =>
    ∀ item ∈ t.batcher.accepted, item.reply ∈ t.batcher.cancelled ∨
      (∃ h, s.handlers h = some (.awaiting b' item.reply)) ∨
      ∃ h x, (h, b', item.reply, x) ∈ s.received).2
        ⟨hsame.accepted ▸ hsame.cancelled ▸ hinv.accepted b, fun b' _ => hinv.accepted b'⟩
  received h b' r x hx := by
    obtain ⟨hshut, hres⟩ := hinv.received h b' r x hx
    refine ⟨hshut, ?_⟩
    rw [State.setBatcher_batchers]
    by_cases hb : b' = b
    · subst hb
      rw [Function.update_self, hsame.returned, hsame.accepted]
      exact hres.imp_left (mem_results_of_step ht)
    · rwa [Function.update_of_ne hb]
  dropped := (Function.forall_update_iff s.batchers fun _ t =>
    ∀ r ∈ t.dropped, r ∈ t.batcher.cancelled).2 ⟨hdropped, fun b' _ => hinv.dropped b'⟩

omit [DecidableEq B] in
/-- A handler receives of an accepted request what arrived on its reply channel. -/
theorem Inv.mem_results (hinv : Inv cfg s) {h : ℕ} {item : Item}
    (hi : item ∈ (s.batchers b).batcher.accepted) (hx : (h, b, item.reply, x) ∈ s.received) :
    x ∈ (s.batchers b).results item.reply :=
  (hinv.received h b item.reply x hx).2.resolve_right fun hret => hret.2 item hi rfl

omit [DecidableEq B] in
/-- An abort drops what clients that went away have left. -/
theorem Inv.cancelled_of_abort (hinv : Inv cfg s)
    (ht : Shutdown.step (cfg b) (s.batchers b) .abort = some t) :
    ∀ r ∈ t.dropped, r ∈ t.batcher.cancelled := by
  intro r hr
  rw [(sameCalls_of_abort ht).cancelled]
  obtain ⟨hcl, hsuspended, -, hdropped⟩ := Shutdown.abort_cases ht
  rw [hdropped] at hr
  rcases List.mem_append.1 hr with hr | hr
  · exact hinv.dropped b r hr
  rcases Shutdown.cases_of_reachable (hinv.reachable b) with ⟨hnone, hs⟩ | ⟨_, _, _, habort⟩
  · obtain ⟨item, hi, rfl⟩ := exists_accepted_of_mem_senders hs hr
    rcases hinv.accepted b item hi with hcancel | ⟨h, hwait⟩ | ⟨h, x, hx⟩
    · exact hcancel
    · exact absurd (hwait.symm.trans ((hinv.quiet (hinv.closed b hcl)).2 h))
        (Option.some_ne_none _)
    · -- a result that was received came over a sender that was used
      have hres := hinv.mem_results hi hx
      rw [Shutdown.results_of_nil hnone, Batcher.repliesTo_of_mem_senders hs hr] at hres
      exact absurd hres List.not_mem_nil
  · exact absurd (habort.not_suspended.symm.trans hsuspended) Bool.false_ne_true

omit [DecidableEq B] in
theorem Inv.setMain (hinv : Inv cfg s) {main : MainPhase B} {aborting timedOut : List B}
    (hmain : main ≠ .serving) (hquiet : s.listening = false ∧ ∀ h, s.handlers h = none) :
    Inv cfg { s with main := main, aborting := aborting, timedOut := timedOut } where
  reachable := hinv.reachable
  fresh := hinv.fresh
  quiet _ := hquiet
  closed _ _ := hmain
  checked := hinv.checked
  accepted := hinv.accepted
  received := hinv.received
  dropped := hinv.dropped

omit [DecidableEq B] in
/-- The abort of a batcher, whose timeout is then forgotten. -/
theorem Inv.setAborting (hinv : Inv cfg s) (aborting : List B) :
    Inv cfg { s with aborting := aborting } :=
  ⟨hinv.reachable, hinv.fresh, hinv.quiet, hinv.closed, hinv.checked, hinv.accepted,
    hinv.received, hinv.dropped⟩

/-- **Step lemma.** Every step of the server keeps account of the calls. -/
theorem Inv.step (hinv : Inv cfg s) {a : Action B V} (h : Trans cfg entries s a s') :
    Inv cfg s' := by
  have hidle {h : ℕ} (hp : s.handlers h = some .running) :
      ∀ q c, s.handlers h = some q → q.call ≠ some c := by
    intro q c hq
    rw [← Option.some.inj (hp.symm.trans hq)]
    exact Option.some_ne_none c ∘ Eq.symm
  cases h with
  | arrive hm =>
    refine hinv.setIdle (fun q c hq => ?_) hm (Nat.lt_succ_self _) (Nat.le_succ _)
    exact absurd (hq.symm.trans (hinv.fresh _ (Nat.le_refl _))) (Option.some_ne_none q)
  | returned hp ht hx => exact (hinv.call hp ht).1 _ hx
  | checked hp ht hx => exact (hinv.call hp ht).2 hx
  | rejected hp hi hr ht hx =>
    subst hr
    exact (hinv.send hp hi ht).1 _ hx
  | sent hp hi hr ht hx =>
    subst hr
    exact (hinv.send hp hi ht).2 hx
  | receive hp hx => exact hinv.receive hp hx
  | respond hp | leave hp =>
    exact hinv.setIdle (hidle hp) (hinv.serving hp) (hinv.lt_requests hp) (Nat.le_refl _)
  | cancel hp ht => exact hinv.cancel hp ht
  | release | signal =>
    exact ⟨hinv.reachable, hinv.fresh, hinv.quiet, hinv.closed, hinv.checked, hinv.accepted,
      hinv.received, hinv.dropped⟩
  | closeListener =>
    exact ⟨hinv.reachable, hinv.fresh, fun hm => ⟨rfl, (hinv.quiet hm).2⟩, hinv.closed,
      hinv.checked, hinv.accepted, hinv.received, hinv.dropped⟩
  | @work b a t ha ht =>
    obtain ⟨hsame, hcl, hdropped⟩ := sameCalls_of_work ha ht
    refine hinv.setBatcher ht hsame (fun h => hinv.closed b (hcl ▸ h)) ?_
    rw [hdropped, hsame.cancelled]
    exact hinv.dropped b
  | serveReturns hm hl hh =>
    refine hinv.setMain (fun h => nomatch h) ⟨hl, fun h => ?_⟩
    by_cases hlt : h < s.requests
    · exact Option.isNone_iff_eq_none.1 (List.all_eq_true.1 hh h (List.mem_range.2 hlt))
    · exact hinv.fresh h (not_lt.1 hlt)
  | collect hm | skip hm =>
    exact hinv.setMain (fun h => nomatch h) (hinv.quiet (hm ▸ fun h => nomatch h))
  | @begin b todo running t hm hb ht =>
    obtain ⟨hsame, hdropped⟩ := sameCalls_of_close ht
    have hmain : s.main ≠ .serving := hm ▸ fun h => nomatch h
    have hnext := hinv.setBatcher ht hsame (fun _ => hmain) (by
      rw [hdropped, hsame.cancelled]
      exact hinv.dropped b)
    exact hnext.setMain (fun h => nomatch h) (hinv.quiet hmain)
  | join hm | timeout hm =>
    exact hinv.setMain (fun h => nomatch h) (hinv.quiet (hm ▸ fun h => nomatch h))
  | @abort b t hb ht =>
    have hcl := (Shutdown.abort_cases ht).1
    have hnext := hinv.setBatcher ht (sameCalls_of_abort ht) (fun _ => hinv.closed b hcl)
      (hinv.cancelled_of_abort ht)
    exact hnext.setAborting (s.aborting.erase b)

end Inv

/-! ### In every run -/

variable [DecidableEq B] {s s' : State B V} {C : State B V → Action B V → Prop}

/-- **Run lemma.** Every call has its handler, in every reachable state. -/
theorem inv_of_reachable (hs : (machine V cfg entries).Reachable C s) : Inv cfg s := by
  refine hs.invariant ?_ fun s a s' h _ hstep => h.step (trans_of_step hstep)
  rintro _ ⟨hpos, -, rfl⟩
  exact ⟨fun b => .init ⟨⟨hpos b, rfl⟩, rfl⟩, fun _ _ => rfl, fun h => absurd rfl h,
    fun _ h => absurd h Bool.false_ne_true, fun _ _ h => absurd h List.not_mem_nil,
    fun _ _ h => absurd h List.not_mem_nil, fun _ _ _ _ h => absurd h List.not_mem_nil,
    fun _ _ h => absurd h List.not_mem_nil⟩

end OxEmbed.Server

import OxEmbed.Server.Calls

/-!
# No live request is lost when the server stops

When `drain_batchers` drops the sender of a batcher, nobody awaits it: what is left in the channel,
the carry slot and the batch are requests whose clients went away. An abort after the timeout cuts
these alone, and no handler sees `BatchError::Shutdown`. A batcher whose worker ends before the
timeout has served everything.

## Main definitions

* `Joined` : the batchers whose shutdown ended, and how.
* `LosesNothing` : what the server owes its clients.

## Main results

* `losesNothing_of_reachable` : no live request is lost, in every run.
-/

namespace OxEmbed.Server

open Batcher (BatcherConfig BatchError RatioArith Shutdown)

variable {F V B : Type} [RatioArith F] [DecidableEq B] {cfg : B → BatcherConfig F}
  {entries : List B} {s s' : State B V} {C : State B V → Action B V → Prop}

/-! ### The shutdown of the batchers -/

/-- A batcher takes at most one step, and its abort only after its timeout. -/
theorem batchers_of_trans {a : Action B V} (h : Trans cfg entries s a s') (b : B) :
    s'.batchers b = s.batchers b ∨
      (∃ a', Shutdown.step (cfg b) (s.batchers b) (.batcher a') = some (s'.batchers b)) ∨
      b ∈ s.aborting := by
  have hone {b' : B} {t : Shutdown V} {a' : Batcher.Action V}
      (ht : Shutdown.step (cfg b') (s.batchers b') (.batcher a') = some t) :
      Function.update s.batchers b' t b = s.batchers b ∨
        ∃ a', Shutdown.step (cfg b) (s.batchers b) (.batcher a') =
          some (Function.update s.batchers b' t b) := by
    by_cases hb : b = b'
    · subst hb
      rw [Function.update_self]
      exact .inr ⟨a', ht⟩
    · exact .inl (Function.update_of_ne hb _ _)
  cases h with
  | returned _ ht | checked _ ht | rejected _ _ _ ht | sent _ _ _ ht | cancel _ ht | work _ ht
  | begin _ _ ht => exact (hone ht).imp_right .inl
  | @abort b' t hb ht =>
    by_cases h : b = b'
    · exact .inr (.inr (h ▸ hb))
    · exact .inl (Function.update_of_ne h _ _)
  | _ => exact .inl rfl

omit [DecidableEq B] in
/-- A worker that has ended does not start again. -/
theorem over_of_step {cfg : BatcherConfig F} {t t' : Shutdown V} {a : Batcher.Action V}
    (ht : Shutdown.step cfg t (.batcher a) = some t') (ho : t.batcher.phase.Over = true) :
    t'.batcher.phase.Over = true := by
  obtain ⟨u, hstep, rfl⟩ := step_batcher ht
  have hne {p : Batcher.Phase V} (hp : t.batcher.phase = p) (h : p.Over = false) :
      u.phase.Over = true := absurd ((congrArg Batcher.Phase.Over hp).symm.trans ho) (by simp [h])
  cases Batcher.trans_of_step hstep with
  | skip | submitEmpty | submitFull | submitChecked | sendFull | enqueue | cancel | close =>
    exact ho
  | takeCarry hp | takeFirst hp | stop hp | saturate hp | drained hp | defer hp | join hp | drop hp
  | keep hp | restart hp | dispatch hp | sendOk hp | drainPanic hp | scattered hp | sendErr hp
  | fanned hp | deadline hp | embedDone _ hp => exact hne hp rfl

/-- The batchers whose timeout did not fire were not cut, and the shutdown of those that are no
longer waited for has seen the worker end. -/
structure Joined (cfg : B → BatcherConfig F) (entries : List B) (s : State B V) : Prop where
  aborting : s.aborting ⊆ s.timedOut
  uncut : ∀ b, b ∉ s.timedOut →
    (Batcher.machine V (cfg b)).Reachable (fun _ _ => True) (s.batchers b).batcher
  ended : ∀ todo running, s.main = .draining todo running → ∀ b ∈ entries, b ∉ todo →
    b ∉ running → b ∉ s.timedOut → (s.batchers b).batcher.phase.Over = true

theorem Joined.step (hj : Joined cfg entries s) {a : Action B V} (h : Trans cfg entries s a s') :
    Joined cfg entries s' := by
  have hbatcher (b : B) (hb : b ∉ s.timedOut) : s'.batchers b = s.batchers b ∨
      ∃ a', Shutdown.step (cfg b) (s.batchers b) (.batcher a') = some (s'.batchers b) :=
    (batchers_of_trans h b).imp_right fun h => h.resolve_right fun hm => hb (hj.aborting hm)
  have huncut (b : B) (hb : b ∉ s.timedOut) :
      (Batcher.machine V (cfg b)).Reachable (fun _ _ => True) (s'.batchers b).batcher := by
    rcases hbatcher b hb with heq | ⟨a', ht⟩
    · rw [heq]
      exact hj.uncut b hb
    · obtain ⟨u, hu, heq⟩ := step_batcher ht
      rw [heq]
      exact .step (hj.uncut b hb) trivial hu
  have hover (b : B) (hb : b ∉ s.timedOut) (ho : (s.batchers b).batcher.phase.Over = true) :
      (s'.batchers b).batcher.phase.Over = true := by
    rcases hbatcher b hb with heq | ⟨a', ht⟩
    · rwa [heq]
    · exact over_of_step ht ho
  -- `main` and the timeouts are as they were
  have hkeep (hm : s'.main = s.main) (ht : s'.timedOut = s.timedOut)
      (ha : s'.aborting ⊆ s.aborting) : Joined cfg entries s' := by
    refine ⟨ht ▸ List.Subset.trans ha hj.aborting, ht ▸ huncut,
      fun todo running hd b hb h₁ h₂ h₃ => ?_⟩
    rw [ht] at h₃
    exact hover b h₃ (hj.ended todo running (hm ▸ hd) b hb h₁ h₂ h₃)
  cases h with
  | serveReturns | skip =>
    exact ⟨hj.aborting, huncut, fun _ _ hd => nomatch hd⟩
  | collect _ ho =>
    refine ⟨hj.aborting, huncut, fun todo running hd b hb h₁ => ?_⟩
    obtain ⟨rfl, -⟩ := MainPhase.draining.inj hd
    exact absurd (ho.mem_iff.2 hb) h₁
  | @begin b' todo running t hm =>
    refine ⟨hj.aborting, huncut, fun todo' running' hd b hb h₁ h₂ h₃ => ?_⟩
    obtain ⟨rfl, rfl⟩ := MainPhase.draining.inj hd
    obtain ⟨hne, h₂⟩ := not_or.1 (mt List.mem_cons.2 h₂)
    exact hover b h₃ (hj.ended _ _ hm b hb
      (fun h => h₁ ((List.mem_erase_of_ne hne).2 h)) h₂ h₃)
  | @join b' todo running hm hb' ho =>
    refine ⟨hj.aborting, huncut, fun todo' running' hd b hb h₁ h₂ h₃ => ?_⟩
    obtain ⟨rfl, rfl⟩ := MainPhase.draining.inj hd
    by_cases hne : b = b'
    · exact hne ▸ ho
    · exact hj.ended _ _ hm b hb h₁ (fun h => h₂ ((List.mem_erase_of_ne hne).2 h)) h₃
  | @timeout b' todo running hm =>
    refine ⟨List.cons_subset_cons _ hj.aborting,
      fun b h => huncut b fun hm => h (List.mem_cons_of_mem _ hm),
      fun todo' running' hd b hb h₁ h₂ h₃ => ?_⟩
    obtain ⟨rfl, rfl⟩ := MainPhase.draining.inj hd
    obtain ⟨hne, h₃⟩ := not_or.1 (mt List.mem_cons.2 h₃)
    exact hj.ended _ _ hm b hb h₁ (fun h => h₂ ((List.mem_erase_of_ne hne).2 h)) h₃
  | abort => exact hkeep rfl rfl List.erase_subset
  | _ => exact hkeep rfl rfl (List.Subset.refl _)

theorem joined_of_reachable (hs : (machine V cfg entries).Reachable C s) :
    Joined cfg entries s := by
  refine hs.invariant ?_ fun s a s' h _ hstep => h.step (trans_of_step hstep)
  rintro _ ⟨hpos, -, rfl⟩
  exact ⟨List.Subset.refl _, fun b _ => .init ⟨hpos b, rfl⟩, fun _ _ h => nomatch h⟩

/-! ### What the server owes its clients -/

/-- What the server owes its clients when it stops. -/
structure LosesNothing (cfg : B → BatcherConfig F) (entries : List B) (s : State B V) : Prop where
  /-- While a handler is in a call of a batcher, the sender of the batcher is held. -/
  held : ∀ h p b r, s.handlers h = some p → p.call = some (b, r) →
    (s.batchers b).batcher.closed = false
  /-- No handler sees that the batcher was shut down. -/
  received : ∀ h b r x, (h, b, r, x) ∈ s.received → x ≠ .error .shutdown
  /-- An abort cuts only requests whose clients went away. -/
  dropped : ∀ b, ∀ r ∈ (s.batchers b).dropped, r ∈ (s.batchers b).batcher.cancelled
  /-- Once `axum::serve` has returned, every accepted request was answered and its handler has
  received the answer, or its client went away. -/
  settled : s.main ≠ .serving → ∀ b, ∀ item ∈ (s.batchers b).batcher.accepted,
    item.reply ∈ (s.batchers b).batcher.cancelled ∨
      ∃ h x, (h, b, item.reply, x) ∈ s.received ∧ x ∈ (s.batchers b).results item.reply
  /-- No producer is inside of a batcher when its shutdown takes it. -/
  begins : ∀ todo running, s.main = .draining todo running → ∀ b ∈ todo,
    ∃ s', step cfg entries s (.begin b) = some s'
  /-- A batcher whose shutdown ends before its timeout has served everything. -/
  joined : ∀ todo running, s.main = .draining todo running → ∀ b ∈ entries, b ∉ todo →
    b ∉ running → b ∉ s.timedOut → Batcher.Drained (s.batchers b).batcher

/-- **No live request is lost when the server stops**, whatever the order of the steps: a handler
never sees `BatchError::Shutdown`, and what an abort cuts belongs to clients that went away. -/
theorem losesNothing_of_reachable (cfg : B → BatcherConfig F) (entries : List B) (s : State B V)
    (hs : (machine V cfg entries).Reachable (fun _ _ => True) s) : LosesNothing cfg entries s := by
  have hinv := inv_of_reachable hs
  refine ⟨fun h p b r hp _ => hinv.closed_eq_false (hinv.serving hp) b,
    fun h b r x hx => (hinv.received h b r x hx).1, hinv.dropped, fun hmain b item hi => ?_,
    fun todo running hd b hb => ?_, fun todo running hd b hb h₁ h₂ h₃ => ?_⟩
  · rcases hinv.accepted b item hi with hcancel | ⟨h, hwait⟩ | ⟨h, x, hx⟩
    · exact .inl hcancel
    · exact absurd (hwait.symm.trans ((hinv.quiet hmain).2 h)) (Option.some_ne_none _)
    · exact .inr ⟨h, x, hx, hinv.mem_results hi hx⟩
  · have hnone : (s.batchers b).batcher.checked = [] := by
      refine List.eq_nil_iff_forall_not_mem.2 fun item hi => ?_
      obtain ⟨h, hp⟩ := hinv.checked b item hi
      exact absurd (hd ▸ hinv.serving hp) (fun h => nomatch h)
    simp [step, hd, hb, State.batcherStep, Shutdown.step, Batcher.step, hnone]
  · have hj := joined_of_reachable hs
    exact Batcher.drained_of_over (hj.uncut b h₃) (hj.ended todo running hd b hb h₁ h₂ h₃)

/-- One client has its answer; the other one goes away while its request is in a call of `embed_fn`
that does not return before the timeout. -/
def stuckAtStop : List (Action Bool ℕ) :=
  [.arrive, .arrive, .call 0 true [[1]], .call 1 true [[2]], .trySend 0, .trySend 1,
    .work true .worker, .work true .deadline, .work true .worker, .work true .worker,
    .work true (.embedDone (.ok [7])), .work true .worker, .work true .worker, .receive 0,
    .respond 0, .work true .worker, .work true .deadline, .work true .worker, .work true .worker,
    .signal, .closeListener, .disconnect 1, .serveReturns, .release, .release,
    .collect [false, true], .begin true, .begin false, .work false .worker, .join false,
    .timeout true, .abort true]

theorem losesNothing_stuckAtStop :
    ∃ s, (machine ℕ (fun _ : Bool => Batcher.pairConfig) [true, false]).Reachable
        (fun _ _ => True) s ∧
      s.main = .draining [] [] ∧ (s.received.map fun e => e.2.2.2) = [.ok [7]] ∧
      (s.batchers true).dropped = [1] ∧
      LosesNothing (fun _ => Batcher.pairConfig) [true, false] s := by
  obtain ⟨s, hrun, hmain, hreceived, hdropped⟩ :
      ∃ s ∈ (machine ℕ (fun _ : Bool => Batcher.pairConfig) [true, false]).runUnder
          (fun _ _ => True) start stuckAtStop,
        s.main = .draining [] [] ∧ (s.received.map fun e => e.2.2.2) = [.ok [7]] ∧
          (s.batchers true).dropped = [1] := by
    decide +kernel
  have hs := Machine.Reachable.of_runUnder
    (M := machine ℕ (fun _ : Bool => Batcher.pairConfig) [true, false])
    ⟨fun _ => show 0 < Batcher.pairConfig.maxQueue.toNat by decide, by decide, rfl⟩ hrun
  exact ⟨s, hs, hmain, hreceived, hdropped, losesNothing_of_reachable _ _ s hs⟩

end OxEmbed.Server

import OxEmbed.Supervisor.Recovery

/-!
# A wedged worker is replaced in time

The heartbeat kills a wedged worker, the watchdog notices the exit and respawns it. The pid that
the heartbeat has loaded may be that of an earlier worker; then its signal is lost, and the counter
starts over. With the timing of both tasks the time until a wedged worker is replaced is bounded,
whatever it does otherwise: it may crash, fail its probes or leave them unanswered.

## Main definitions

* `Unresponsive` : the condition on the steps of a worker that completes nothing.
* `replacementDeadline` : the bound on the time until the replacement.
* `Wedging` : what holds until the worker exits.

## Main results

* `replacesInTime` : a wedged worker is replaced by the deadline, unless the attempts fail.
-/

namespace OxEmbed.Supervisor

/-- While the watchdog waits for the instance, no probe is answered well and no dispatch stamps a
success. -/
def Unresponsive (i : ℕ) (s : State) (a : Action) : Prop :=
  s.watchdog = .waiting i → a ≠ .probed .ok ∧ ∀ k, a ≠ .stamp k

/-- The time by which a worker that is wedged from the state on is replaced, when at most `k` of the
attempts fail. -/
def replacementDeadline (cfg : Config) (timing : Timing) (socketWait k : ℕ) (s : State) : ℕ :=
  killDeadline cfg timing s + attemptsTime socketWait timing.latency (k + 1) + 7 * timing.latency

variable {cfg : Config} {timing : Timing} {socketWait aged begun since since' i k : ℕ}
  {s s' : State} {u u' : Paced (Paced State)} {as : List Action} {a : Action}

/-! ### Until the worker exits -/

/-- What holds of the instance `i` while it is wedged and runs. -/
structure Wedging (cfg : Config) (timing : Timing) (i aged begun : ℕ) (s : State) (since : ℕ) :
    Prop where
  waiting : s.watchdog = .waiting i
  running : (s.instances i).exited = false
  /-- The signal is for the instance, or the pid was loaded before. -/
  target : ∀ p pid, s.heartbeat = .killing p pid → pid = (s.instances i).pid ∨ since ≤ begun
  approaching : Approaching cfg timing aged s since

theorem wedged_of_waiting (hb : Bookkeeping s) (hw : s.watchdog = .waiting i)
    (hC : Unresponsive i s a) : Wedged s a := by
  obtain ⟨hok, hstamp⟩ := hC hw
  have hslot := hb.slot
  have hpid := hb.pid
  rw [hw] at hslot hpid
  refine ⟨?_, ?_, hok, hstamp⟩
  · rw [hslot]
    exact Option.some_ne_none i
  · rw [hpid]
    exact hb.processes.pid_ne_zero i (hb.child i (by rw [hw]; rfl))

/-- The instance exits, and the watchdog is about to notice it. -/
structure Exited (i : ℕ) (s s' : State) : Prop where
  waiting : s'.watchdog = .waiting i
  exited : (s'.instances i).exited = true
  clock : s'.clock = s.clock

theorem pid_of_holder {pid j : ℕ} (h : s.holder pid = some j) : (s.instances j).pid = pid := by
  have hfound := List.find?_some h
  rw [decide_eq_true_iff] at hfound
  exact hfound.1

/-- A signal for another pid does not reach the instance. -/
theorem running_of_kill {pid : ℕ} (hpid : pid ≠ (s.instances i).pid)
    (hrun : (s.instances i).exited = false) : ((s.kill pid).instances i).exited = false := by
  cases hholder : s.holder pid with
  | none => simpa only [State.kill, hholder] using hrun
  | some j =>
    have hij : i ≠ j := fun hij => hpid (hij ▸ pid_of_holder hholder).symm
    simpa only [State.kill, hholder, Function.update_of_ne hij] using hrun

/-- **Step lemma.** A step ends the instance or keeps the bound. -/
theorem Wedging.step (hb : Bookkeeping s) (h : Wedging cfg timing i aged begun s since)
    (hbegun : begun + timing.latency ≤ aged)
    (hin : ∀ d ∈ stay cfg timing s.heartbeat, s.clock ≤ since + d) (hC : Unresponsive i s a)
    (hstep : Trans cfg s a s')
    (hsince : since' = if (pacing cfg timing).starts s a then s'.clock else since) :
    Exited i s s' ∨ Wedging cfg timing i aged begun s' since' := by
  have happroach := h.approaching.step hb hin (wedged_of_waiting hb h.waiting hC) hstep hsince
  have hw := h.waiting
  have hother {phase : WatchdogPhase} (hphase : s.watchdog = phase) (hne : phase ≠ .waiting i) :
      False := hne (hphase.symm.trans hw)
  -- a step that sends no signal and leaves the instances
  have hkeep (hkills : s'.kills = s.kills) (hwatchdog : s'.watchdog = s.watchdog)
      (hrun : (s'.instances i).exited = false)
      (htarget : ∀ p pid, s'.heartbeat = .killing p pid →
        pid = (s'.instances i).pid ∨ since' ≤ begun) :
      Exited i s s' ∨ Wedging cfg timing i aged begun s' since' :=
    .inr ⟨hwatchdog.trans hw, hrun, htarget,
      happroach.resolve_left (by rw [hkills]; exact Nat.lt_irrefl _)⟩
  have hsame (ha : (pacing cfg timing).starts s a = decide (s.heartbeat = .off)) :
      since' = since :=
    hsince.trans (if_neg (by rw [ha, decide_eq_true_iff]; exact h.approaching.on))
  cases hstep with
  | launchSlot hphase | launchPid hphase | clearPid hphase | clearSlot hphase | backedOff hphase
  | storePid hphase | storeSlot hphase | bump hphase | forkFailed hphase | fork hphase
  | started hphase | startFailed hphase => exact (hother hphase (by simp)).elim
  | @reap j hphase hexited =>
    obtain rfl := WatchdogPhase.waiting.inj (hphase.symm.trans hw)
    rw [h.running] at hexited
    cases hexited
  | @exit j hj =>
    by_cases hij : i = j
    · subst hij
      refine .inl ⟨hw, ?_, rfl⟩
      rw [State.exit_instances, Function.update_self]
    · have hinstance : (s.exit j).instances i = s.instances i := by
        rw [State.exit_instances, Function.update_of_ne hij]
      refine hkeep rfl rfl (hinstance ▸ h.running) fun p pid hh => ?_
      rw [hinstance, hsame rfl]
      exact h.target p pid hh
  | @reapOrphan j =>
    refine hkeep rfl rfl ?_ fun p pid hh => ?_
    · rw [reap_exited]
      exact h.running
    · rw [reap_pid, hsame rfl]
      exact h.target p pid hh
  | @loadPid p hh hpid =>
    refine hkeep rfl rfl h.running fun q pid hq => .inl ?_
    obtain rfl := (HeartbeatPhase.killing.inj hq).2
    have hstored := hb.pid
    rw [hw] at hstored
    exact hstored
  | @kill p pid hh =>
    have hi := hb.child i (by rw [hw]; rfl)
    by_cases hpid : pid = (s.instances i).pid
    · refine .inl ⟨hw, ?_, rfl⟩
      have hholder : s.holder pid = some i :=
        hpid ▸ holder_eq_some hb.processes hi (hb.owned i (by rw [hw]; rfl))
      show ((s.kill pid).instances i).exited = true
      simp only [State.kill, hholder, Function.update_self]
    · -- the signal is lost, or another process has got the pid
      have hbefore := (h.target p pid hh).resolve_left hpid
      have hrun := running_of_kill hpid h.running
      have hdue : s.clock ≤ since + timing.latency := hin _ (by rw [hh]; rfl)
      have hnow : since' = s.clock := hsince
      refine .inr ⟨hw, hrun, fun _ _ hkilling => ?_,
        h.approaching.unread rfl (by simp [State.endTick]) rfl (by simp [State.endTick]) ?_⟩
      · cases hkilling
      · simp only [untilRead, State.endTick, tickTime]
        omega
  | skip | probe | probeOk | probeFailed | judge | suppress | count | spend | noPid | connect =>
    refine hkeep rfl rfl h.running fun _ _ hkilling => ?_
    cases hkilling
  | wait | complete | stamp =>
    refine hkeep rfl rfl h.running fun p pid hh => ?_
    rw [hsame rfl]
    exact h.target p pid hh

/-! ### Until the worker is replaced -/

theorem Approaching.mono {aged' : ℕ} (h : Approaching cfg timing aged s since)
    (haged : aged ≤ aged') : Approaching cfg timing aged' s since := by
  refine ⟨fun now hnow => h.stale now (haged.trans hnow), h.on, fun hspent => ?_, fun hspent => ?_,
    h.read⟩
  · have hbound := h.unspent hspent
    omega
  · have hbound := h.spent hspent
    omega

theorem restartCount_le_of_trans (h : Trans cfg s a s') : s.restartCount ≤ s'.restartCount := by
  cases h with
  | bump => exact Nat.le_succ _
  | _ => exact Nat.le_refl _

/-- The failures are reset only when a respawn is counted. -/
theorem failures_of_trans (h : Trans cfg s a s') :
    s.restartCount < s'.restartCount ∨ s.failures ≤ s'.failures := by
  cases h with
  | bump => exact .inl (Nat.lt_succ_self _)
  | forkFailed | startFailed => exact .inr (Nat.le_succ _)
  | _ => exact .inr (Nat.le_refl _)

/-- The time by which the worker has exited. -/
def exitDeadline (cfg : Config) (timing : Timing) (aged : ℕ) : ℕ :=
  aged + tickTime cfg timing * cfg.heartbeatMaxFails + 3 * timing.latency

/-- The worker is respawned, too many attempts have failed, or the worker is on its way to be
replaced in time. -/
inductive Replacing (cfg : Config) (timing : Timing) (socketWait i aged begun k restarts : ℕ)
    (u : Paced (Paced State)) : Prop
  | replaced (h : restarts < u.state.state.restartCount)
  | failed (hrestarts : restarts ≤ u.state.state.restartCount) (h : k < u.state.state.failures)
  | wedged (hrestarts : restarts ≤ u.state.state.restartCount)
      (h : Wedging cfg timing i aged begun u.state.state u.state.since)
  | recovering (hrestarts : restarts ≤ u.state.state.restartCount)
      (h : Recovering socketWait timing.latency (exitDeadline cfg timing aged) u.state.state
        u.since)

variable {restarts : ℕ}

/-- The exit of the worker starts a stage of the watchdog. -/
theorem recovering_of_exited {start : ℕ} (hw : s.watchdog = .waiting i)
    (hrun : (s.instances i).exited = false) (h : Exited i s s') (hclock : s.clock ≤ start)
    (hsince : since' = if startsStage s s' a then s'.clock else since) :
    Recovering socketWait timing.latency start s' since' := by
  have hstarts : startsStage s s' a = true := by
    have hbefore : s.awaitedExit = false := (awaitedExit_of_waiting hw).trans hrun
    have hafter : s'.awaitedExit = true := (awaitedExit_of_waiting h.waiting).trans h.exited
    cases a <;> simp only [startsStage, hbefore, hafter] <;> rfl
  rw [if_pos hstarts, h.clock] at hsince
  refine ⟨by rw [h.waiting]; rfl, fun j hj => ?_, ?_⟩
  · obtain rfl := WatchdogPhase.waiting.inj (h.waiting.symm.trans hj)
    exact h.exited
  · rw [h.waiting, hsince]
    exact hclock

/-- **Step lemma.** -/
theorem Replacing.step (hu : (timed cfg timing socketWait).Reachable (fun _ _ => True) u)
    (hbegun : begun + timing.latency ≤ aged) (hC : Unresponsive i u.state.state a)
    (hstep : (timed cfg timing socketWait).step u a = some u')
    (h : Replacing cfg timing socketWait i aged begun k restarts u) :
    Replacing cfg timing socketWait i aged begun k restarts u' := by
  obtain ⟨hpaced, htrans, -, hsince⟩ := trans_of_timed hstep
  obtain ⟨-, -, hsince'⟩ := trans_of_paced hpaced
  have hreach := reachable_of_paced (reachable_paced hu)
  have hb := bookkeeping_of_reachable hreach
  have hmono := restartCount_le_of_trans htrans
  cases h with
  | replaced h => exact .replaced (h.trans_le hmono)
  | failed hrestarts h =>
    rcases failures_of_trans htrans with hmore | hle
    · exact .replaced (hrestarts.trans_lt hmore)
    · exact .failed (hrestarts.trans hmono) (h.trans_le hle)
  | wedged hrestarts h =>
    have hin := Pacing.inTime_of_reachable (reachable_paced hu)
    rcases h.step hb hbegun hin hC htrans hsince' with hexited | h'
    · have hclock := h.approaching.clock_le hin (counter_of_reachable hreach)
      exact .recovering (hrestarts.trans hmono)
        (recovering_of_exited h.waiting h.running hexited hclock hsince)
    · exact .wedged (hrestarts.trans hmono) h'
  | recovering hrestarts h =>
    rcases h.step hb (backoff_of_reachable hreach) (inTime_watchdog hu) htrans hsince with
      hmore | h'
    · exact .replaced (hrestarts.trans_lt hmore)
    · exact .recovering (hrestarts.trans hmono) h'

/-- The state from which the deadline counts. -/
theorem replacing_start (hu : (timed cfg timing socketWait).Reachable (fun _ _ => True) u)
    (hw : u.state.state.watchdog = .waiting i) (hon : u.state.state.heartbeat ≠ .off) :
    Replacing cfg timing socketWait i (agedFrom cfg u.state.state + timing.latency)
      u.state.state.clock k u.state.state.restartCount u := by
  have hclock : u.state.state.clock ≤ agedFrom cfg u.state.state := clock_le_agedFrom
  cases hrun : (u.state.state.instances i).exited with
  | true =>
    refine .recovering (Nat.le_refl _) ⟨by rw [hw]; rfl, fun j hj => ?_, ?_⟩
    · obtain rfl := WatchdogPhase.waiting.inj (hw.symm.trans hj)
      exact hrun
    · have hsince := since_le_watchdog hu
      rw [hw, latestStart, exitDeadline]
      omega
  | false =>
    have hpaced := reachable_paced hu
    exact .wedged (Nat.le_refl _) ⟨hw, hrun, fun _ _ _ => .inr (since_le_clock hpaced),
      (approaching_start hpaced hon).mono (Nat.le_add_right _ _)⟩

/-- **A wedged worker is replaced by the deadline**, or more than `k` attempts to respawn it have
failed. -/
theorem replaced_of_deadline (hu : (timed cfg timing socketWait).Reachable (fun _ _ => True) u)
    (hw : u.state.state.watchdog = .waiting i) (hon : u.state.state.heartbeat ≠ .off)
    (hp : (timed cfg timing socketWait).Path (fun u a => Unresponsive i u.state.state a) u as u')
    (hlate : replacementDeadline cfg timing socketWait k u.state.state < u'.state.state.clock) :
    u.state.state.restartCount < u'.state.state.restartCount ∨ k < u'.state.state.failures := by
  have hbegun : u.state.state.clock + timing.latency ≤
      agedFrom cfg u.state.state + timing.latency := Nat.add_le_add_right clock_le_agedFrom _
  have hu' : (timed cfg timing socketWait).Reachable (fun _ _ => True) u' :=
    hu.path (hp.of_forall_mem fun _ _ _ => trivial)
  have hreplacing : Replacing cfg timing socketWait i (agedFrom cfg u.state.state + timing.latency)
      u.state.state.clock k u.state.state.restartCount u' := by
    clear hlate hu'
    induction hp with
    | nil => exact replacing_start hu hw hon
    | snoc hp hC h ih =>
      exact ih.step (hu.path (hp.of_forall_mem fun _ _ _ => trivial)) hbegun hC h
  have hreach := reachable_of_paced (reachable_paced hu')
  rw [replacementDeadline, killDeadline] at hlate
  cases hreplacing with
  | replaced h => exact .inl h
  | failed _ h => exact .inr h
  | wedged _ h =>
    have hclock := h.approaching.clock_le (Pacing.inTime_of_reachable (reachable_paced hu'))
      (counter_of_reachable hreach)
    omega
  | recovering _ h =>
    refine .inr (Nat.lt_of_not_le fun hk => ?_)
    have hclock := h.clock_le (backoff_of_reachable hreach) (inTime_watchdog hu') hk
    rw [exitDeadline] at hclock
    omega

/-- A wedged worker is replaced in time, and time passes. -/
structure ReplacesInTime (cfg : Config) (timing : Timing) (socketWait : ℕ) : Prop where
  /-- Time passes, or one of the tasks goes on. -/
  proceeds : ∀ u, (timed cfg timing socketWait).Reachable (fun _ _ => True) u →
    ∃ a ∈ goesOn, ((timed cfg timing socketWait).step u a).isSome = true
  /-- A worker that is wedged from a state on is replaced by the deadline, or more than `k` attempts
  to respawn it have failed. -/
  replaced : ∀ u as u' i k, (timed cfg timing socketWait).Reachable (fun _ _ => True) u →
    u.state.state.watchdog = .waiting i →
    (timed cfg timing socketWait).Path (fun u a => Unresponsive i u.state.state a) u as u' →
    replacementDeadline cfg timing socketWait k u.state.state < u'.state.state.clock →
    u.state.state.restartCount < u'.state.state.restartCount ∨ k < u'.state.state.failures

/-- **A wedged worker is replaced in time**, whatever the environment of the launch holds. -/
theorem replacesInTime (env : Startup.Env) (latency : ℕ) :
    ReplacesInTime (launchConfig env) (launchTiming env latency)
      (Supervisor.socketWait env * 1000) := by
  refine ⟨fun _ => timed_proceeds, fun u as u' i k hu hw hp hlate => ?_⟩
  have hon := heartbeat_ne_off_of_reachable (reachable_of_paced (reachable_paced hu))
    (by rw [hw]; rfl)
  exact replaced_of_deadline hu hw hon hp hlate

end OxEmbed.Supervisor

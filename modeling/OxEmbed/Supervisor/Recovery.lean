import Mathlib.Algebra.BigOperators.Group.Finset.Basic
import Mathlib.Algebra.Order.BigOperators.Group.Finset
import OxEmbed.Supervisor.Deadline
import OxEmbed.Supervisor.Restarts

/-!
# How soon a worker is respawned

The watchdog notices the exit of its worker, clears the pid and the client, and then sleeps before
each spawn attempt, twice as long after every attempt that fails. An attempt ends when the socket
appears or the wait for it is over. So the time until a worker is respawned is bounded, when it is
known how many attempts fail.

The timing of the watchdog is put on top of that of the heartbeat, so a run is timed in both.

## Main definitions

* `State.awaitedExit`, `watchdogPacing`, `timed` : the supervisor with the timing of both tasks.
* `backoffAfter`, `attemptTime`, `attemptsTime` : how long the attempts take.
* `Recovering` : what holds from an exit until the respawn.
* `goesOn` : the actions by which the tasks go on.

## Main results

* `Recovering.step`, `Recovering.clock_le` : the bound while the worker is not respawned.
* `forks_apart` : how many processes are forked in a stretch of time.
* `timed_proceeds` : time passes, or one of the tasks goes on.
-/

namespace OxEmbed.Supervisor

/-! ### The timed supervisor -/

/-- `SOCKET_WAIT_POLL_INTERVAL`, in milliseconds. -/
def socketWaitPollInterval : ℕ := 200

/-- `child.wait` is about to return. -/
def State.awaitedExit (s : State) : Bool :=
  match s.watchdog with
  | .waiting i => (s.instances i).exited
  | _ => false

/-- How long a stage of the watchdog lasts: the sleep before an attempt, the wait for the socket,
and the steps that wait for nothing. -/
def watchdogStay (socketWait latency : ℕ) (s : State) : Option ℕ :=
  match s.watchdog with
  | .waiting _ => if s.awaitedExit then some latency else none
  | .backingOff => some (s.backoff * 1000 + latency)
  | .starting _ => some (socketWait + socketWaitPollInterval + latency)
  | .launchSlot _ | .launchPid _ | .clearPid _ | .clearSlot _ | .spawning | .storePid _
  | .storeSlot _ | .bump _ => some latency

/-- The pacing of the watchdog, on top of that of the heartbeat; a stage starts with a step of the
watchdog, and with the exit of its worker. -/
def watchdogPacing (cfg : Config) (socketWait latency : ℕ) : Pacing (Paced State) Action where
  clock t := t.state.clock
  starts t
    | .watchdog | .fork _ | .started _ => true
    | a =>
      match step cfg t.state a with
      | some s => s.awaitedExit != t.state.awaitedExit
      | none => false
  earliest t
    | .watchdog => if t.state.watchdog = .backingOff then t.state.backoff * 1000 else 0
    | _ => 0
  latest t := watchdogStay socketWait latency t.state

/-- The supervisor with the timing of both tasks; `socketWait` is in milliseconds. -/
def timed (cfg : Config) (timing : Timing) (socketWait : ℕ) :
    Machine (Paced (Paced State)) Action :=
  (watchdogPacing cfg socketWait timing.latency).machine (paced cfg timing)

variable {cfg : Config} {timing : Timing} {socketWait latency : ℕ} {s s' : State} {a : Action}
  {u u' : Paced (Paced State)} {as : List Action} {D : Paced (Paced State) → Action → Prop}
  {start since since' : ℕ}

/-- A stage starts with a step of the watchdog, and with the exit of its worker. -/
def startsStage (s s' : State) (a : Action) : Bool :=
  match a with
  | .watchdog | .fork _ | .started _ => true
  | _ => s'.awaitedExit != s.awaitedExit

theorem starts_eq_startsStage {t : Paced State} (h : step cfg t.state a = some s') :
    (watchdogPacing cfg socketWait latency).starts t a = startsStage t.state s' a := by
  cases a <;> simp only [watchdogPacing, startsStage, h]

/-- What a step of the timed supervisor can do. -/
theorem trans_of_timed (h : (timed cfg timing socketWait).step u a = some u') :
    (paced cfg timing).step u.state a = some u'.state ∧
      Trans cfg u.state.state a u'.state.state ∧
      u.since + (watchdogPacing cfg socketWait timing.latency).earliest u.state a ≤
        u.state.state.clock ∧
      u'.since = if startsStage u.state.state u'.state.state a then u'.state.state.clock
        else u.since := by
  obtain ⟨hready, t, ht, rfl, -⟩ := Pacing.step_eq_some_iff.1 h
  have hstep : step cfg u.state.state a = some t.state := Pacing.state_of_step ht
  refine ⟨ht, trans_of_step hstep, hready, ?_⟩
  rw [Pacing.next, starts_eq_startsStage hstep]
  rfl

/-- The state of the heartbeat and its timing. -/
theorem reachable_paced (hu : (timed cfg timing socketWait).Reachable D u) :
    (paced cfg timing).Reachable (fun _ _ => True) u.state :=
  Pacing.reachable (hu.strengthen fun _ _ _ _ _ _ => trivial)

theorem inTime_watchdog (hu : (timed cfg timing socketWait).Reachable D u) :
    ∀ d ∈ watchdogStay socketWait timing.latency u.state.state,
      u.state.state.clock ≤ u.since + d :=
  Pacing.inTime_of_reachable hu

theorem since_le_watchdog (hu : (timed cfg timing socketWait).Reachable D u) :
    u.since ≤ u.state.state.clock :=
  Pacing.since_le_of_reachable (P := watchdogPacing cfg socketWait timing.latency)
    (fun _ _ _ h => clock_le_of_trans (trans_of_paced h).1) hu

theorem awaitedExit_of_waiting {i : ℕ} (hw : s.watchdog = .waiting i) :
    s.awaitedExit = (s.instances i).exited := by
  rw [State.awaitedExit, hw]

theorem watchdogStay_of_exited {i : ℕ} (hw : s.watchdog = .waiting i)
    (hexited : (s.instances i).exited = true) :
    watchdogStay socketWait latency s = some latency := by
  rw [watchdogStay, hw]
  exact if_pos ((awaitedExit_of_waiting hw).trans hexited)

/-! ### The delays -/

/-- The sleep before an attempt after some failures, in seconds. -/
def backoffAfter (failures : ℕ) : ℕ := min (2 * 2 ^ failures) 60

/-- **Step lemma.** Every step keeps the delay. -/
theorem backoff_of_step (h : s.backoff = backoffAfter s.failures) (hstep : Trans cfg s a s') :
    s'.backoff = backoffAfter s'.failures := by
  have hfail (s₁ : State) (hbackoff : s₁.backoff = s.backoff)
      (hfailures : s₁.failures = s.failures) :
      nextBackoff s₁.backoff = backoffAfter (s₁.failures + 1) := by
    rw [hbackoff, hfailures, h, backoffAfter, nextBackoff_min_pow, backoffAfter]
  cases hstep with
  | bump => rfl
  | forkFailed => exact hfail s rfl rfl
  | @startFailed i => exact hfail (s.exit i) rfl rfl
  | _ => exact h

/-- **Run lemma.** The delay is that after the failures since the last success. -/
theorem backoff_of_reachable {C : State → Action → Prop} (hs : (machine cfg).Reachable C s) :
    s.backoff = backoffAfter s.failures := by
  refine hs.invariant (P := fun s => s.backoff = backoffAfter s.failures) ?_
    fun _ _ _ h _ hstep => backoff_of_step h (trans_of_step hstep)
  rintro _ ⟨pid, clock, -, rfl⟩
  rfl

/-! ### The deadline -/

/-- The time that an attempt takes after some failures: the sleep before it, the wait for the
socket, and the latency of three steps. -/
def attemptTime (socketWait latency failures : ℕ) : ℕ :=
  backoffAfter failures * 1000 + socketWait + socketWaitPollInterval + 3 * latency

/-- The time that the first attempts take, when they fail. -/
def attemptsTime (socketWait latency failures : ℕ) : ℕ :=
  ∑ j ∈ Finset.range failures, attemptTime socketWait latency j

/-- The latest start of a stage, from the exit of the worker. -/
def latestStart (socketWait latency failures : ℕ) : WatchdogPhase → ℕ
  | .launchSlot _ | .launchPid _ | .waiting _ => 0
  | .clearPid _ => latency
  | .clearSlot _ => 2 * latency
  | .backingOff => 3 * latency + attemptsTime socketWait latency failures
  | .spawning =>
    4 * latency + attemptsTime socketWait latency failures + backoffAfter failures * 1000
  | .starting _ =>
    5 * latency + attemptsTime socketWait latency failures + backoffAfter failures * 1000
  | .storePid _ => 3 * latency + attemptsTime socketWait latency (failures + 1)
  | .storeSlot _ => 4 * latency + attemptsTime socketWait latency (failures + 1)
  | .bump _ => 5 * latency + attemptsTime socketWait latency (failures + 1)

/-- What holds from the exit of a worker until it is respawned. -/
structure Recovering (socketWait latency start : ℕ) (s : State) (since : ℕ) : Prop where
  launched : s.watchdog.Launching = false
  exited : ∀ i, s.watchdog = .waiting i → (s.instances i).exited = true
  inTime : since ≤ start + latestStart socketWait latency s.failures s.watchdog

theorem attemptsTime_succ (socketWait latency failures : ℕ) :
    attemptsTime socketWait latency (failures + 1) =
      attemptsTime socketWait latency failures + attemptTime socketWait latency failures :=
  Finset.sum_range_succ ..

/-- A worker that has exited never runs again. -/
theorem exited_of_trans (hstep : Trans cfg s a s') {i : ℕ} (hi : i < s.forked)
    (hexited : (s.instances i).exited = true) : (s'.instances i).exited = true := by
  have hexits {s₁ : State} (h : Exits s s₁) : (s₁.instances i).exited = true := by
    by_contra hrun
    rw [h.exited i (Bool.eq_false_of_not_eq_true hrun)] at hexited
    cases hexited
  cases hstep with
  | @exit j | @startFailed j =>
    show ((s.exit j).instances i).exited = true
    exact hexits (exits_exit s j)
  | @kill p pid =>
    show ((s.kill pid).instances i).exited = true
    exact hexits (exits_kill s pid)
  | @reapOrphan j | @reap j =>
    show ((s.reap j).instances i).exited = true
    rw [reap_exited]
    exact hexited
  | @fork pid =>
    show ((s.fork pid).instances i).exited = true
    rw [State.fork_instances, Function.update_of_ne hi.ne]
    exact hexited
  | _ => exact hexited

/-- A step that is not one of the watchdog. -/
theorem Recovering.frame (hb : Bookkeeping s) (h : Recovering socketWait latency start s since)
    (hexits : ∀ i < s.forked, (s.instances i).exited = true → (s'.instances i).exited = true)
    (hwatchdog : s'.watchdog = s.watchdog) (hfailures : s'.failures = s.failures)
    (hsince : since' = if s'.awaitedExit != s.awaitedExit then s'.clock else since) :
    Recovering socketWait latency start s' since' := by
  have hexited : ∀ i, s'.watchdog = .waiting i → (s'.instances i).exited = true := by
    intro i hi
    rw [hwatchdog] at hi
    exact hexits i (hb.child i (by rw [hi]; rfl)) (h.exited i hi)
  have hawaited : s'.awaitedExit = s.awaitedExit := by
    cases hw : s.watchdog with
    | waiting i =>
      simp only [State.awaitedExit, hwatchdog, hw]
      rw [hexited i (hwatchdog.trans hw), h.exited i hw]
    | _ => simp only [State.awaitedExit, hwatchdog, hw]
  rw [hawaited, bne_self_eq_false, if_neg Bool.false_ne_true] at hsince
  subst hsince
  refine ⟨hwatchdog ▸ h.launched, hexited, ?_⟩
  rw [hwatchdog, hfailures]
  exact h.inTime

/-- A stage ends in time, and the next one starts at once. -/
theorem Recovering.next {phase phase' : WatchdogPhase} {d : ℕ}
    (h : Recovering socketWait latency start s since) (hw : s.watchdog = phase)
    (hdue : s.clock ≤ since + d) (hw' : s'.watchdog = phase') (hnow : since' = s.clock)
    (hlaunched : phase'.Launching = false) (hwaiting : ∀ i, phase' ≠ .waiting i)
    (hle : latestStart socketWait latency s.failures phase + d ≤
      latestStart socketWait latency s'.failures phase') :
    Recovering socketWait latency start s' since' := by
  have hbound := h.inTime
  rw [hw] at hbound
  refine ⟨hw' ▸ hlaunched, fun i hi => absurd (hw'.symm.trans hi) (hwaiting i), ?_⟩
  rw [hw']
  omega

/-- **Step lemma.** Every step respawns the worker or keeps the bound. -/
theorem Recovering.step (hb : Bookkeeping s) (hbackoff : s.backoff = backoffAfter s.failures)
    (h : Recovering socketWait latency start s since)
    (hin : ∀ d ∈ watchdogStay socketWait latency s, s.clock ≤ since + d)
    (hstep : Trans cfg s a s')
    (hsince : since' = if startsStage s s' a then s'.clock else since) :
    s.restartCount < s'.restartCount ∨ Recovering socketWait latency start s' since' := by
  have hexits : ∀ i < s.forked, (s.instances i).exited = true → (s'.instances i).exited = true :=
    fun _ => exited_of_trans hstep
  have hlaunched := h.launched
  have hlate {d : ℕ} (hstay : watchdogStay socketWait latency s = some d) : s.clock ≤ since + d :=
    hin d hstay
  cases hstep with
  | launchSlot hw | launchPid hw =>
    rw [hw] at hlaunched
    cases hlaunched
  | reap hw hexited =>
    have hdue : s.clock ≤ since + latency := hlate (watchdogStay_of_exited hw hexited)
    refine .inr (h.next hw hdue rfl hsince rfl nofun ?_)
    simp only [latestStart]
    omega
  | clearPid hw =>
    refine .inr (h.next hw (hlate (by rw [watchdogStay, hw])) rfl hsince rfl nofun ?_)
    simp only [latestStart]
    omega
  | clearSlot hw =>
    refine .inr (h.next hw (hlate (by rw [watchdogStay, hw])) rfl hsince rfl nofun ?_)
    simp only [latestStart]
    omega
  | backedOff hw =>
    refine .inr (h.next hw (hlate (by rw [watchdogStay, hw])) rfl hsince rfl nofun ?_)
    simp only [latestStart]
    omega
  | storePid hw =>
    refine .inr (h.next hw (hlate (by rw [watchdogStay, hw])) rfl hsince rfl nofun ?_)
    simp only [latestStart]
    omega
  | storeSlot hw =>
    refine .inr (h.next hw (hlate (by rw [watchdogStay, hw])) rfl hsince rfl nofun ?_)
    simp only [latestStart]
    omega
  | bump hw => exact .inl (Nat.lt_succ_self _)
  | forkFailed hw =>
    refine .inr (h.next hw (hlate (by rw [watchdogStay, hw])) rfl hsince rfl nofun ?_)
    simp only [latestStart, State.spawnFailed, attemptsTime_succ, attemptTime]
    omega
  | fork hw =>
    refine .inr (h.next hw (hlate (by rw [watchdogStay, hw])) rfl hsince rfl nofun ?_)
    simp only [latestStart, State.fork]
    omega
  | started hw =>
    refine .inr (h.next hw (hlate (by rw [watchdogStay, hw])) rfl hsince rfl nofun ?_)
    simp only [latestStart, attemptsTime_succ, attemptTime]
    omega
  | startFailed hw =>
    refine .inr (h.next hw (hlate (by rw [watchdogStay, hw])) rfl hsince rfl nofun ?_)
    simp only [latestStart, State.spawnFailed, State.exit, attemptsTime_succ, attemptTime]
    omega
  | _ => exact .inr (h.frame hb hexits rfl rfl hsince)

/-- Until the worker is respawned the time of the attempts has not passed, when no more than `k` of
them have failed. -/
theorem Recovering.clock_le {k : ℕ} (hbackoff : s.backoff = backoffAfter s.failures)
    (h : Recovering socketWait latency start s since)
    (hin : ∀ d ∈ watchdogStay socketWait latency s, s.clock ≤ since + d) (hk : s.failures ≤ k) :
    s.clock ≤ start + attemptsTime socketWait latency (k + 1) + 6 * latency := by
  have hmono : attemptsTime socketWait latency (s.failures + 1) ≤
      attemptsTime socketWait latency (k + 1) :=
    Finset.sum_le_sum_of_subset (Finset.range_mono (Nat.succ_le_succ hk))
  have hsucc := attemptsTime_succ socketWait latency s.failures
  rw [attemptTime] at hsucc
  have hbound := h.inTime
  have hlate {d : ℕ} (hstay : watchdogStay socketWait latency s = some d) : s.clock ≤ since + d :=
    hin d hstay
  cases hw : s.watchdog with
  | launchSlot | launchPid =>
    have hlaunched := h.launched
    rw [hw] at hlaunched
    cases hlaunched
  | waiting i =>
    have hdue : s.clock ≤ since + latency := hlate (watchdogStay_of_exited hw (h.exited i hw))
    simp only [hw, latestStart] at hbound
    omega
  | clearPid | clearSlot | backingOff | spawning | starting | storePid | storeSlot | bump =>
    have hdue := hlate (by rw [watchdogStay, hw])
    simp only [hw, latestStart] at hbound
    omega

/-! ### The forks are apart -/

/-- The part of the sleep before an attempt that a stage comes after, at the least. -/
def backedOff : WatchdogPhase → ℕ
  | .spawning => 2000
  | _ => 0

/-- What holds from a time on: every fork after the first one came after a sleep. -/
structure ForksSpaced (first start : ℕ) (s : State) (since : ℕ) : Prop where
  clock : start ≤ s.clock
  forks : first ≤ s.forked + 1
  spaced : first ≤ s.forked →
    (s.forked - first) * 2000 + start + backedOff s.watchdog ≤ since

variable {first : ℕ}

theorem two_le_backoffAfter (failures : ℕ) : 2 ≤ backoffAfter failures := by
  have hpow : 1 ≤ 2 ^ failures := Nat.one_le_two_pow
  rw [backoffAfter]
  omega

/-- A step that forks no process. -/
theorem ForksSpaced.frame (h : ForksSpaced first start s since) (hclock : s.clock ≤ s'.clock)
    (hforked : s'.forked = s.forked)
    (hle : since + backedOff s'.watchdog ≤ since' + backedOff s.watchdog) :
    ForksSpaced first start s' since' := by
  refine ⟨h.clock.trans hclock, hforked ▸ h.forks, fun hfirst => ?_⟩
  rw [hforked] at hfirst ⊢
  have hspaced := h.spaced hfirst
  omega

/-- **Step lemma.** Every step keeps the forks apart. -/
theorem ForksSpaced.step {t t' : Paced State} (hbackoff : t.state.backoff = backoffAfter
      t.state.failures) (h : ForksSpaced first start t.state since)
    (hstart : since ≤ t.state.clock) (hstep : Trans cfg t.state a t'.state)
    (hready : since + (watchdogPacing cfg socketWait latency).earliest t a ≤ t.state.clock)
    (hsince : since' = if startsStage t.state t'.state a then t'.state.clock else since) :
    ForksSpaced first start t'.state since' := by
  obtain ⟨s, hsince₁⟩ := t
  obtain ⟨s', hsince₂⟩ := t'
  dsimp only at *
  have hclock := clock_le_of_trans hstep
  have hle : since ≤ since' := by
    rw [hsince]
    split
    · exact hstart.trans hclock
    · exact Nat.le_refl _
  cases hstep with
  | backedOff hw =>
    have hslept : since + s.backoff * 1000 ≤ s.clock := by
      simpa only [watchdogPacing, hw, if_true] using hready
    have hnow : since' = s.clock := hsince
    have htwo := two_le_backoffAfter s.failures
    refine h.frame hclock rfl ?_
    simp only [hw, backedOff]
    omega
  | @fork pid hw =>
    have hnow : since' = s.clock := hsince
    refine ⟨h.clock, h.forks.trans (Nat.le_succ _), fun hfirst => ?_⟩
    show (s.forked + 1 - first) * 2000 + start + 0 ≤ since'
    rcases Nat.lt_or_ge s.forked first with hnone | hsome
    · rw [Nat.sub_eq_zero_of_le hnone, Nat.zero_mul, Nat.zero_add, hnow]
      exact h.clock
    · have hspaced := h.spaced hsome
      rw [hw] at hspaced
      simp only [backedOff] at hspaced
      rw [Nat.succ_sub hsome, Nat.succ_mul]
      omega
  | launchSlot hw | launchPid hw | reap hw | clearPid hw | clearSlot hw | storePid hw
  | storeSlot hw | bump hw | started hw | startFailed hw | forkFailed hw =>
    refine h.frame hclock rfl ?_
    simp only [hw, backedOff, State.spawnFailed, State.exit]
    omega
  | _ => exact h.frame hclock rfl (Nat.add_le_add_right hle _)

/-- **The forks are apart**: in a stretch of time there is at most one fork more than there are
sleeps of two seconds in it, however often the worker exits and the attempts fail. -/
theorem forks_apart (hu : (timed cfg timing socketWait).Reachable (fun _ _ => True) u)
    (hp : (timed cfg timing socketWait).Path (fun _ _ => True) u as u') :
    (u'.state.state.forked - (u.state.state.forked + 1)) * 2000 + u.state.state.clock ≤
      u'.state.state.clock := by
  have hspaced : ForksSpaced (u.state.state.forked + 1) u.state.state.clock u'.state.state
      u'.since := by
    induction hp with
    | nil => exact ⟨Nat.le_refl _, Nat.le_refl _, fun h => absurd h (Nat.not_succ_le_self _)⟩
    | snoc hp _ h ih =>
      have hu₁ := hu.path hp
      obtain ⟨-, htrans, hready, hsince⟩ := trans_of_timed h
      exact ih.step (backoff_of_reachable (reachable_of_paced (reachable_paced hu₁)))
        (since_le_watchdog hu₁) htrans hready hsince
  have hstart := since_le_watchdog (hu.path hp)
  have hclock := hspaced.clock
  rcases Nat.lt_or_ge u'.state.state.forked (u.state.state.forked + 1) with hnone | hsome
  · rw [Nat.sub_eq_zero_of_le hnone.le, Nat.zero_mul]
    omega
  · calc (u'.state.state.forked - (u.state.state.forked + 1)) * 2000 + u.state.state.clock
        ≤ (u'.state.state.forked - (u.state.state.forked + 1)) * 2000 + u.state.state.clock
          + backedOff u'.state.state.watchdog := Nat.le_add_right _ _
      _ ≤ u'.since := hspaced.spaced hsome
      _ ≤ u'.state.state.clock := hstart

/-- The worker exits and is respawned after the sleep of two seconds. -/
def respawned (i pid : ℕ) : List Action :=
  [.exit i, .watchdog, .watchdog, .watchdog, .wait 2000, .watchdog, .fork (some pid),
    .started true, .watchdog, .watchdog, .watchdog]

theorem forks_apart_exits :
    ∃ u ∈ (timed defaultConfig ⟨15000, 0⟩ 60000).runUnder (fun _ _ => True)
        ⟨⟨State.launched 7, 0⟩, 0⟩ ([.watchdog, .watchdog] ++ (respawned 0 8 ++ respawned 1 9)),
      u.state.state.forked = 3 ∧ u.state.state.clock = 4000 ∧
        (3 - (1 + 1)) * 2000 + 0 ≤ 4000 := by
  obtain ⟨u, hu, hforked, hclock⟩ :
      ∃ u ∈ (timed defaultConfig ⟨15000, 0⟩ 60000).runUnder (fun _ _ => True)
          ⟨⟨State.launched 7, 0⟩, 0⟩ ([.watchdog, .watchdog] ++ (respawned 0 8 ++ respawned 1 9)),
        u.state.state.forked = 3 ∧ u.state.state.clock = 4000 := by
    decide
  have hinit : (timed defaultConfig ⟨15000, 0⟩ 60000).Init ⟨⟨State.launched 7, 0⟩, 0⟩ :=
    ⟨⟨⟨7, 0, by decide, rfl⟩, rfl⟩, rfl⟩
  have hbound := forks_apart (.init hinit) (.of_runUnder hu)
  rw [hforked, hclock] at hbound
  exact ⟨u, hu, hforked, hclock, hbound⟩

/-! ### Time passes -/

/-- The actions by which the two tasks can always go on. -/
def goesOn : List Action :=
  [.wait 1, .heartbeat, .probed .timeout, .watchdog, .fork none, .started false]

/-- A step of the watchdog does not make the heartbeat late. -/
theorem paced_of_watchdog {t : Paced State} (hb : Bookkeeping t.state)
    (ha : a = .watchdog ∨ a = .fork none ∨ a = .started false)
    (hstart : t.since ≤ t.state.clock) (hin : (pacing cfg timing).InTime t)
    (hstep : step cfg t.state a = some s') :
    ∃ t', (paced cfg timing).step t a = some t' := by
  have hearliest : (pacing cfg timing).earliest t.state a = 0 := by
    rcases ha with rfl | rfl | rfl <;> rfl
  have hstarts : (pacing cfg timing).starts t.state a = decide (t.state.heartbeat = .off) := by
    rcases ha with rfl | rfl | rfl <;> rfl
  have hclock : s'.clock = t.state.clock := by
    rcases ha with rfl | rfl | rfl <;> cases trans_of_step hstep <;> rfl
  have hheartbeat : t.state.heartbeat = .off ∨ s'.heartbeat = t.state.heartbeat := by
    cases trans_of_step hstep with
    | launchPid hw => exact .inl (hb.launching (by rw [hw]; rfl))
    | wait | exit | reapOrphan | launchSlot | reap | clearPid | clearSlot | backedOff | storePid
    | storeSlot | bump | forkFailed | fork | started | startFailed | complete | stamp =>
      exact .inr rfl
    | skip | probe | connect | probeOk | probeFailed | judge | suppress | count | spend | noPid
    | loadPid | kill => rcases ha with ha | ha | ha <;> cases ha
  refine ⟨_, Pacing.step_eq_some_iff.2 ⟨by rwa [hearliest], s', hstep, rfl, ?_⟩⟩
  intro d hd
  rw [Pacing.next, hstarts]
  show s'.clock ≤ (if _ then s'.clock else t.since) + d
  split
  · exact Nat.le_add_right _ d
  next hon =>
    have hsame := hheartbeat.resolve_left fun hoff => hon (decide_eq_true hoff)
    have hd' : d ∈ stay cfg timing s'.heartbeat := hd
    rw [hsame] at hd'
    rw [hclock]
    exact hin d hd'

/-- The watchdog can make its next step when its stage is due. -/
theorem step_of_due {d : ℕ} (hd : d ∈ watchdogStay socketWait latency s) :
    ∃ a s', (a = .watchdog ∨ a = .fork none ∨ a = .started false) ∧ step cfg s a = some s' := by
  cases hw : s.watchdog with
  | waiting i =>
    have hexited : (s.instances i).exited = true := by
      rw [watchdogStay, hw] at hd
      dsimp only at hd
      split at hd
      next hexited => rwa [awaitedExit_of_waiting hw] at hexited
      · cases hd
    exact ⟨.watchdog, _, .inl rfl, by simp only [step, watchdogStep, hw]; exact if_pos hexited⟩
  | spawning => exact ⟨.fork none, _, .inr (.inl rfl), by simp only [step, hw]; rfl⟩
  | starting i =>
    exact ⟨.started false, _, .inr (.inr rfl), by
      simp only [step, hw]
      exact if_neg Bool.false_ne_true⟩
  | launchSlot | launchPid | clearPid | clearSlot | backingOff | storePid | storeSlot | bump =>
    exact ⟨.watchdog, _, .inl rfl, by simp only [step, watchdogStep, hw]; rfl⟩

/-- The stage of the watchdog does not change with a step that starts none. -/
theorem watchdogStay_of_trans (hstep : Trans cfg s a s')
    (ha : a = .wait 1 ∨ a = .heartbeat ∨ a = .probed .timeout)
    (hstarts : startsStage s s' a = false) :
    watchdogStay socketWait latency s' = watchdogStay socketWait latency s := by
  have hawaited : s'.awaitedExit = s.awaitedExit := by
    rcases ha with rfl | rfl | rfl <;> exact bne_eq_false_iff_eq.1 hstarts
  have hsame : s'.watchdog = s.watchdog ∧ s'.backoff = s.backoff := by
    rcases ha with rfl | rfl | rfl <;> cases hstep <;> exact ⟨rfl, rfl⟩
  rw [watchdogStay, watchdogStay, hsame.1, hsame.2, hawaited]

theorem clock_of_tick (hstep : Trans cfg s a s')
    (ha : a = .wait 1 ∨ a = .heartbeat ∨ a = .probed .timeout) : s'.clock ≤ s.clock + 1 := by
  rcases ha with rfl | rfl | rfl <;> cases hstep <;>
    first | exact Nat.le_refl _ | exact Nat.le_succ _

/-- While the watchdog is not due, time passes or the heartbeat goes on. -/
theorem tick_goesOn (hu : (timed cfg timing socketWait).Reachable D u)
    (hlt : ∀ d ∈ watchdogStay socketWait timing.latency u.state.state,
      u.state.state.clock < u.since + d) :
    ∃ a ∈ goesOn, ((timed cfg timing socketWait).step u a).isSome = true := by
  obtain ⟨a, ha, hstep⟩ : ∃ a, (a = .wait 1 ∨ a = .heartbeat ∨ a = .probed .timeout) ∧
      ((paced cfg timing).step u.state a).isSome = true := by
    rcases time_proceeds (reachable_paced hu) with h | h | h
    · exact ⟨_, .inl rfl, h⟩
    · exact ⟨_, .inr (.inl rfl), h⟩
    · exact ⟨_, .inr (.inr rfl), h⟩
  obtain ⟨t', ht'⟩ := Option.isSome_iff_exists.1 hstep
  have htrans := (trans_of_paced ht').1
  refine ⟨a, ?_, Option.isSome_iff_exists.2
    ⟨_, Pacing.step_eq_some_iff.2 ⟨?_, t', ht', rfl, fun d hd => ?_⟩⟩⟩
  · rcases ha with rfl | rfl | rfl <;> decide
  · have hstart := since_le_watchdog hu
    rcases ha with rfl | rfl | rfl <;> exact hstart
  · rw [Pacing.next, starts_eq_startsStage (Pacing.state_of_step ht')]
    show t'.state.clock ≤ (if _ then t'.state.clock else u.since) + d
    split
    · exact Nat.le_add_right _ d
    next hstarts =>
      have hd' : d ∈ watchdogStay socketWait timing.latency t'.state := hd
      rw [watchdogStay_of_trans htrans ha (Bool.eq_false_of_not_eq_true hstarts)] at hd'
      exact (clock_of_tick htrans ha).trans (hlt d hd')

/-- When the watchdog is due, it goes on. -/
theorem watchdog_goesOn (hu : (timed cfg timing socketWait).Reachable D u) {d : ℕ}
    (hd : d ∈ watchdogStay socketWait timing.latency u.state.state)
    (hdue : u.since + d ≤ u.state.state.clock) :
    ∃ a ∈ goesOn, ((timed cfg timing socketWait).step u a).isSome = true := by
  have hpaced := reachable_paced hu
  obtain ⟨a, s', ha, hstep⟩ : ∃ a s', (a = .watchdog ∨ a = .fork none ∨ a = .started false) ∧
      step cfg u.state.state a = some s' := step_of_due hd
  obtain ⟨t', ht'⟩ := paced_of_watchdog (bookkeeping_of_reachable (reachable_of_paced hpaced)) ha
    (since_le_clock hpaced) (Pacing.inTime_of_reachable hpaced) hstep
  have hearliest : (watchdogPacing cfg socketWait timing.latency).earliest u.state a ≤ d := by
    rcases ha with rfl | rfl | rfl
    · show (if u.state.state.watchdog = .backingOff then _ else 0) ≤ d
      split
      next hw =>
        rw [watchdogStay, hw] at hd
        cases hd
        exact Nat.le_add_right ..
      · exact Nat.zero_le d
    · exact Nat.zero_le d
    · exact Nat.zero_le d
  have hstarts : (watchdogPacing cfg socketWait timing.latency).starts u.state a = true := by
    rcases ha with rfl | rfl | rfl <;> rfl
  refine ⟨a, ?_, Option.isSome_iff_exists.2 ⟨_, Pacing.step_eq_some_iff.2
    ⟨(Nat.add_le_add_left hearliest _).trans hdue, t', ht', rfl, fun d _ => ?_⟩⟩⟩
  · rcases ha with rfl | rfl | rfl <;> decide
  · rw [Pacing.next, if_pos hstarts]
    exact Nat.le_add_right _ d

/-- **Time passes, or one of the tasks goes on.** -/
theorem timed_proceeds (hu : (timed cfg timing socketWait).Reachable D u) :
    ∃ a ∈ goesOn, ((timed cfg timing socketWait).step u a).isSome = true := by
  by_cases hlt : ∀ d ∈ watchdogStay socketWait timing.latency u.state.state,
      u.state.state.clock < u.since + d
  · exact tick_goesOn hu hlt
  · push Not at hlt
    obtain ⟨d, hd, hdue⟩ := hlt
    exact watchdog_goesOn hu hd hdue

end OxEmbed.Supervisor
